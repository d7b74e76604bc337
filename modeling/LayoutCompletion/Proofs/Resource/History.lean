import LayoutCompletion.Proofs.Resource.Lookup
import LayoutCompletion.Resource.Decode

/-!
# What was stored, and when

Packages are filled by insertions, tables by packages, a registry by tables. From the histories of
all of them it can be told what every look-up finds: of a package the last value that was inserted
(`Package.Keeps`), of a table the last package (`ResourceTable.Keeps`), of the registry all tables
(`ResourceRegistry.Keeps`, `ofTables_keeps`).

A look-up by a text goes through an interner, which may not know the text, and may know many others.
It finds what the look-up by the symbol finds, since the names of everything stored are known.
-/

namespace LayoutCompletion

/-! ## Texts that were interned -/

namespace Interner

variable {kind : SymbolKind} {i : Interner kind} {s : Symbol kind} {texts : List String}
  {text : String}

/-- The interner that all these texts came to, in this order. -/
def ofTexts (texts : List String) : Interner kind :=
  texts.foldl intern empty

/-- What a dictionary has for the symbol of a text, if the text is known. -/
def lookup? {α : Type} (i : Interner kind) (d : Dictionary (Symbol kind) α) (text : String) :
    Option α :=
  (i.find? text).bind d.get?

theorem mem_symbols_intern : s ∈ (i.intern text).symbols ↔ s ∈ i.symbols ∨ s.text = text := by
  have hsame : s.text = text ↔ s = ⟨text⟩ := by
    cases s
    simp
  unfold intern
  split
  · next hknown =>
    constructor
    · exact Or.inl
    · rintro (hs | hs)
      · exact hs
      · exact hsame.mp hs ▸ hknown
  · rw [List.mem_append, List.mem_singleton, hsame]

/-- A symbol that is known stays known. -/
theorem mem_symbols_foldl :
    s ∈ (texts.foldl intern i).symbols ↔ s ∈ i.symbols ∨ s.text ∈ texts := by
  induction texts generalizing i with
  | nil => simp
  | cons text texts ih => rw [List.foldl_cons, ih, mem_symbols_intern, List.mem_cons, or_assoc]

theorem find?_of_mem (h : s ∈ i.symbols) : i.find? s.text = some s := by
  unfold find?
  have hsome : (i.symbols.find? (·.text = s.text)).isSome = true :=
    List.find?_isSome.mpr ⟨s, h, decide_eq_true rfl⟩
  obtain ⟨found, hfound⟩ := Option.isSome_iff_exists.mp hsome
  have hsame : found.text = s.text := by simpa using List.find?_some hfound
  rw [hfound]
  cases found
  cases s
  exact congrArg some (congrArg Symbol.mk hsame)

/-- If all keys are known, it makes no difference what else is. -/
theorem lookup?_eq {α : Type} {d : Dictionary (Symbol kind) α}
    (h : ∀ s a, d.get? s = some a → s ∈ i.symbols) (text : String) :
    i.lookup? d text = d.get? ⟨text⟩ := by
  unfold lookup?
  cases hget : d.get? ⟨text⟩ with
  | some a =>
    have hfound := find?_of_mem (h ⟨text⟩ a hget)
    rw [hfound, Option.bind_some, hget]
  | none =>
    cases hfound : i.find? text with
    | none => rfl
    | some s =>
      have hsame : s.text = text := by simpa using List.find?_some hfound
      subst hsame
      exact hget

end Interner

/-! ## Packages -/

namespace Package

/--
One call that puts a value into a package.

* `insert`: a value for an entry and a configuration.
* `insertStyleable`: a styleable of the package's own attributes, for the default configuration.
-/
inductive Edit
  | insert (entry configuration : String) (value : ResourceValue)
  | insertStyleable (entry : String) (attributes : List (String × AttrFormat))

namespace Edit

/-- The entry that gets a value. -/
def entry : Edit → String
  | insert entry _ _ => entry
  | insertStyleable entry _ => entry

/-- The configuration that it gets the value for. -/
def configuration : Edit → String
  | insert _ configuration _ => configuration
  | insertStyleable _ _ => defaultConfiguration

/-- The value that it gets in a package of this name. -/
def value (owner : PackageName) : Edit → ResourceValue
  | insert _ _ value => value
  | insertStyleable _ attributes =>
    .styleable ⟨attributes.map fun (declared, format) => ⟨declared, owner, format⟩⟩

/-- Does the call give this entry a value for this configuration? -/
def sets (e : Edit) (entry configuration : String) : Bool :=
  e.entry = entry && e.configuration = configuration

theorem sets_iff {e : Edit} {entry configuration : String} :
    e.sets entry configuration ↔ e.entry = entry ∧ e.configuration = configuration := by
  rw [sets, Bool.and_eq_true, decide_eq_true_iff, decide_eq_true_iff]

end Edit

/-- The package behind one call. -/
def apply (p : Package) : Edit → Package
  | .insert entry configuration value => p.insert entry configuration value
  | .insertStyleable entry attributes => p.insertStyleable entry attributes

variable {p : Package} {e : Edit} {edits : List Edit} {entry configuration : String}

theorem name_apply (p : Package) (e : Edit) : (p.apply e).name = p.name := by
  cases e <;> rfl

theorem name_foldl_apply (edits : List Edit) (p : Package) :
    (edits.foldl apply p).name = p.name := by
  induction edits generalizing p with
  | nil => rfl
  | cons e edits ih => exact (ih (p.apply e)).trans (p.name_apply e)

/-- One call changes the value that it sets. -/
theorem value?_apply (p : Package) (e : Edit) (entry configuration : String) :
    (p.apply e).value? entry configuration =
      if e.sets entry configuration then some (e.value p.name)
      else p.value? entry configuration := by
  simp only [Edit.sets_iff]
  cases e with
  | insert named chosen value => exact value?_insert ..
  | insertStyleable named attributes => exact value?_insert ..

/-- One call touches the entry that it names. -/
theorem entry?_apply_of_ne (p : Package) (h : e.entry ≠ entry) :
    entry? (p.apply e) entry = p.entry? entry := by
  cases e with
  | insert named configuration value => exact (entry?_insert ..).trans (if_neg h)
  | insertStyleable named attributes => exact (entry?_insert ..).trans (if_neg h)

/-- Behind all calls a value is the one that was set last. -/
theorem value?_foldl_apply (edits : List Edit) (p : Package) (entry configuration : String) :
    (edits.foldl apply p).value? entry configuration =
      ((edits.reverse.find? (·.sets entry configuration)).map (·.value p.name)).or
        (p.value? entry configuration) := by
  induction edits generalizing p with
  | nil => rfl
  | cons e edits ih =>
    rw [List.foldl_cons, ih, value?_apply, name_apply, List.reverse_cons, List.find?_append]
    cases edits.reverse.find? (·.sets entry configuration) with
    | some last => rfl
    | none => cases hsets : e.sets entry configuration <;> simp [hsets]

/-- No entry is there that no call named. -/
theorem entry?_foldl_apply {found : ResourceEntry} (edits : List Edit) (p : Package)
    (h : entry? (edits.foldl apply p) entry = some found) :
    entry ∈ edits.map Edit.entry ∨ ∃ before, p.entry? entry = some before := by
  induction edits generalizing p with
  | nil => exact Or.inr ⟨found, h⟩
  | cons e edits ih =>
    rcases ih (p.apply e) h with hlater | ⟨before, hbefore⟩
    · exact Or.inl (List.mem_cons_of_mem _ hlater)
    · by_cases hname : e.entry = entry
      · exact Or.inl (hname ▸ List.mem_cons_self)
      · exact Or.inr ⟨before, (entry?_apply_of_ne p hname).symm.trans hbefore⟩

end Package

/-- A package, told by the calls that filled it, the first one first. -/
structure PackageHistory where
  name : PackageName
  edits : List Package.Edit

/-- The package that was filled. -/
def PackageHistory.package (h : PackageHistory) : Package :=
  h.edits.foldl Package.apply (Package.empty h.name)

/--
The package has what the calls put into it.

* `name`: it keeps the name that it was made with.
* `value`: an entry has the value that was last inserted for a configuration, whatever was inserted
  for others.
* `styleable`: it has a styleable if that is what was last inserted for the default configuration.
* `interned`: it makes no difference which other texts were interned.
-/
structure Package.Keeps (p : Package) (h : PackageHistory) : Prop where
  name : p.name = h.name
  value : ∀ entry configuration, p.value? entry configuration =
    (h.edits.reverse.find? (·.sets entry configuration)).map (·.value h.name)
  styleable : ∀ entry group, p.styleable? entry = some group ↔
    (h.edits.reverse.find? (·.sets entry defaultConfiguration)).map (·.value h.name) =
      some (.styleable group)
  interned : ∀ texts : List String, (∀ e ∈ h.edits, e.entry ∈ texts) →
    ∀ entry, (Interner.ofTexts texts).lookup? p.entries entry = p.entry? entry

theorem PackageHistory.name_package (h : PackageHistory) : h.package.name = h.name :=
  Package.name_foldl_apply h.edits (Package.empty h.name)

theorem PackageHistory.package_keeps (h : PackageHistory) : h.package.Keeps h := by
  have hvalue : ∀ entry configuration, h.package.value? entry configuration =
      (h.edits.reverse.find? (·.sets entry configuration)).map (·.value h.name) := by
    intro entry configuration
    have hempty : (Package.empty h.name).value? entry configuration = none := rfl
    rw [package, Package.value?_foldl_apply, hempty, Option.or_none]
    rfl
  refine ⟨h.name_package, hvalue, fun entry group => ?_, fun texts htexts entry => ?_⟩
  · rw [Package.styleable?_eq_some, hvalue]
  · refine Interner.lookup?_eq (fun s found hfound => ?_) entry
    have horigin : s.text ∈ h.edits.map Package.Edit.entry ∨
        ∃ before, (Package.empty h.name).entries.get? s = some before :=
      Package.entry?_foldl_apply h.edits _ hfound
    rcases horigin with hnamed | ⟨before, hbefore⟩
    · obtain ⟨e, he, hentry⟩ := List.mem_map.mp hnamed
      exact Interner.mem_symbols_foldl.mpr (Or.inr (hentry ▸ htexts e he))
    · cases hbefore

/-! ## Tables -/

namespace ResourceTable

/-- Every package stands under its own name. -/
def Filed (t : ResourceTable) : Prop :=
  ∀ key p, t.packages.get? key = some p → p.name = key

variable {t : ResourceTable} {ps : List Package}

theorem filed_insert (h : t.Filed) (p : Package) : (t.insert p).Filed := by
  intro key q hq
  rw [insert, Dictionary.get?_insert] at hq
  split at hq
  · next hkey => exact Option.some.inj hq ▸ hkey
  · exact h key q hq

theorem filed_foldl_insert (h : t.Filed) : (ps.foldl insert t).Filed := by
  induction ps generalizing t with
  | nil => exact h
  | cons p ps ih => exact ih (filed_insert h p)

theorem namespaceUri_foldl_insert : (ps.foldl insert t).namespaceUri = t.namespaceUri := by
  induction ps generalizing t with
  | nil => rfl
  | cons p ps ih => exact ih

/-- Behind all insertions a package is the one that was inserted last. -/
theorem package?_foldl_insert (name : String) :
    (ps.foldl insert t).package? name =
      (ps.reverse.find? (·.name.text = name)).or (t.package? name) := by
  induction ps generalizing t with
  | nil => rfl
  | cons p ps ih =>
    rw [List.foldl_cons, ih, package?_insert, List.reverse_cons, List.find?_append, Option.or_assoc,
      List.find?_singleton]
    by_cases hname : p.name.text = name <;> simp [hname]

/-- Of a table in good order the packages have the keys for their names. -/
theorem map_name_values (h : t.Filed) : t.packages.values.map Package.name = t.packages.keys := by
  rw [Dictionary.values, Dictionary.keys, List.map_map]
  refine List.map_congr_left fun e he => ?_
  exact h e.1 e.2 (Dictionary.get?_eq_some.mpr he)

/-- Of a table in good order every package is found by its name. -/
theorem mem_values_iff_package? (h : t.Filed) {p : Package} :
    p ∈ t.packages.values ↔ t.package? p.name.text = some p := by
  rw [Dictionary.mem_values_iff]
  constructor
  · rintro ⟨key, hkey⟩
    obtain rfl := h key p hkey
    exact hkey
  · exact fun hfound => ⟨p.name, hfound⟩

end ResourceTable

/-- A table, told by the packages that were put into it, the first one first. -/
structure TableHistory where
  namespaceUri : String
  packages : List PackageHistory

/-- The table that was filled. -/
def TableHistory.table (h : TableHistory) : ResourceTable :=
  .ofPackages h.namespaceUri (h.packages.map (·.package))

/--
The table has the packages that were put into it.

* `namespaceUri`: it serves the namespace that it was made for.
* `package`: under a name it has the package that was inserted last.
* `listed`: it lists the packages that are found by their names.
* `listed_once`: it lists each of them once.
* `interned`: it makes no difference which other texts were interned.
-/
structure ResourceTable.Keeps (t : ResourceTable) (h : TableHistory) : Prop where
  namespaceUri : t.namespaceUri = h.namespaceUri
  package : ∀ name, t.package? name =
    (h.packages.reverse.find? (·.name.text = name)).map (·.package)
  listed : ∀ p, p ∈ t.packages.values ↔ t.package? p.name.text = some p
  listed_once : (t.packages.values.map Package.name).Nodup
  interned : ∀ texts : List String, (∀ p ∈ h.packages, p.name.text ∈ texts) →
    ∀ name, (Interner.ofTexts texts).lookup? t.packages name = t.package? name

theorem TableHistory.table_keeps (h : TableHistory) : h.table.Keeps h := by
  have hfiled : h.table.Filed := ResourceTable.filed_foldl_insert (fun _ _ h => nomatch h)
  have hpackage : ∀ name, h.table.package? name =
      (h.packages.reverse.find? (·.name.text = name)).map (·.package) := by
    intro name
    have hempty : (ResourceTable.empty h.namespaceUri).package? name = none := rfl
    rw [table, ResourceTable.ofPackages, ResourceTable.package?_foldl_insert, hempty,
      Option.or_none, ← List.map_reverse, List.find?_map]
    simp only [Function.comp_def, PackageHistory.name_package]
  refine ⟨ResourceTable.namespaceUri_foldl_insert, hpackage,
    fun p => ResourceTable.mem_values_iff_package? hfiled, ?_, fun texts htexts name => ?_⟩
  · rw [ResourceTable.map_name_values hfiled]
    exact h.table.packages.nodup
  · refine Interner.lookup?_eq (fun s p hp => Interner.mem_symbols_foldl.mpr (Or.inr ?_)) name
    obtain ⟨found, hfound, -⟩ := Option.map_eq_some_iff.mp ((hpackage s.text).symm.trans hp)
    have hname : found.name.text = s.text := by simpa using List.find?_some hfound
    exact hname ▸ htexts found (List.mem_reverse.mp (List.mem_of_find?_eq_some hfound))

/-! ## The registry -/

/--
The registry has the tables that were registered.

* `tables`: a namespace is served by all tables that were registered for it, in that order, and as
  often as they were.
* `auto`: behind the namespace for every package stands every package of every table.
* `marked`: behind the namespace of a name stands the package of that name of each table that serves
  it.
* `other`: behind any other namespace stands none.
-/
structure ResourceRegistry.Keeps (r : ResourceRegistry) (history : List TableHistory) : Prop where
  tables : ∀ uri, r.tablesFor uri = (history.filter (·.namespaceUri = uri)).map (·.table)
  auto : r.packagesFor autoUri = history.flatMap (·.table.packages.values)
  marked : ∀ name, r.packagesFor (uriMarker ++ name) =
    (history.filter (·.namespaceUri = uriMarker ++ name)).filterMap (·.table.package? name)
  other : ∀ uri, uri ≠ autoUri → (∀ name, uri ≠ uriMarker ++ name) → r.packagesFor uri = []

/-- What was stored is found: the last of each, and the tables in order. -/
theorem ResourceRegistry.ofTables_keeps (history : List TableHistory) :
    (ofTables (history.map (·.table))).Keeps history ∧
      (∀ t : TableHistory, t.table.Keeps t) ∧ ∀ p : PackageHistory, p.package.Keeps p := by
  have hregistered : (ofTables (history.map (·.table))).tables = history.map (·.table) :=
    tables_foldl_register _ empty
  have htables : ∀ uri, (ofTables (history.map (·.table))).tablesFor uri =
      (history.filter (·.namespaceUri = uri)).map (·.table) := by
    intro uri
    rw [tablesFor_eq_filter, hregistered, List.filter_map]
    simp only [Function.comp_def, (TableHistory.table_keeps _).namespaceUri]
  refine ⟨⟨htables, ?_, fun name => ?_, fun uri => packagesFor_other⟩, TableHistory.table_keeps,
    PackageHistory.package_keeps⟩
  · rw [packagesFor_autoUri, allPackages, hregistered, List.flatMap_map]
  · rw [packagesFor_uriMarker, htables, List.filterMap_map]
    rfl

end LayoutCompletion
