import LayoutCompletion.Proofs.Dictionary
import LayoutCompletion.Proofs.Json.Contents
import LayoutCompletion.Proofs.Resource.History
import LayoutCompletion.Proofs.Resource.Written

/-!
# Tables that were loaded

What a document says about a table is told apart from the readers (`TableContents.Written`), and
what a table must then have apart from how it is filled (`ResourceTable.Holds`). Loading goes from
the one to the other (`ResourceTable.decode_exact`).
-/

namespace LayoutCompletion

open Json

/-! ## Packages -/

namespace Package

variable {p : Package} {entries : List (String × ResourceEntry.Settings)}

/-- Every entry has a value. -/
def Filled (p : Package) : Prop :=
  ∀ entry, (p.entry? entry).isSome ↔ ∃ configuration, (p.value? entry configuration).isSome

theorem filled_empty (name : PackageName) : (empty name).Filled := by
  intro entry
  simp [value?, entry?, empty]

theorem filled_insert (h : p.Filled) (name configuration : String) (value : ResourceValue) :
    (p.insert name configuration value).Filled := by
  intro other
  rw [entry?_insert]
  simp only [value?_insert]
  by_cases hname : name = other
  · rw [if_pos hname]
    exact ⟨fun _ => ⟨configuration, by simp [hname]⟩, fun _ => rfl⟩
  · simp only [hname, false_and, if_false]
    exact h other

/-- What holds of an empty package and is kept by each insertion holds of every package that is made
of entries. -/
theorem ofEntries_induction {P : Package → Prop} {name : PackageName} (hempty : P (empty name))
    (hinsert : ∀ p entry configuration value, P p → P (p.insert entry configuration value))
    (entries : List (String × ResourceEntry.Settings)) : P (ofEntries name entries) := by
  have hall (p : Package) (e : String × ResourceEntry.Settings) (hp : P p) :
      P (p.insertAll e.1 e.2) :=
    List.foldlRecOn e.2 _ hp fun p hp setting _ => hinsert p e.1 setting.1 setting.2 hp
  exact List.foldlRecOn _ _ hempty fun p hp e _ => hall p e hp

/-- For each configuration the entry gets the last value that the settings have for it. -/
theorem value?_insertAll (p : Package) (name : String) (settings : ResourceEntry.Settings)
    (entry configuration : String) :
    (p.insertAll name settings).value? entry configuration =
      if name = entry then (settings.reverse.lookup configuration).or (p.value? entry configuration)
      else p.value? entry configuration := by
  unfold insertAll
  induction settings generalizing p with
  | nil => exact (ite_self _).symm
  | cons setting settings ih =>
    obtain ⟨chosen, value⟩ := setting
    rw [List.foldl_cons, ih, value?_insert]
    by_cases hname : name = entry
    · rw [if_pos hname, if_pos hname, List.reverse_cons, List.lookup_append, Option.or_assoc,
        List.lookup_cons, List.lookup_nil]
      by_cases hchosen : chosen = configuration
      · simp [hname, hchosen]
      · simp [hchosen, beq_eq_false_iff_ne.mpr (Ne.symm hchosen)]
    · simp [hname]

/-- If no entry comes twice, each gets its own settings. -/
theorem value?_foldl_insertAll (hnodup : (entries.map Prod.fst).Nodup) (p : Package)
    (entry configuration : String) :
    value? (entries.foldl (fun p (entry, settings) => p.insertAll entry settings) p) entry
        configuration =
      ((Dictionary.find? entry entries).bind (·.reverse.lookup configuration)).or
        (p.value? entry configuration) := by
  induction entries generalizing p with
  | nil => rfl
  | cons e entries ih =>
    obtain ⟨name, settings⟩ := e
    rw [List.map_cons, List.nodup_cons] at hnodup
    rw [List.foldl_cons, ih hnodup.2, value?_insertAll, Dictionary.find?]
    by_cases hname : name = entry
    · subst hname
      have hnone : Dictionary.find? name entries = none := by
        refine Option.eq_none_iff_forall_not_mem.mpr fun settings hsettings => hnodup.1 ?_
        exact List.mem_map.mpr
          ⟨_, (Dictionary.find?_eq_some hnodup.2).mp hsettings, rfl⟩
      rw [hnone, if_pos rfl, if_pos rfl]
      rfl
    · rw [if_neg hname, if_neg hname]

/--
The package has the entries that are listed, and nothing else.

* `name`: it has its name.
* `value`: of the entries with one name the last counts, and of its values for one configuration
  the last.
* `entry`: it has no entry without a value.
-/
structure Holds (p : Package) (name : String)
    (entries : List (String × ResourceEntry.Settings)) : Prop where
  name : p.name = ⟨name⟩
  value : ∀ entry configuration, p.value? entry configuration =
    (entries.reverse.lookup entry).bind (·.reverse.lookup configuration)
  entry : ∀ entry, (p.entry? entry).isSome ↔
    ∃ configuration, (p.value? entry configuration).isSome

theorem ofEntries_holds (name : String) (entries : List (String × ResourceEntry.Settings)) :
    (ofEntries ⟨name⟩ entries).Holds name entries where
  name := ofEntries_induction (P := fun p => p.name = ⟨name⟩) rfl (fun _ _ _ _ h => h) entries
  value entry configuration := by
    have hempty : (empty ⟨name⟩).value? entry configuration = none := rfl
    rw [ofEntries, value?_foldl_insertAll (Dictionary.ofList entries).nodup, hempty, Option.or_none,
      ← Dictionary.get?_ofList]
    rfl
  entry :=
    ofEntries_induction (filled_empty ⟨name⟩) (fun _ _ _ _ h => filled_insert h _ _ _) entries

end Package

/-! ## Tables -/

/-- What a document says about a table: its namespace, and the packages and their entries in
written order. A name may come more than once. -/
structure TableContents where
  namespaceUri : String
  packages : List (String × List (String × ResourceEntry.Settings))

namespace TableContents

/-- A member of a package says an entry. -/
def EntryWritten (declaring : PackageName) (field : String × Tree)
    (entry : String × ResourceEntry.Settings) : Prop :=
  entry.1 = field.1 ∧ ∃ value, field.2.value? = some value ∧
    ResourceEntry.Written declaring value entry.2

/-- A member of the packages says a package. -/
def PackageWritten (field : String × Tree)
    (package : String × List (String × ResourceEntry.Settings)) : Prop :=
  package.1 = field.1 ∧ ∃ fields, field.2.fields? = some fields ∧
    List.Forall₂ (EntryWritten ⟨field.1⟩) fields package.2

/-- A tree says the packages, which may be left out. -/
inductive PackagesWritten :
    Option Tree → List (String × List (String × ResourceEntry.Settings)) → Prop
  | leftOut : PackagesWritten none []
  | given {tree : Tree} {fields : List (String × Tree)}
      {packages : List (String × List (String × ResourceEntry.Settings))}
      (hfields : tree.fields? = some fields)
      (hpackages : List.Forall₂ PackageWritten fields packages) :
      PackagesWritten (some tree) packages

/--
Where the fields of a table stand: its namespace and its packages.

* `object`: under their keys. No field comes twice; other keys do not matter.
* `row`: in an array, in this order.
-/
inductive HasFields : Tree → Tree → Option Tree → Prop
  | object {tree uri : Tree} {packages : Option Tree} {fields : List (String × Tree)}
      (hfields : tree.fields? = some fields) (huri : treesOf "namespace" fields = [uri])
      (hpackages : treesOf "packages" fields = packages.toList) : HasFields tree uri packages
  | row {tree uri : Tree} {packages : Option Tree}
      (hitems : tree.items? = some (uri :: packages.toList)) : HasFields tree uri packages

/-- A tree says the contents of a table. -/
inductive Written : Tree → TableContents → Prop
  | fields {tree uri : Tree} {written : Option Tree} {text : List Char}
      {packages : List (String × List (String × ResourceEntry.Settings))}
      (hfields : HasFields tree uri written) (huri : uri.value? = some (.scalar (.string text)))
      (hpackages : PackagesWritten written packages) :
      Written tree ⟨String.ofList text, packages⟩

variable {tree : Tree} {contents other : TableContents}

/-! ### Contents are unambiguous -/

theorem rightUnique_entryWritten (declaring : PackageName) :
    Relator.RightUnique (EntryWritten declaring) := by
  rintro field ⟨entry, settings⟩ ⟨entry', settings'⟩ ⟨hkey, value, hvalue, h⟩
    ⟨hkey', value', hvalue', h'⟩
  obtain rfl := Option.some.inj (hvalue.symm.trans hvalue')
  have hsettings : some settings = some settings' :=
    (ResourceEntry.settingsOf?_eq_some.mpr h).symm.trans (ResourceEntry.settingsOf?_eq_some.mpr h')
  exact Prod.ext (hkey.trans hkey'.symm) (Option.some.inj hsettings)

theorem rightUnique_packageWritten : Relator.RightUnique PackageWritten := by
  rintro field ⟨name, entries⟩ ⟨name', entries'⟩ ⟨hkey, fields, hfields, h⟩
    ⟨hkey', fields', hfields', h'⟩
  obtain rfl := Option.some.inj (hfields.symm.trans hfields')
  exact Prod.ext (hkey.trans hkey'.symm)
    (Relator.RightUnique.forall₂ (rightUnique_entryWritten _) h h')

theorem rightUnique_packagesWritten : Relator.RightUnique PackagesWritten := by
  intro tree packages packages' h h'
  cases h with
  | leftOut =>
    cases h'
    rfl
  | given hfields h =>
    cases h' with
    | given hfields' h' =>
      obtain rfl := Option.some.inj (hfields.symm.trans hfields')
      exact Relator.RightUnique.forall₂ rightUnique_packageWritten h h'

theorem HasFields.unique {uri uri' : Tree} {packages packages' : Option Tree}
    (h : HasFields tree uri packages) (h' : HasFields tree uri' packages') :
    uri = uri' ∧ packages = packages' := by
  have hlist {a b : Option Tree} (hab : a.toList = b.toList) : a = b := by
    cases a <;> cases b <;> simp_all
  cases h with
  | object hfields huri hpackages =>
    cases h' with
    | object hfields' huri' hpackages' =>
      obtain rfl := Option.some.inj (hfields.symm.trans hfields')
      exact ⟨(List.cons.inj (huri.symm.trans huri')).1, hlist (hpackages.symm.trans hpackages')⟩
    | row hitems => cases tree <;> first | cases hfields | cases hitems
  | row hitems =>
    cases h' with
    | object hfields _ _ => cases tree <;> first | cases hfields | cases hitems
    | row hitems' =>
      obtain ⟨huri, hpackages⟩ := List.cons.inj (Option.some.inj (hitems.symm.trans hitems'))
      exact ⟨huri, hlist hpackages⟩

/-- No tree says two tables. -/
theorem Written.unique (h : Written tree contents) (h' : Written tree other) :
    contents = other := by
  obtain ⟨hfields, huri, hpackages⟩ := h
  obtain ⟨hfields', huri', hpackages'⟩ := h'
  obtain ⟨rfl, rfl⟩ := hfields.unique hfields'
  obtain rfl := rightUnique_packagesWritten hpackages hpackages'
  cases huri.symm.trans huri'
  rfl

end TableContents

namespace ResourceTable

/--
The table has what the contents say, and nothing else.

* `namespaceUri`: it serves the namespace.
* `packages`: it lists the packages that are named.
* `package`: of the packages with one name it has the last, with the entries of this one.
-/
structure Holds (t : ResourceTable) (contents : TableContents) : Prop where
  namespaceUri : t.namespaceUri = contents.namespaceUri
  packages : ∀ key, key ∈ t.packages.keys ↔ key.text ∈ contents.packages.map Prod.fst
  package : ∀ name, Option.Rel (fun entries p => Package.Holds p name entries)
    (contents.packages.reverse.lookup name) (t.package? name)

/-- The table that is made of the contents. -/
def ofContents (contents : TableContents) : ResourceTable :=
  ofPackages contents.namespaceUri
    (contents.packages.map fun (name, entries) => Package.ofEntries ⟨name⟩ entries)

theorem package?_ofContents (contents : TableContents) (name : String) :
    (ofContents contents).package? name =
      (contents.packages.reverse.lookup name).map (Package.ofEntries ⟨name⟩) := by
  have hempty : (empty contents.namespaceUri).package? name = none := rfl
  rw [ofContents, ofPackages, package?_foldl_insert, hempty, Option.or_none, ← List.map_reverse]
  generalize contents.packages.reverse = packages
  induction packages with
  | nil => rfl
  | cons package packages ih =>
    obtain ⟨key, entries⟩ := package
    have hkey : (Package.ofEntries ⟨key⟩ entries).name.text = key :=
      congrArg Symbol.text (Package.ofEntries_holds key entries).name
    rw [List.map_cons, List.find?_cons, List.lookup_cons, hkey, ih]
    by_cases hname : key = name
    · subst hname
      simp
    · rw [decide_eq_false hname, beq_eq_false_iff_ne.mpr (Ne.symm hname)]

theorem ofContents_holds (contents : TableContents) : (ofContents contents).Holds contents where
  namespaceUri := namespaceUri_foldl_insert
  packages key := by
    have hlisted : key ∈ (ofContents contents).packages.keys ↔
        ((ofContents contents).package? key.text).isSome := by
      rw [Dictionary.keys, List.mem_map, Option.isSome_iff_exists]
      constructor
      · rintro ⟨⟨_, p⟩, hp, rfl⟩
        exact ⟨p, Dictionary.get?_eq_some.mpr hp⟩
      · rintro ⟨p, hp⟩
        exact ⟨_, Dictionary.get?_eq_some.mp hp, rfl⟩
    rw [hlisted, package?_ofContents, Option.isSome_map, List.lookup_isSome_iff, List.mem_map]
    simp only [List.mem_reverse, beq_iff_eq, eq_comm (a := key.text)]
  package name := by
    rw [package?_ofContents]
    cases contents.packages.reverse.lookup name with
    | none => exact .none
    | some entries => exact .some (Package.ofEntries_holds name entries)

/-! ## Documents -/

/-- What stands under the key of a field fills its slot. -/
inductive Fills {α : Type} (read : Reader α) : Option α → List Tree → Option α → Prop
  | untouched (before : Option α) : Fills read before [] before
  | filled {tree : Tree} {a : α} (hread : read tree = .ok a) : Fills read none [tree] (some a)

theorem Fills.cons {α : Type} {read : Reader α} {tree : Tree} {trees : List Tree} {a : α}
    {after : Option α} (hread : read tree = .ok a) (h : Fills read (some a) trees after) :
    Fills read none (tree :: trees) after := by
  cases h
  exact .filled hread

theorem Fills.exists_toList {α : Type} {read : Reader α} {before after : Option α}
    {trees : List Tree} (h : Fills read before trees after) :
    ∃ written : Option Tree, trees = written.toList := by
  cases h with
  | untouched => exact ⟨none, rfl⟩
  | @filled tree _ _ => exact ⟨some tree, rfl⟩

theorem Fills.exists_of_some {α : Type} {read : Reader α} {after : Option α} {a : α}
    {trees : List Tree} (h : Fills read none trees after) (ha : after = some a) :
    ∃ tree, trees = [tree] := by
  cases h with
  | untouched => cases ha
  | @filled tree _ _ => exact ⟨tree, rfl⟩

theorem fills_of_takes {before after : Slots} {fields : List (String × Tree)}
    (h : record.Takes before fields after) :
    Fills readString before.namespaceUri (treesOf "namespace" fields) after.namespaceUri ∧
      Fills readPackages before.packages (treesOf "packages" fields) after.packages := by
  induction h with
  | nil slots => exact ⟨.untouched _, .untouched _⟩
  | skip tree hkey _ ih =>
    have huri := hkey _ List.mem_cons_self
    have hpackages := hkey _ (List.mem_cons_of_mem _ List.mem_cons_self)
    rw [treesOf_cons, treesOf_cons, if_neg huri.symm, if_neg hpackages.symm]
    exact ih
  | @take before _ _ _ _ _ hmem hunset hread _ ih =>
    obtain ⟨namespaceUri, packages⟩ := before
    rcases List.mem_cons.mp hmem with rfl | hmem
    · obtain ⟨uri, huri, hslots⟩ := bind_eq_ok.mp hread
      obtain rfl := Except.ok.inj hslots
      obtain rfl : namespaceUri = none :=
        Option.not_isSome_iff_eq_none.mp (ne_true_of_eq_false hunset)
      rw [treesOf_cons, treesOf_cons, if_pos rfl, if_neg (by decide)]
      exact ⟨ih.1.cons huri, ih.2⟩
    · obtain rfl := List.mem_singleton.mp hmem
      obtain ⟨listed, hlisted, hslots⟩ := bind_eq_ok.mp hread
      obtain rfl := Except.ok.inj hslots
      obtain rfl : packages = none := Option.not_isSome_iff_eq_none.mp (ne_true_of_eq_false hunset)
      rw [treesOf_cons, treesOf_cons, if_neg (by decide), if_pos rfl]
      exact ⟨ih.1, ih.2.cons hlisted⟩

theorem finish_eq_ok {slots : Slots} {t : ResourceTable} :
    record.finish slots = .ok t ↔
      ∃ uri, slots.namespaceUri = some uri ∧ t = ofPackages uri (slots.packages.getD []) := by
  obtain ⟨namespaceUri, packages⟩ := slots
  cases namespaceUri with
  | none => simp [record]
  | some uri => simp [record, eq_comm]

theorem finish_of_build {slots : Slots} {behind : List Char} {t : ResourceTable}
    (h : record.build slots behind = .ok t) : record.finish slots = .ok t := by
  unfold Record.build at h
  split at h
  · next hfinish => rw [hfinish, Except.ok.inj h]
  · cases h

theorem trees?_of_checkEnd {items : Items} (h : Record.checkEnd items = .ok ()) :
    items.trees? = some [] := by
  cases items with
  | unread => rfl
  | close behind => rfl
  | noComma rest => cases h
  | item rest value later =>
    obtain ⟨-, -, hnot⟩ := bind_eq_ok.mp h
    cases hnot

/-- In an array the namespace comes first, and behind it the packages, which may be left out. -/
theorem trees?_of_readItems {items : Items} {slots : Slots} {t : ResourceTable}
    (hitems : record.readItems 0 record.start record.fields items = .ok slots)
    (hfinish : record.finish slots = .ok t) :
    ∃ (uri : Tree) (written : Option Tree), items.trees? = some (uri :: written.toList) ∧
      Fills readString none [uri] slots.namespaceUri ∧
      Fills readPackages none written.toList slots.packages := by
  cases items with
  | unread =>
    obtain rfl := Except.ok.inj hitems
    cases hfinish
  | close behind =>
    obtain ⟨_, hmissing, -⟩ := bind_eq_ok.mp hitems
    cases hmissing
  | noComma rest => cases hitems
  | item rest uri later =>
    obtain ⟨_, hcheck, huri⟩ := bind_eq_ok.mp hitems
    obtain ⟨named, hnamed, hlater⟩ := bind_eq_ok.mp huri
    obtain ⟨text, htext, hslots⟩ := bind_eq_ok.mp hnamed
    obtain rfl := Except.ok.inj hslots
    have hitem (written : Option Tree) (h : later.trees? = some written.toList) :
        (Items.item rest uri later).trees? = some (uri :: written.toList) := by
      rw [Items.trees?, if_neg (checkItem_eq_ok.mp hcheck), h]
      rfl
    cases later with
    | unread =>
      obtain rfl := Except.ok.inj hlater
      exact ⟨uri, none, hitem none rfl, .filled htext, .untouched _⟩
    | close behind =>
      obtain ⟨_, -, hend⟩ := bind_eq_ok.mp hlater
      obtain rfl := Except.ok.inj hend
      exact ⟨uri, none, hitem none rfl, .filled htext, .untouched _⟩
    | noComma rest => cases hlater
    | item rest packages last =>
      obtain ⟨_, hcheck, hpackages⟩ := bind_eq_ok.mp hlater
      obtain ⟨filled, hfilled, hlast⟩ := bind_eq_ok.mp hpackages
      obtain ⟨listed, hlisted, hslots⟩ := bind_eq_ok.mp hfilled
      obtain rfl := Except.ok.inj hslots
      obtain ⟨_, hend, rfl⟩ := map_eq_ok.mp hlast
      refine ⟨uri, some packages, hitem (some packages) ?_, .filled htext, .filled hlisted⟩
      rw [Items.trees?, if_neg (checkItem_eq_ok.mp hcheck), trees?_of_checkEnd hend]
      rfl

/-- A reader fills each slot with what stands in its field. -/
theorem hasFields_of_read {tree : Tree} {t : ResourceTable} (h : record.read tree = .ok t) :
    ∃ uri written slots, TableContents.HasFields tree uri written ∧
      Fills readString none [uri] slots.namespaceUri ∧
      Fills readPackages none written.toList slots.packages ∧ record.finish slots = .ok t := by
  unfold Record.read at h
  split at h
  · next rest members =>
    obtain ⟨⟨slots, behind⟩, hmembers, hbuild⟩ := bind_eq_ok.mp h
    have hfinish := finish_of_build hbuild
    obtain ⟨fields, hfields, htakes⟩ := Record.takes_of_readMembers hmembers
    obtain ⟨huri, hpackages⟩ := fills_of_takes htakes
    obtain ⟨text, htext, -⟩ := finish_eq_ok.mp hfinish
    obtain ⟨uri, huriTree⟩ := huri.exists_of_some htext
    obtain ⟨written, hwritten⟩ := hpackages.exists_toList
    rw [huriTree] at huri
    rw [hwritten] at hpackages
    exact ⟨uri, written, slots, .object hfields huriTree hwritten, huri, hpackages, hfinish⟩
  · next rest items =>
    obtain ⟨slots, hitems, hbuild⟩ := bind_eq_ok.mp h
    have hfinish := finish_of_build hbuild
    obtain ⟨uri, written, htrees, huri, hpackages⟩ := trees?_of_readItems hitems hfinish
    exact ⟨uri, written, slots, .row htrees, huri, hpackages, hfinish⟩
  · cases h

theorem packagesWritten_of_readPackages {tree : Tree} {packages : List Package}
    (h : readPackages tree = .ok packages) :
    ∃ written, TableContents.PackagesWritten (some tree) written ∧
      packages = written.map fun (name, entries) => Package.ofEntries ⟨name⟩ entries := by
  obtain ⟨written, hread, hpackages⟩ := bind_eq_ok.mp h
  obtain ⟨fields, hfields, hrows⟩ := fields?_of_readObject hread
  refine ⟨written, .given hfields (hrows.imp ?_), (Except.ok.inj hpackages).symm⟩
  rintro ⟨name, packageTree⟩ ⟨_, entries⟩ ⟨rfl, -, hentries⟩
  obtain ⟨entryFields, hentryFields, hentryRows⟩ := fields?_of_readObject hentries
  refine ⟨rfl, entryFields, hentryFields, hentryRows.imp ?_⟩
  rintro ⟨entry, entryTree⟩ ⟨_, settings⟩ ⟨rfl, settled, hentry⟩
  obtain ⟨value, hvalue, hsettings⟩ := bind_eq_ok.mp hentry
  refine ⟨rfl, value, value?_of_readValue _ hvalue, ResourceEntry.settingsOf?_eq_some.mp ?_⟩
  dsimp only at hsettings
  split at hsettings
  · next hshape => exact hshape.trans (congrArg some (Except.ok.inj hsettings))
  · cases hsettings

theorem written_of_read {tree : Tree} {t : ResourceTable} (h : record.read tree = .ok t) :
    ∃ contents, TableContents.Written tree contents ∧ t = ofContents contents := by
  obtain ⟨uri, written, ⟨namespaceUri, packages⟩, hfields, huri, hpackages, hfinish⟩ :=
    hasFields_of_read h
  obtain ⟨_, rfl, rfl⟩ := finish_eq_ok.mp hfinish
  cases huri with
  | filled hread =>
    obtain ⟨text, htext, rfl⟩ := value?_of_readString hread
    cases written with
    | none =>
      cases hpackages
      exact ⟨_, .fields hfields htext .leftOut, rfl⟩
    | some tree =>
      cases hpackages with
      | filled hread =>
        obtain ⟨listed, hlisted, rfl⟩ := packagesWritten_of_readPackages hread
        exact ⟨_, .fields hfields htext hlisted, rfl⟩

/--
**Loading a table is unambiguous and exact.**

No value has both shapes of an entry. If a text is loaded, it says the contents of one table, and
the table that is loaded has these and nothing else.
-/
theorem decode_exact :
    (∀ (declaring : PackageName) (value : Value),
      ResourceEntry.single? declaring value = none ∨
        ResourceEntry.configured? declaring value = none) ∧
    ∀ (text : List Char) (t : ResourceTable), decode text = .ok t →
      ∃ contents, TableContents.Written (Tree.ofText text).1 contents ∧
        (∀ other, TableContents.Written (Tree.ofText text).1 other → other = contents) ∧
        t.Holds contents := by
  refine ⟨ResourceEntry.single?_or_configured?_eq_none, fun text t h => ?_⟩
  obtain ⟨hread, -⟩ := decodeText_eq_ok.mp h
  obtain ⟨contents, hwritten, rfl⟩ := written_of_read hread
  exact ⟨contents, hwritten, fun other hother => hother.unique hwritten, ofContents_holds contents⟩

/-- A table with a configuration that is called like a kind, and with names that come twice. -/
def repeatedNames : String :=
  "\x7b\"namespace\": \"n\", \"packages\": \x7b\"lib\": \x7b\x7d, \"lib\": \x7b\"View\": \x7b\x7d," ++
  " \"View\": \x7b\"styleable\": \x7b\"styleable\": [\x7b\"name\": \"text\"\x7d, [\"id\", \"app\"]]\x7d," ++
  " \"land\": \x7b\"string\": \"a\"\x7d, \"land\": \x7b\"string\": \"b\"\x7d\x7d\x7d\x7d\x7d"

/-- The attributes keep their order, and the last of two values counts. -/
theorem decode_exact_repeatedNames :
    ∃ t, decode repeatedNames.toList = .ok t ∧
      (∃ contents, TableContents.Written (Tree.ofText repeatedNames.toList).1 contents ∧
        (∀ other, TableContents.Written (Tree.ofText repeatedNames.toList).1 other →
          other = contents) ∧
        t.Holds contents) ∧
      (t.package? "lib").bind (·.value? "View" "styleable") =
        some (.styleable ⟨[⟨"text", ⟨"lib"⟩, .empty⟩, ⟨"id", ⟨"app"⟩, .empty⟩]⟩) ∧
      (t.package? "lib").bind (·.value? "View" "land") = some (.string "b") := by
  have hvalues : (decode repeatedNames.toList).toOption.map (fun t =>
      ((t.package? "lib").bind (·.value? "View" "styleable"),
        (t.package? "lib").bind (·.value? "View" "land"))) =
      some (some (.styleable ⟨[⟨"text", ⟨"lib"⟩, .empty⟩, ⟨"id", ⟨"app"⟩, .empty⟩]⟩),
        some (.string "b")) := by
    cbv
  cases hdecode : decode repeatedNames.toList with
  | error fault =>
    rw [hdecode] at hvalues
    cases hvalues
  | ok t =>
    rw [hdecode] at hvalues
    obtain ⟨hstyleable, hland⟩ := Prod.mk.inj (Option.some.inj hvalues)
    exact ⟨t, rfl, decode_exact.2 _ t hdecode, hstyleable, hland⟩

end ResourceTable

end LayoutCompletion
