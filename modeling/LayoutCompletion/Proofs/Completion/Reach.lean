import LayoutCompletion.Proofs.Completion.Offered
import LayoutCompletion.Proofs.Resource.Lookup
import LayoutCompletion.Resource.Decode
import Mathlib.Data.List.Basic

/-!
# Which packages a prefix reaches

A completion is written with a prefix and carries the package that owns its attribute. The prefix
is bound at the element, and a styleable of a package behind its namespace lists the attribute
(`completeInBy_reaches`). But a styleable may list attributes that another package owns. Where none
does that for the name, the owner is behind the namespace, too. Elsewhere the prefix of a completion
may stand for another package than the one that owns the attribute (`not_completeIn_reaches`).
-/

namespace LayoutCompletion

/-! ## Owners -/

namespace Package

/-- A styleable of the package lists an attribute of this name with this owner. -/
def Lists (p : Package) (name : String) (owner : PackageName) : Prop :=
  ∃ styleable group, p.styleable? styleable = some group ∧
    ∃ a ∈ group.attributes, a.name = name ∧ a.package = owner

/-- The package owns every attribute that its styleables list. -/
def Native (p : Package) : Prop :=
  ∀ name owner, p.Lists name owner → owner = p.name

theorem native_empty (name : PackageName) : (empty name).Native := by
  rintro _ _ ⟨_, _, hgroup, -⟩
  cases hgroup

/-- A styleable that is there behind an insertion was inserted, or was there before. -/
theorem styleable?_insert {p : Package} {name configuration styleable : String}
    {value : ResourceValue} {group : AttributeGroup}
    (h : (p.insert name configuration value).styleable? styleable = some group) :
    value = .styleable group ∨ p.styleable? styleable = some group := by
  rw [styleable?_eq_some, value?_insert] at h
  rw [styleable?_eq_some]
  split at h
  · exact Or.inl (Option.some.inj h)
  · exact Or.inr h

/-- Attributes that are declared without an owner belong to the package. -/
theorem Native.insertStyleable {p : Package} (h : p.Native) (name : String)
    (attributes : List (String × AttrFormat)) : (p.insertStyleable name attributes).Native := by
  rintro declared owner ⟨styleable, group, hgroup, a, ha, hname, rfl⟩
  rcases styleable?_insert hgroup with hnew | hold
  · obtain rfl := ResourceValue.styleable.inj hnew
    obtain ⟨⟨_, _⟩, -, rfl⟩ := List.mem_map.mp ha
    rfl
  · exact h declared _ ⟨styleable, group, hold, a, ha, hname, rfl⟩

end Package

namespace ResourceRegistry

/-- A package of this name is behind the namespace. -/
def Reaches (r : ResourceRegistry) (uri : String) (owner : PackageName) : Prop :=
  ∃ p ∈ r.packagesFor uri, p.name = owner

/-- Packages behind the namespace list the name for owners behind the namespace only. -/
def KeepsWithin (r : ResourceRegistry) (uri name : String) : Prop :=
  ∀ p ∈ r.packagesFor uri, ∀ owner, p.Lists name owner → r.Reaches uri owner

theorem keepsWithin_of_native {r : ResourceRegistry} {uri : String}
    (h : ∀ p ∈ r.packagesFor uri, p.Native) (name : String) : r.KeepsWithin uri name := by
  intro p hp owner hlists
  exact ⟨p, hp, (h p hp name owner hlists).symm⟩

end ResourceRegistry

/-! ## Prefixes and owners -/

variable {order : Enumeration} {ctx : CompletionContext} {matcher : Matcher} {d : Document}
  {offset : Nat}

/-- What is searched behind a prefix stands behind the namespace of the prefix. -/
theorem Searched.exists_bound {node : Nat} {r : ResourceRegistry} {typed : List Char}
    {space name : String} {package : Package} {quality : Quality}
    (h : Searched matcher d node r typed space package name quality) :
    ∃ uri, d.Binds space uri node ∧ package ∈ r.packagesFor uri := by
  cases h with
  | bound _ _ _ hbinds hp => exact ⟨_, hbinds, hp⟩
  | unbound _ _ hbinds hp => exact ⟨_, hbinds, hp⟩

/-- What is offered is listed by a package behind the namespace of its prefix. -/
theorem Offered.exists_lists {node index : Nat} {typed : List Char} {space name : String}
    {owner : PackageName} {quality : Quality}
    (h : Offered ctx matcher d node index typed space name owner quality) :
    ∃ uri, d.Binds space uri node ∧
      ∃ p ∈ ctx.resources.packagesFor uri, p.Lists name owner := by
  obtain ⟨p, styleable, group, hsearched, hgroup, hattribute, -, -⟩ := h
  obtain ⟨uri, hbinds, hp⟩ := hsearched.exists_bound
  rw [WidgetIndex.resolve, StyleableSet.get?_ofNames] at hgroup
  split at hgroup
  · exact ⟨uri, hbinds, p, hp, styleable, group, hgroup, hattribute⟩
  · cases hgroup

/-- A completion should be offered. -/
theorem exists_offered {text : String} {list : CompletionList} {c : Candidate}
    (hparse : Document.parse text = .ok d)
    (hok : completeInBy order ctx d offset matcher = .ok list) (hc : c ∈ list.items) :
    ∃ cursor : Cursor, d.cursor? offset = some cursor ∧
      Offered ctx matcher d cursor.node cursor.index cursor.typed c.space c.name c.package
        c.quality := by
  obtain ⟨cursor, hcursor⟩ := exists_cursor_of_completeInBy hok
  rw [completeInBy_of_cursor? hcursor] at hok
  obtain rfl := Except.ok.inj hok
  have hmem := mem_of_mem_ranked (List.mem_of_mem_take hc)
  exact ⟨cursor, hcursor, (exists_mem_unskippedBy (Document.sound_of_parse hparse)).mp
    ⟨c, hmem, rfl, rfl, rfl, rfl⟩⟩

/--
**A completion is listed behind its own prefix.**

The prefix stands for a namespace at the element, and a styleable of a package behind this namespace
lists the attribute for its owner. The owner is behind the namespace itself if packages there list
the name for such owners only.
-/
theorem completeInBy_reaches {text : String} {list : CompletionList} {c : Candidate}
    (hparse : Document.parse text = .ok d)
    (hok : completeInBy order ctx d offset matcher = .ok list) (hc : c ∈ list.items) :
    ∃ node index uri, d.findAttribute? offset = some (node, index) ∧
      d.namespaceUri? node c.space = some uri ∧
      (∃ p ∈ ctx.resources.packagesFor uri, p.Lists c.name c.package) ∧
      (ctx.resources.KeepsWithin uri c.name → ctx.resources.Reaches uri c.package) := by
  have hd := Document.sound_of_parse hparse
  obtain ⟨cursor, hcursor, hoffered⟩ := exists_offered hparse hok hc
  obtain ⟨_, _, hfind, -⟩ := exists_of_cursor? hcursor
  obtain ⟨uri, hbinds, p, hp, hlists⟩ := hoffered.exists_lists
  refine ⟨cursor.node, cursor.index, uri, hfind, ?_, ⟨p, hp, hlists⟩, fun hwithin => ?_⟩
  · exact (Document.namespaceUri?_eq_some hd).mpr hbinds
  · exact hwithin p hp c.package hlists

/-! ## A prefix for one package -/

/-- The namespace of a package. -/
def libUri : String := "http://schemas.android.com/apk/res/lib"

/-- An element that binds a prefix to the namespace. -/
def libText : String :=
  "<lib.View xmlns:lib=\x22http://schemas.android.com/apk/res/lib\x22 lib:te=\x22\x22/>"

def libDocument : Document where
  elements := #[{
    tag := "lib.View"
    span := ⟨0, 72⟩
    attributes := [⟨"xmlns", "lib", libUri, ⟨10, 19⟩, ⟨10, 60⟩⟩,
      ⟨"lib", "te", "", ⟨61, 67⟩, ⟨61, 70⟩⟩]
    parent := none
    children := [] }]

theorem parse_libText : Document.parse libText = .ok libDocument :=
  eq_ok_of_toOption (by decide +kernel)

/-- A table serves the namespace. -/
def libContext (table : ResourceTable) : CompletionContext where
  widgets := .empty
  resources := .ofTables [table]
  settings := .default

theorem findAttribute?_libDocument : libDocument.findAttribute? 67 = some (0, 1) := by
  decide

theorem namespaceUri?_libDocument : libDocument.namespaceUri? 0 "lib" = some libUri := by
  rw [Document.namespaceUri?, Document.ancestors_of_root rfl]
  decide

def owningPackage : Package :=
  (Package.empty ⟨"lib"⟩).insertStyleable "View" [("text", ⟨2⟩)]

def owningTable : ResourceTable :=
  (ResourceTable.empty libUri).insert owningPackage

theorem completeInBy_reaches_owner :
    ∃ list, completeIn (libContext owningTable) libDocument 67 = .ok list ∧
      ∃ c ∈ list.items, c.label = "lib:text" ∧
        (libContext owningTable).resources.Reaches libUri c.package := by
  have hitems : (completeIn (libContext owningTable) libDocument 67).toOption.map
      CompletionList.items = some [⟨"text", "lib", ⟨"lib"⟩, ⟨2⟩, .leading⟩] := by
    decide +kernel
  obtain ⟨list, hok, hlist⟩ := Option.map_eq_some_iff.mp hitems
  have hc : ⟨"text", "lib", ⟨"lib"⟩, ⟨2⟩, .leading⟩ ∈ list.items := by
    rw [hlist]
    exact .head _
  obtain ⟨_, _, _, hfind, huri, -, hreaches⟩ :=
    completeInBy_reaches parse_libText (eq_ok_of_toOption hok) hc
  obtain ⟨rfl, -⟩ := Prod.mk.inj (Option.some.inj (findAttribute?_libDocument.symm.trans hfind))
  obtain rfl := Option.some.inj (namespaceUri?_libDocument.symm.trans huri)
  have hnative : ∀ p ∈ (libContext owningTable).resources.packagesFor libUri, p.Native := by
    have hpackages : (libContext owningTable).resources.packagesFor libUri = [owningPackage] := by
      decide
    rw [hpackages]
    intro p hp
    rw [List.mem_singleton.mp hp]
    exact (Package.native_empty _).insertStyleable _ _
  have hwithin := ResourceRegistry.keepsWithin_of_native hnative "text"
  exact ⟨list, eq_ok_of_toOption hok, _, hc, by decide, hreaches hwithin⟩

/-- A package with a styleable in which an attribute of another package is listed. -/
def borrowingTable : ResourceTable :=
  (ResourceTable.empty libUri).insert
    ((Package.empty ⟨"lib"⟩).insert "View" defaultConfiguration
      (.styleable ⟨[⟨"text", ⟨"android"⟩, .empty⟩]⟩))

/-- The table as it is written. -/
def borrowingText : String :=
  "\x7b\x22namespace\x22:\x22http://schemas.android.com/apk/res/lib\x22," ++
    "\x22packages\x22:\x7b\x22lib\x22:\x7b\x22View\x22:\x7b\x22styleable\x22:" ++
      "[\x7b\x22name\x22:\x22text\x22,\x22package\x22:\x22android\x22\x7d]" ++
        "\x7d\x7d\x7d\x7d"

theorem decode_borrowingText :
    ResourceTable.decode borrowingText.toList = .ok borrowingTable := by
  cbv

/-- Behind a prefix for one package, an attribute of another one is offered. -/
theorem not_completeIn_reaches :
    ¬∀ (ctx : CompletionContext) (text : String) (d : Document) (offset : Nat)
      (list : CompletionList) (c : Candidate),
      (∀ table ∈ ctx.resources.tables, ∃ json : String,
        ResourceTable.decode json.toList = .ok table) →
      Document.parse text = .ok d → completeIn ctx d offset = .ok list → c ∈ list.items →
      ∃ node index uri, d.findAttribute? offset = some (node, index) ∧
        d.namespaceUri? node c.space = some uri ∧ ctx.resources.Reaches uri c.package := by
  intro hall
  have hloaded : ∀ table ∈ (libContext borrowingTable).resources.tables, ∃ json : String,
      ResourceTable.decode json.toList = .ok table := by
    intro table htable
    rw [List.mem_singleton.mp htable]
    exact ⟨borrowingText, decode_borrowingText⟩
  have hitems : (completeIn (libContext borrowingTable) libDocument 67).toOption.map
      CompletionList.items = some [⟨"text", "lib", ⟨"android"⟩, .empty, .leading⟩] := by
    decide +kernel
  obtain ⟨list, hok, hlist⟩ := Option.map_eq_some_iff.mp hitems
  have hc : ⟨"text", "lib", ⟨"android"⟩, .empty, .leading⟩ ∈ list.items := by
    rw [hlist]
    exact .head _
  obtain ⟨_, _, _, hfind, huri, p, hp, hname⟩ :=
    hall _ libText _ 67 list _ hloaded parse_libText (eq_ok_of_toOption hok) hc
  obtain ⟨rfl, -⟩ := Prod.mk.inj (Option.some.inj (findAttribute?_libDocument.symm.trans hfind))
  obtain rfl := Option.some.inj (namespaceUri?_libDocument.symm.trans huri)
  have hothers : ∀ p ∈ (libContext borrowingTable).resources.packagesFor libUri,
      p.name ≠ ⟨"android"⟩ := by
    decide
  exact hothers p hp hname

end LayoutCompletion
