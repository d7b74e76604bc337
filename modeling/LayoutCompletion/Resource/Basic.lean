import LayoutCompletion.Dictionary
import LayoutCompletion.Resource.Format
import LayoutCompletion.Symbol

/-!
# Resources

A table serves one namespace and holds packages; a package holds entries, and an entry a value
for each configuration. What completion looks for are styleables, groups of attributes, in the
default configuration. The registry keeps tables in the order in which they were registered;
several may serve one namespace. A dictionary leads from a namespace to the places of its tables;
that these are all of its tables is part of the registry.
-/

namespace LayoutCompletion

/-- The configuration that completion looks at. -/
def defaultConfiguration : String := ""

/-- An attribute that a styleable declares. -/
structure AttributeEntry where
  name : String
  /-- The package that declares the attribute, which need not be the one of the styleable. -/
  package : PackageName
  format : AttrFormat
deriving DecidableEq, Repr

/-- The attributes of a styleable, in written order. -/
structure AttributeGroup where
  attributes : List AttributeEntry
deriving DecidableEq, Repr

/-- What an entry holds for one configuration. -/
inductive ResourceValue
  | styleable (group : AttributeGroup)
  | string (text : String)
  | color (text : String)
  | dimen (text : String)
deriving DecidableEq, Repr

/-- The values of a resource by configuration. -/
structure ResourceEntry where
  configurations : Dictionary String ResourceValue
deriving DecidableEq, Repr

namespace ResourceEntry

/-- An entry without values. -/
def empty : ResourceEntry := ⟨Dictionary.empty⟩

/-- The value for a configuration. -/
def value? (e : ResourceEntry) (configuration : String) : Option ResourceValue :=
  e.configurations.get? configuration

end ResourceEntry

/-- The entries of a package by name. -/
structure Package where
  name : PackageName
  entries : Dictionary ResourceName ResourceEntry
deriving DecidableEq, Repr

namespace Package

/-- A package without entries. -/
def empty (name : PackageName) : Package := ⟨name, Dictionary.empty⟩

/-- The entry with a name. -/
def entry? (p : Package) (name : String) : Option ResourceEntry :=
  p.entries.get? ⟨name⟩

/-- Gives an entry a value for a configuration. -/
def insert (p : Package) (name configuration : String) (value : ResourceValue) : Package :=
  let entry := (p.entry? name).getD ResourceEntry.empty
  { p with entries :=
      p.entries.insert ⟨name⟩ ⟨entry.configurations.insert configuration value⟩ }

/-- Gives an entry a styleable of this package's own attributes in the default configuration. -/
def insertStyleable (p : Package) (name : String) (attributes : List (String × AttrFormat)) :
    Package :=
  let group := attributes.map fun (declared, format) => ⟨declared, p.name, format⟩
  p.insert name defaultConfiguration (.styleable ⟨group⟩)

/-- The styleable with a name in the default configuration. An entry of another shape is none. -/
def styleable? (p : Package) (name : String) : Option AttributeGroup :=
  match (p.entry? name).bind (·.value? defaultConfiguration) with
  | some (.styleable group) => some group
  | _ => none

end Package

/-- The packages that a table holds for its namespace. -/
structure ResourceTable where
  namespaceUri : String
  packages : Dictionary PackageName Package
deriving DecidableEq, Repr

namespace ResourceTable

/-- A table without packages. -/
def empty (namespaceUri : String) : ResourceTable := ⟨namespaceUri, Dictionary.empty⟩

/-- Puts a package into the table, in place of one of the same name. -/
def insert (t : ResourceTable) (p : Package) : ResourceTable :=
  { t with packages := t.packages.insert p.name p }

/-- The package with a name. -/
def package? (t : ResourceTable) (name : String) : Option Package :=
  t.packages.get? ⟨name⟩

end ResourceTable

/-- The places of the tables that serve a namespace, in order. -/
def placesOf (tables : List ResourceTable) (namespaceUri : String) : List Nat :=
  (tables.zipIdx.filter (·.1.namespaceUri = namespaceUri)).map Prod.snd

/-- The registered tables, oldest first, and their places by namespace. -/
structure ResourceRegistry where
  tables : List ResourceTable
  places : Dictionary String (List Nat)
  places_lead : ∀ namespaceUri, (places.get? namespaceUri).getD [] = placesOf tables namespaceUri
deriving DecidableEq, Repr

namespace ResourceRegistry

/-- No table is registered. -/
def empty : ResourceRegistry where
  tables := []
  places := .empty
  places_lead _ := rfl

theorem placesOf_append (tables : List ResourceTable) (t : ResourceTable) (namespaceUri : String) :
    placesOf (tables ++ [t]) namespaceUri = placesOf tables namespaceUri ++
      if t.namespaceUri = namespaceUri then [tables.length] else [] := by
  unfold placesOf
  rw [List.zipIdx_append, List.filter_append, List.map_append]
  by_cases ht : t.namespaceUri = namespaceUri <;> simp [ht]

/-- Registers a table behind all others. -/
def register (r : ResourceRegistry) (t : ResourceTable) : ResourceRegistry where
  tables := r.tables ++ [t]
  places := r.places.insert t.namespaceUri
    ((r.places.get? t.namespaceUri).getD [] ++ [r.tables.length])
  places_lead namespaceUri := by
    rw [Dictionary.get?_insert, placesOf_append, ← r.places_lead namespaceUri]
    by_cases ht : t.namespaceUri = namespaceUri <;> simp [ht]

/-- The registry of a list of tables. -/
def ofTables (ts : List ResourceTable) : ResourceRegistry :=
  ts.foldl register empty

/-- The tables that serve a namespace. -/
def tablesFor (r : ResourceRegistry) (namespaceUri : String) : List ResourceTable :=
  ((r.places.get? namespaceUri).getD []).filterMap fun place => r.tables[place]?

/-- Every package of every table. -/
def allPackages (r : ResourceRegistry) : List Package :=
  r.tables.flatMap (·.packages.values)

/-- The number of registered tables. -/
def size (r : ResourceRegistry) : Nat :=
  r.tables.length

/-- Is no table registered? -/
def isEmpty (r : ResourceRegistry) : Bool :=
  r.tables.isEmpty

end ResourceRegistry

end LayoutCompletion
