import LayoutCompletion.Resource.Basic

/-!
# Sets of styleables

Styleables of one package, by name. A name that the package does not declare as a styleable leaves
a set as it is; a name comes in once, however often it is asked for.
-/

namespace LayoutCompletion

/-- Styleables of one package, by name. -/
structure StyleableSet where
  groups : Dictionary ResourceName AttributeGroup
deriving DecidableEq, Repr

namespace StyleableSet

/-- No styleable. -/
def empty : StyleableSet := ⟨Dictionary.empty⟩

/-- Adds the styleable with a name if the package declares it. -/
def add (s : StyleableSet) (package : Package) (name : String) : StyleableSet :=
  match package.styleable? name with
  | some group => ⟨s.groups.insert ⟨name⟩ group⟩
  | none => s

/-- The styleables that a package declares among the names. -/
def ofNames (package : Package) (names : List String) : StyleableSet :=
  names.foldl (fun s name => s.add package name) empty

/-- The group with a name. -/
def get? (s : StyleableSet) (name : String) : Option AttributeGroup :=
  s.groups.get? ⟨name⟩

/-- The number of styleables. -/
def size (s : StyleableSet) : Nat := s.groups.size

/-- The names of the styleables, sorted. -/
def names (s : StyleableSet) : List String :=
  (Symbol.sort s.groups.keys).map Symbol.text

/-- Do two sets hold the same styleables under the same names? -/
def equals (a b : StyleableSet) : Bool :=
  a.size = b.size && a.groups.entries.all fun (name, group) => b.groups.get? name = some group

end StyleableSet

end LayoutCompletion
