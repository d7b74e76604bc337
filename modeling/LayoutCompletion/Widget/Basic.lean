import LayoutCompletion.Dictionary
import LayoutCompletion.Text.Split

/-!
# Widget classes

A widget class is known by its qualified name; the part behind the last dot is its simple name.
The index of the known classes keeps them in the order in which they came in, and never two with
one qualified name. A look-up takes a name with a dot for a qualified name, and any other for a
simple name; of several classes with one simple name the first to come in has it.

Two dictionaries lead from names to places in the row of classes. What they lead to is part of the
index, so every look-up is a search for the first class of its name (`byQualifiedName?_eq`,
`bySimpleName?_eq`).
-/

namespace LayoutCompletion

/-- The part of a name behind its last dot; the whole name if there is none. -/
def simpleName (name : String) : String :=
  match Text.splitLast? '.' name.toList with
  | some (_, last) => String.ofList last
  | none => name

/-- Is there a dot in the name? -/
def isDotted (name : String) : Bool :=
  name.toList.contains '.'

/-- A name without a dot is its own simple name. -/
theorem simpleName_of_not_isDotted {name : String} (h : isDotted name = false) :
    simpleName name = name := by
  have hnone : Text.splitLast? '.' name.toList = none :=
    Text.splitLast?_eq_none.mpr fun hdot => by simp [isDotted, hdot] at h
  rw [simpleName, hnone]

/-- A widget class and the classes it is said to extend: all of them, or the direct ones only. -/
structure Widget where
  qualifiedName : String
  superclasses : List String
deriving DecidableEq, Repr

/-- The simple name of a widget class. -/
def Widget.simpleName (w : Widget) : String :=
  LayoutCompletion.simpleName w.qualifiedName

/-- Every name leads to the place of the first class that has it. -/
def LeadsToFirst (places : Dictionary String Nat) (nameOf : Widget → String)
    (widgets : List Widget) : Prop :=
  ∀ name, places.get? name = widgets.findIdx? (nameOf · = name)

namespace LeadsToFirst

variable {places : Dictionary String Nat} {nameOf : Widget → String} {widgets : List Widget}

/-- A class that comes last is the first of its name if the name is new. -/
theorem insertNew (h : LeadsToFirst places nameOf widgets) (w : Widget) :
    LeadsToFirst (places.insertNew (nameOf w) widgets.length) nameOf (widgets ++ [w]) := by
  intro name
  rw [Dictionary.get?_insertNew, h name, List.findIdx?_append]
  by_cases hname : nameOf w = name <;> simp [hname]

theorem insert (h : LeadsToFirst places nameOf widgets) {w : Widget}
    (hnew : places.get? (nameOf w) = none) :
    LeadsToFirst (places.insert (nameOf w) widgets.length) nameOf (widgets ++ [w]) := by
  have hinsert : places.insertNew (nameOf w) widgets.length =
      places.insert (nameOf w) widgets.length := by
    rw [Dictionary.insertNew, hnew]
  exact hinsert ▸ h.insertNew w

/-- What stands at the place that a name leads to is the first class of that name. -/
theorem bind_getElem? (h : LeadsToFirst places nameOf widgets) (name : String) :
    ((places.get? name).bind fun place => widgets[place]?) =
      widgets.find? (nameOf · = name) := by
  rw [h name, List.find?_eq_bind_findIdx?_getElem?]

end LeadsToFirst

/-- The known widget classes, in the order in which they came in, and their places by name. -/
structure WidgetIndex where
  widgets : List Widget
  qualifiedPlaces : Dictionary String Nat
  simplePlaces : Dictionary String Nat
  qualified_leads : LeadsToFirst qualifiedPlaces Widget.qualifiedName widgets
  simple_leads : LeadsToFirst simplePlaces Widget.simpleName widgets
deriving DecidableEq, Repr

namespace WidgetIndex

/-- No class is known. -/
def empty : WidgetIndex where
  widgets := []
  qualifiedPlaces := .empty
  simplePlaces := .empty
  qualified_leads _ := rfl
  simple_leads _ := rfl

/-- The class with a qualified name. -/
def byQualifiedName? (index : WidgetIndex) (name : String) : Option Widget :=
  (index.qualifiedPlaces.get? name).bind fun place => index.widgets[place]?

/-- The first class with a simple name. -/
def bySimpleName? (index : WidgetIndex) (name : String) : Option Widget :=
  (index.simplePlaces.get? name).bind fun place => index.widgets[place]?

/-- The class that a tag or the name of a superclass stands for. -/
def lookup? (index : WidgetIndex) (name : String) : Option Widget :=
  if isDotted name then index.byQualifiedName? name else index.bySimpleName? name

/-- The number of known classes. -/
def size (index : WidgetIndex) : Nat :=
  index.widgets.length

/-- Is no class known? -/
def isEmpty (index : WidgetIndex) : Bool :=
  index.widgets.isEmpty

/-- Makes a class known, unless its qualified name is taken. Its simple name may be taken; then it
stays with the class that has it. -/
def insert (index : WidgetIndex) (w : Widget) : WidgetIndex :=
  match h : index.qualifiedPlaces.get? w.qualifiedName with
  | some _ => index
  | none =>
    { widgets := index.widgets ++ [w]
      qualifiedPlaces := index.qualifiedPlaces.insert w.qualifiedName index.widgets.length
      simplePlaces := index.simplePlaces.insertNew w.simpleName index.widgets.length
      qualified_leads := index.qualified_leads.insert h
      simple_leads := index.simple_leads.insertNew w }

/-- The index of a list of classes. -/
def ofList (ws : List Widget) : WidgetIndex :=
  ws.foldl insert empty

variable {index : WidgetIndex} {name : String} {w : Widget}

theorem byQualifiedName?_eq (index : WidgetIndex) (name : String) :
    index.byQualifiedName? name = index.widgets.find? (·.qualifiedName = name) :=
  index.qualified_leads.bind_getElem? name

theorem bySimpleName?_eq (index : WidgetIndex) (name : String) :
    index.bySimpleName? name = index.widgets.find? (·.simpleName = name) :=
  index.simple_leads.bind_getElem? name

/-- A look-up finds a class that is known. -/
theorem mem_of_lookup? (h : index.lookup? name = some w) : w ∈ index.widgets := by
  simp only [lookup?, byQualifiedName?_eq, bySimpleName?_eq] at h
  split at h <;> exact List.mem_of_find?_eq_some h

/-- A class is looked up by its own name, be it the qualified or the simple one. -/
theorem name_of_lookup? (h : index.lookup? name = some w) :
    name = if isDotted name then w.qualifiedName else w.simpleName := by
  simp only [lookup?, byQualifiedName?_eq, bySimpleName?_eq] at h
  split at h
  · next hdotted =>
    have hfound := List.find?_some h
    rw [if_pos hdotted]
    exact (of_decide_eq_true hfound).symm
  · next hplain =>
    have hfound := List.find?_some h
    rw [if_neg hplain]
    exact (of_decide_eq_true hfound).symm

theorem simpleName_of_lookup? (h : index.lookup? name = some w) :
    LayoutCompletion.simpleName name = w.simpleName := by
  have hname := name_of_lookup? h
  split at hname
  · rw [hname, Widget.simpleName]
  · next hplain => rw [simpleName_of_not_isDotted (by simpa using hplain), hname]

end WidgetIndex

end LayoutCompletion
