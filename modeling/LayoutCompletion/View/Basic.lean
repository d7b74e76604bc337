import LayoutCompletion.Text.Quoted

/-!
# Views

A view shows an element with its attributes and children. A view may also stand for an included
layout; such a view shows the root of that layout in its place, and whatever is done to it is done
to that root.
-/

namespace LayoutCompletion

/-- A view and everything below it. -/
inductive View
  | element (tag : String) (attributes : List (String × String)) (children : List View)
  /-- Stands for the root of an included layout. -/
  | included (root : View)

/-- The attributes with one set to a value. One that is there keeps its place, a new one comes
last. -/
def setAttribute (name value : String) : List (String × String) → List (String × String)
  | [] => [(name, value)]
  | (n, v) :: rest =>
    if n = name then (n, value) :: rest else (n, v) :: setAttribute name value rest

namespace View

/-- Sets an attribute of the element that the view shows. -/
def applyAttribute (name value : String) : View → View
  | .element tag attributes children =>
    .element tag (setAttribute name value attributes) children
  | .included root => .included (root.applyAttribute name value)

/-- An element without attributes and children. -/
def ofTag (tag : String) : View := .element tag [] []

/-- An attribute with its value in quotes, behind a space. -/
def attributeText : String × String → String
  | (name, value) => " " ++ name ++ "=" ++ Text.quoted value

/-- The line of an element, indented by two spaces for each level. -/
def line (depth : Nat) (tag : String) (attributes : List (String × String)) : String :=
  String.ofList (List.replicate (2 * depth) ' ') ++ tag ++
    String.join (attributes.map attributeText) ++ "\n"

mutual

/-- The lines of a view at a depth and of everything below it. -/
def print (depth : Nat) : View → String
  | .element tag attributes children => line depth tag attributes ++ printAll (depth + 1) children
  | .included root => root.print depth

/-- The lines of views at the same depth. -/
def printAll (depth : Nat) : List View → String
  | [] => ""
  | view :: views => view.print depth ++ printAll depth views

end

/-- The lines of a view and of everything below it. -/
def render (view : View) : String := view.print 0

end View

end LayoutCompletion
