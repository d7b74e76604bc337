import LayoutCompletion.Dictionary
import LayoutCompletion.Document.Tree
import LayoutCompletion.View.Basic

/-!
# Including layouts

An element with the tag `include` stands for the root of the layout that its attribute `layout`
names. Its other attributes are set on that root. Layouts are included in one another up to a
limit, so a layout that includes itself does no harm; an element that cannot be replaced is shown
as it is.

The views of a tree are made by recursion on the tree, given what a layout name stands for; what
names stand for inside of a layout is found by recursion on how often layouts may still be
included.
-/

namespace LayoutCompletion

/-- The tag of elements that stand for a layout. -/
def includeTag : String := "include"

/-- The attribute that names the layout. -/
def layoutAttribute : String := "layout"

/-- How a layout is referred to. -/
def layoutReference : String := "@layout/"

/-- How deeply layouts may be included in one another. -/
def maxIncludeDepth : Nat := 8

/-- The layout that an element refers to by its first attribute for that. -/
def includedName? (attributes : List Attribute) : Option String := do
  let a ← attributes.find? (·.name = layoutAttribute)
  if layoutReference.toList.isPrefixOf a.value.toList then
    some (String.ofList (a.value.toList.drop layoutReference.toList.length))
  else none

/-- Sets the attributes that satisfy `p` on a view, declarations of namespaces apart. -/
def View.applyAll (view : View) (p : Attribute → Bool) (attributes : List Attribute) : View :=
  (attributes.filter fun a => !a.isNamespaceDeclaration && p a).foldl
    (fun view a => view.applyAttribute a.name a.value) view

namespace ElementTree

/-- The view of an element that stands for a layout, if `expand` knows that layout. -/
def included? (expand : String → Option View) (tag : String) (attributes : List Attribute) :
    Option View :=
  if tag = includeTag then do
    let name ← includedName? attributes
    let root ← expand name
    some ((View.included root).applyAll (·.name ≠ layoutAttribute) attributes)
  else none

mutual

/-- The view of a tree, given the views of the layouts that it may include. -/
def view (expand : String → Option View) : ElementTree → View
  | .node tag attributes children =>
    match included? expand tag attributes with
    | some v => v
    | none => (View.element tag [] (viewAll expand children)).applyAll (fun _ => true) attributes

/-- The views of trees. -/
def viewAll (expand : String → Option View) : List ElementTree → List View
  | [] => []
  | tree :: trees => tree.view expand :: viewAll expand trees

end

end ElementTree

/-- Layouts by the names by which they are included. -/
abbrev Layouts := Dictionary String Document

/-- The view of the layout with a name, in which layouts may be included to this depth less one.
With none left, no name stands for a layout. -/
def Layouts.expand (layouts : Layouts) : Nat → String → Option View
  | 0, _ => none
  | depth + 1, name => do
    let d ← layouts.get? name
    let tree ← d.tree?
    some (tree.view (layouts.expand depth))

/-- The view of a document with its layouts included, none if it has no element. -/
def Document.view? (d : Document) (layouts : Layouts) : Option View :=
  d.tree?.map (·.view (layouts.expand maxIncludeDepth))

end LayoutCompletion
