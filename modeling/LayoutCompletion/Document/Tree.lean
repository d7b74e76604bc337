import LayoutCompletion.Document.Basic

/-!
# Documents as trees

An element with everything in it. An element stands before its children in the document, so the
trees are built from the last element to the first, and every child is there when it is needed.
-/

namespace LayoutCompletion

/-- An element, its attributes and the elements in it. -/
inductive ElementTree
  | node (tag : String) (attributes : List Attribute) (children : List ElementTree)

namespace Document

/-- The tree of an element with this number, given the trees of all elements behind it. -/
def treeOf (number : Nat) (e : Element) (later : List ElementTree) : ElementTree :=
  .node e.tag e.attributes (e.children.filterMap fun child => later[child - (number + 1)]?)

/-- The trees of elements, of which the first has this number. -/
def treesFrom (number : Nat) : List Element → List ElementTree
  | [] => []
  | e :: es =>
    let later := treesFrom (number + 1) es
    treeOf number e later :: later

/-- The tree of the root, if there is one. -/
def tree? (d : Document) : Option ElementTree :=
  (treesFrom 0 d.elements.toList).head?

end Document

end LayoutCompletion
