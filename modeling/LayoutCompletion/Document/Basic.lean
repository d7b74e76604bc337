import LayoutCompletion.Text.Utf8

/-!
# Documents

A document is the list of its elements in the order in which their start tags stand. An element
is named by its number in that list; the root, if there is one, is number 0. Only start tags are
kept: what completion needs to know stands in them.
-/

namespace LayoutCompletion

/-- A stretch of text, by the byte offsets of its two ends. -/
structure Span where
  start : Nat
  stop : Nat
deriving DecidableEq, Repr

/-- The name with its qualifier before it; a name without qualifier has no colon either. -/
def qualify (qualifier name : String) : String :=
  if qualifier.isEmpty then name else qualifier ++ ":" ++ name

/-- An attribute as it is written. Its value is kept raw. -/
structure Attribute where
  qualifier : String
  base : String
  value : String
  /-- Where the name stands. A colon that has no qualifier before it is not part of the name. -/
  nameSpan : Span
  span : Span
deriving DecidableEq, Repr

namespace Attribute

/-- The name as written, including its qualifier. -/
def name (a : Attribute) : String :=
  qualify a.qualifier a.base

/-- Does the attribute declare a namespace? -/
def isNamespaceDeclaration (a : Attribute) : Bool :=
  a.qualifier = "xmlns" || (a.qualifier.isEmpty && a.base = "xmlns")

end Attribute

/-- An element, told from its start tag. -/
structure Element where
  /-- The tag as written. -/
  tag : String
  /-- From the bracket that opens the start tag to the one that closes it, or to the last part
  that could be read. -/
  span : Span
  attributes : List Attribute
  parent : Option Nat
  children : List Nat
deriving DecidableEq, Repr

/-- The elements of a text, in document order. -/
structure Document where
  elements : Array Element
deriving DecidableEq, Repr

namespace Document

/-- A document without elements. -/
def empty : Document := ⟨#[]⟩

/-- The number of elements. -/
def size (d : Document) : Nat := d.elements.size

/-- Has the document no element? -/
def isEmpty (d : Document) : Bool := d.elements.isEmpty

/-- The root element. -/
def root? (d : Document) : Option Nat :=
  if d.isEmpty then none else some 0

/-- The numbers of all elements, in document order. -/
def nodes (d : Document) : List Nat := List.range d.size

/-- The attributes of an element, none if there is no such element. -/
def attributes (d : Document) (node : Nat) : List Attribute :=
  match d.elements[node]? with
  | some element => element.attributes
  | none => []

/-- The tag of an element, empty if there is no such element. -/
def tag (d : Document) (node : Nat) : String :=
  match d.elements[node]? with
  | some element => element.tag
  | none => ""

/-- The element around an element. -/
def parent? (d : Document) (node : Nat) : Option Nat :=
  d.elements[node]?.bind Element.parent

end Document

end LayoutCompletion
