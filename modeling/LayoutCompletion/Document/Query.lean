import LayoutCompletion.Document.Basic

/-!
# Asking a document

Which element or attribute stands at an offset, which elements surround an element, and what a
namespace prefix means there.
-/

namespace LayoutCompletion.Document

/-- The element whose start tag contains the offset. Its first byte does not count, the place
behind its last one does. -/
def findNode? (d : Document) (offset : Nat) : Option Nat :=
  d.elements.toList.findIdx? fun e => e.span.start < offset && offset ≤ e.span.stop

/-- The attribute whose name contains the offset or touches it: the element, and the number of the
attribute among those of the element. -/
def findAttribute? (d : Document) (offset : Nat) : Option (Nat × Nat) := do
  let node ← d.findNode? offset
  let index ← (d.attributes node).findIdx? fun a =>
    a.nameSpan.start ≤ offset && offset ≤ a.nameSpan.stop
  pure (node, index)

/-- The element and all around it, innermost first. An element stands behind those around it, so
their numbers go down. -/
def ancestors (d : Document) (node : Nat) : List Nat :=
  match d.parent? node with
  | none => [node]
  | some parent => if parent < node then node :: d.ancestors parent else [node]
termination_by node

/-- What an element itself declares: prefixes and the namespaces they stand for, in written
order. -/
def declarations (d : Document) (node : Nat) : List (String × String) :=
  (d.attributes node).filterMap fun a =>
    if a.qualifier = "xmlns" then some (a.base, a.value) else none

/-- The namespace of a prefix at an element: what the nearest declaration of it says. The empty
prefix has none. -/
def namespaceUri? (d : Document) (node : Nat) (space : String) : Option String :=
  if space.isEmpty then none
  else (d.ancestors node).findSome? fun n => (d.declarations n).lookup space

/-- Adds a declaration unless its prefix is declared already. -/
def addDeclaration (known : List (String × String)) (binding : String × String) :
    List (String × String) :=
  if known.any fun b => b.1 = binding.1 then known else known ++ [binding]

/-- The declarations that hold at an element, nearest first, each prefix once. -/
def namespaceDeclarations (d : Document) (node : Nat) : List (String × String) :=
  ((d.ancestors node).flatMap d.declarations).foldl addDeclaration []

end LayoutCompletion.Document
