import LayoutCompletion.Document.Basic
import LayoutCompletion.Markup.Tokens
import LayoutCompletion.Text.Position

/-!
# Building a document from tokens

A document is a fold over tokens. The builder knows the byte offset behind the last token, the
elements so far and which of them are open, innermost first. `Document.parse` folds over the
tokens before the first failure; only a failure before any element is an error, because a
document that is being edited is rarely sound behind the cursor.

Elements are numbered as they come, by natural numbers. Numbers of 32 bits are the same as long as a
document has no more than `2 ^ 32` elements; this is where the two agree, and no further.
-/

namespace LayoutCompletion

open Markup Text

/-- The state of the fold from tokens to elements. -/
structure Builder where
  elements : Array Element
  openNodes : List Nat
  offset : Nat
deriving DecidableEq, Repr

namespace Builder

/-- Nothing has been read. -/
def empty : Builder := ⟨#[], [], 0⟩

/-- Changes the innermost open element, if there is one. -/
def modifyInnermost (b : Builder) (f : Element → Element) : Builder :=
  match b.openNodes with
  | [] => b
  | node :: _ => { b with elements := b.elements.modify node f }

/-- Moves the end of the innermost start tag. -/
def endTagAt (stop : Nat) (e : Element) : Element :=
  { e with span := ⟨e.span.start, stop⟩ }

/-- Enters a new element, which becomes the innermost one. -/
def enter (b : Builder) (name : QualifiedName) (stop : Nat) : Builder :=
  let node := b.elements.size
  let adopted := b.modifyInnermost fun e => { e with children := e.children ++ [node] }
  let element : Element :=
    { tag := qualify (String.ofList name.space) (String.ofList name.base)
      span := ⟨b.offset, stop⟩
      attributes := []
      parent := b.openNodes.head?
      children := [] }
  { b with elements := adopted.elements.push element, openNodes := node :: b.openNodes }

/-- The attribute of which a token tells, the token beginning at `offset`. -/
def attributeAt (offset : Nat) (lead : List Char) (name : QualifiedName) (value : List Char)
    (stop : Nat) : Attribute :=
  let start := offset + utf8Length lead
  let nameStop := start + utf8Length name.text
  let nameStart := if name.qualifier = some [] then start + 1 else start
  { qualifier := String.ofList name.space
    base := String.ofList name.base
    value := String.ofList value
    nameSpan := ⟨nameStart, nameStop⟩
    span := ⟨start, stop⟩ }

/-- What a token adds to the elements. -/
def change (b : Builder) (token : Token) (stop : Nat) : Builder :=
  match token with
  | .skipped _ => b
  | .openTag name => b.enter name stop
  | .attribute lead name _ _ value =>
    b.modifyInnermost fun e =>
      { endTagAt stop e with
        attributes := e.attributes ++ [attributeAt b.offset lead name value stop] }
  | .tagEnd _ selfClosing =>
    let ended := b.modifyInnermost (endTagAt stop)
    if selfClosing then { ended with openNodes := ended.openNodes.tail } else ended
  | .closeTag _ _ => { b with openNodes := b.openNodes.tail }

/-- Takes in one token. -/
def push (b : Builder) (token : Token) : Builder :=
  let stop := b.offset + utf8Length token.text
  { b.change token stop with offset := stop }

end Builder

/-- No element could be read. -/
structure Malformed where
  /-- What people read about the failure. -/
  message : String
  /-- The byte offset at which reading stopped. -/
  offset : Nat
deriving DecidableEq, Repr

namespace Document

/-- The elements of which the tokens tell. -/
def ofTokens (ts : List Token) : Document :=
  ⟨(ts.foldl Builder.push Builder.empty).elements⟩

/-- The byte offset of a row and a column. Rows are taken for lines, and a place that then lies
outside the text is taken for its end. -/
def offsetOfPlace (text : List Char) (place : Place) : Nat :=
  (Position.toOffset? text ⟨place.row - 1, place.column - 1⟩).getD (utf8Length text)

/-- The document of a text given by its characters. -/
def parseChars (text : List Char) : Except Malformed Document :=
  let lexed := tokens text
  let document := ofTokens lexed.tokens
  match lexed.failure with
  | some failure =>
    if document.isEmpty then
      .error ⟨failure.message text, offsetOfPlace text (failure.place text)⟩
    else .ok document
  | none => .ok document

/-- The document of a text. -/
def parse (text : String) : Except Malformed Document :=
  parseChars text.toList

end Document

end LayoutCompletion
