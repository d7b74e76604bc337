import LayoutCompletion.Text.Alphanumeric
import LayoutCompletion.Text.Blank
import LayoutCompletion.Text.Utf8

/-!
# Completion requests

A name that is being typed need not be an attribute yet. A request puts a marker at the cursor,
and a value behind the name unless there is an equals sign, so that the name under the cursor is
read as an attribute.
-/

namespace LayoutCompletion

/-- What is put at the cursor. -/
def caretMarker : String := "LayoutAttrsCaret"

/-- What is put behind a name that has no value. -/
def emptyValue : String := "=\x22\x22 "

/-- May the character belong to the name under the cursor? -/
def isTypedChar (c : Char) : Bool :=
  Text.isAlphanumeric c || c = '_' || c = '-' || c = '.' || c = ':'

/-- A text with the marker at the cursor. -/
structure CompletionRequest where
  text : List Char
  /-- The cursor, which is where the marker begins. -/
  offset : Nat
deriving DecidableEq, Repr

/-- No attribute name stands at the offset. -/
structure InvalidRequest where
  offset : Nat
deriving DecidableEq, Repr

namespace CompletionRequest

/-- Is the first character that is not blank an equals sign? -/
def hasValue (rest : List Char) : Bool :=
  (Text.trimStart rest).head? = some '='

/-- The text between what stands before and behind the cursor. -/
def splice (head behind : List Char) : List Char :=
  let tail := behind.takeWhile isTypedChar
  let rest := behind.dropWhile isTypedChar
  head ++ caretMarker.toList ++ tail ++
    (if hasValue rest then [] else emptyValue.toList) ++ rest

/-- The request for a cursor at a byte offset. -/
def prepareChars (text : List Char) (offset : Nat) : Except InvalidRequest CompletionRequest :=
  match Text.splitAtByte? text offset with
  | none => .error ⟨offset⟩
  | some (head, behind) => .ok ⟨splice head behind, offset⟩

/-- The request for a cursor at a byte offset. -/
def prepare (text : String) (offset : Nat) : Except InvalidRequest CompletionRequest :=
  prepareChars text.toList offset

end CompletionRequest

end LayoutCompletion
