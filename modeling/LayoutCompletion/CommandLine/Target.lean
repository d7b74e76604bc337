import LayoutCompletion.Text.Digits
import LayoutCompletion.Text.Position
import LayoutCompletion.Text.Split

/-!
# Targets of completion

A target is the path of a layout, a line and a column, with colons between them. Lines and columns
are counted from one. The path may hold colons of its own.
-/

namespace LayoutCompletion

/-- A place in a file. -/
structure Target where
  path : String
  position : Text.Position
deriving DecidableEq, Repr

namespace Target

/-- Numbers on the command line lie below this. -/
def numberLimit : Nat := Nat.pow 2 64

/-- The number that decimal digits write, of which there must be one. A plus sign may stand before
them. -/
def number? (text : List Char) : Option Nat :=
  let digits :=
    match text with
    | '+' :: rest => rest
    | _ => text
  if digits.isEmpty then none
  else (Text.decimalValue? 0 digits).filter (· < numberLimit)

/-- A number counted from one, as one counted from zero. -/
def fromOne? (text : List Char) : Option Nat :=
  match number? text with
  | some (n + 1) => some n
  | _ => none

/-- The target that a text says. -/
def parse? (text : String) : Option Target := do
  let (rest, column) ← Text.splitLast? ':' text.toList
  let (path, line) ← Text.splitLast? ':' rest
  let line ← fromOne? line
  let character ← fromOne? column
  pure ⟨String.ofList path, ⟨line, character⟩⟩

end Target

end LayoutCompletion
