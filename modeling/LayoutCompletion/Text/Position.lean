import LayoutCompletion.Text.Utf8

/-!
# Lines and positions

A position is a line and a character on that line, both counted from zero. A line ends behind its
line break, which is a line feed, a vertical tab, a form feed, a carriage return (with a line feed
behind it, if there is one), U+0085, U+2028 or U+2029. The last line is the text behind the last
break; it may be empty.

`Position.toOffset?` and `Position.ofOffset?` convert between positions and byte offsets.
-/

namespace LayoutCompletion.Text

/-- Does a line end behind this character? -/
def isLineBreak (c : Char) : Bool :=
  c = '\n' || c = '\x0B' || c = '\x0C' || c = '\r' || c = '\u0085' || c = '\u2028' || c = '\u2029'

/-- Puts a character before the first line. -/
def consLine (c : Char) : List (List Char) → List (List Char)
  | [] => [[c]]
  | line :: rest => (c :: line) :: rest

/-- The lines of a text, each with its break. There is always a last line. -/
def lines : List Char → List (List Char)
  | [] => [[]]
  | c :: cs =>
    if c = '\r' && cs.head? = some '\n' then consLine c (lines cs)
    else if isLineBreak c then [c] :: lines cs
    else consLine c (lines cs)

theorem flatten_consLine (c : Char) (ls : List (List Char)) :
    (consLine c ls).flatten = c :: ls.flatten := by
  cases ls <;> rfl

/-- No character is lost or added by cutting a text into lines. -/
theorem flatten_lines (cs : List Char) : (lines cs).flatten = cs := by
  fun_induction lines cs with
  | case1 => rfl
  | case2 c cs h ih => rw [flatten_consLine, ih]
  | case3 c cs h hb ih => simp [ih]
  | case4 c cs h hb ih => rw [flatten_consLine, ih]

theorem lines_ne_nil (cs : List Char) : lines cs ≠ [] := by
  fun_cases lines cs with
  | case1 => simp
  | case2 c cs h => cases hl : lines cs <;> simp [consLine]
  | case3 => simp
  | case4 c cs h => cases hl : lines cs <;> simp [consLine]

/-- A line and a character on it, both counted from zero. -/
structure Position where
  line : Nat
  character : Nat
deriving DecidableEq, Repr

namespace Position

/-- Positions are shown as people count, from one. -/
def display (p : Position) : String :=
  toString (p.line + 1) ++ ":" ++ toString (p.character + 1)

/-- The byte offset of a position. A character may be counted up to the end of its line, break
included; there is no offset for anything further out. -/
def toOffset? (text : List Char) (p : Position) : Option Nat :=
  match (lines text)[p.line]? with
  | none => none
  | some line =>
    if p.character ≤ line.length then
      some (utf8Length ((lines text).take p.line).flatten + utf8Length (line.take p.character))
    else none

/-- The position of the `k`-th character of the given lines, of which the first is number `n`. -/
def locate (n : Nat) : List (List Char) → Nat → Position
  | [], k => ⟨n, k⟩
  | [_], k => ⟨n, k⟩
  | line :: next :: rest, k =>
    if k < line.length then ⟨n, k⟩ else locate (n + 1) (next :: rest) (k - line.length)

/-- The position of a byte offset. Inside a character it is the position of that character; past
the end of the text there is none. -/
def ofOffset? (text : List Char) (offset : Nat) : Option Position :=
  if offset ≤ utf8Length text then some (locate 0 (lines text) (charsBefore text offset)) else none

end Position

end LayoutCompletion.Text
