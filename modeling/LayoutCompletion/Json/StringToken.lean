import LayoutCompletion.Json.Fault
import LayoutCompletion.Text.Digits

/-!
# Strings of JSON

A string is first cut into pieces, up to its quote or to what keeps it from having one; then the
pieces are joined. An escape in four hexadecimal digits stands for a unit of sixteen bits, and two
such units may be the halves of one character. A reader that skips a string does not look at
halves.
-/

namespace LayoutCompletion.Json

/-- The value of four hexadecimal digits. -/
def hexUnit? (a b c d : Char) : Option Nat := do
  let a ← Text.hexDigit? a
  let b ← Text.hexDigit? b
  let c ← Text.hexDigit? c
  let d ← Text.hexDigit? d
  pure (((a * 16 + b) * 16 + c) * 16 + d)

/-- The character that an escape of one letter stands for. -/
def shortEscape? (letter : Char) : Option Char :=
  match letter with
  | '\x22' => some '\x22'
  | '\\' => some '\\'
  | '/' => some '/'
  | 'b' => some '\x08'
  | 'f' => some '\x0C'
  | 'n' => some '\n'
  | 'r' => some '\r'
  | 't' => some '\t'
  | _ => none

/-- A piece of a string. -/
inductive Piece
  /-- A character that stands for itself. -/
  | plain (c : Char)
  /-- A character written as an escape of one letter. -/
  | short (c : Char)
  /-- A unit of sixteen bits, and what is left behind its escape. -/
  | unit (n : Nat) (rest : List Char)
deriving DecidableEq, Repr

/-- What stands behind the last piece. -/
inductive StringEnd
  /-- The quote; this is left behind it. -/
  | closed (rest : List Char)
  /-- The end of the text, perhaps inside an escape. -/
  | cut
  /-- A control character; this is left before it. -/
  | control (rest : List Char)
  /-- A backslash and a letter that is no escape; this is left before the letter. -/
  | badLetter (rest : List Char)
  /-- An escape whose four bytes are no digits; this is left before them. -/
  | badDigits (rest : List Char)
deriving DecidableEq, Repr

/-- What comes of an escape whose digits cannot be read. -/
def unreadableDigits (rest : List Char) : StringEnd :=
  if Text.utf8Length rest < 4 then .cut else .badDigits rest

/-- The pieces of a string whose opening quote has been read. -/
def scanPieces : List Char → List Piece × StringEnd
  | [] => ([], .cut)
  | '\x22' :: cs => ([], .closed cs)
  | ['\\'] => ([], .cut)
  | '\\' :: 'u' :: a :: b :: c :: d :: cs =>
    match hexUnit? a b c d with
    | some n =>
      let (pieces, stop) := scanPieces cs
      (.unit n cs :: pieces, stop)
    | none => ([], unreadableDigits (a :: b :: c :: d :: cs))
  | '\\' :: 'u' :: cs => ([], unreadableDigits cs)
  | '\\' :: letter :: cs =>
    match shortEscape? letter with
    | some c =>
      let (pieces, stop) := scanPieces cs
      (.short c :: pieces, stop)
    | none => ([], .badLetter (letter :: cs))
  | c :: cs =>
    if c.toNat < 0x20 then ([], .control (c :: cs))
    else
      let (pieces, stop) := scanPieces cs
      (.plain c :: pieces, stop)

theorem unreadableDigits_ne_closed (cs rest : List Char) :
    unreadableDigits cs ≠ .closed rest := by
  unfold unreadableDigits
  split <;> exact StringEnd.noConfusion

/-- Behind its quote a string leaves less than there was. -/
theorem length_lt_of_scanPieces {cs rest : List Char} (h : (scanPieces cs).2 = .closed rest) :
    rest.length < cs.length := by
  fun_induction scanPieces cs with
  | case1 => cases h
  | case2 cs => cases h; simp
  | case3 => cases h
  | case4 a b c d cs n hn pieces stop hs ih =>
    have := ih (by rw [hs]; exact h)
    simp only [List.length_cons]
    omega
  | case5 => exact absurd h (unreadableDigits_ne_closed _ _)
  | case6 => exact absurd h (unreadableDigits_ne_closed _ _)
  | case7 letter cs hu hn c hc pieces stop hs ih =>
    have := ih (by rw [hs]; exact h)
    simp only [List.length_cons]
    omega
  | case8 => cases h
  | case9 => cases h
  | case10 c cs hq he hd hu hl hc pieces stop hs ih =>
    have := ih (by rw [hs]; exact h)
    simp only [List.length_cons]
    omega

/-- Does a unit stand for the first half of a character? -/
def isFirstHalf (n : Nat) : Bool := 0xD800 ≤ n && n < 0xDC00

/-- Does a unit stand for the second half of a character? -/
def isSecondHalf (n : Nat) : Bool := 0xDC00 ≤ n && n < 0xE000

/-- The character of two halves. -/
def joinHalves (first second : Nat) : Char :=
  Char.ofNat (0x10000 + (first - 0xD800) * 0x400 + (second - 0xDC00))

/-- What is left behind the string, for a reader that skips it. -/
def StringEnd.skip : StringEnd → Except Fault (List Char)
  | closed rest => .ok rest
  | cut => .error (.here .endInString [])
  | control rest => .error (.here .controlInString rest)
  | badLetter rest => .error (.onNext .badEscape rest)
  | badDigits rest => .error ⟨.badEscape, rest, 4⟩

/-- What is wrong with the end of a string, for a reader that wants to know it. -/
def StringEnd.read : StringEnd → Except Fault Unit
  | control rest => .error (.onNext .controlInString rest)
  | stop => stop.skip.map fun _ => ()

/-- What is wrong with the first half of a character that ends where `rest` is left, if these
pieces and this end follow it. -/
def missingHalf (rest : List Char) : List Piece → StringEnd → Fault
  | .unit _ behind :: _, _ => .here .loneHalf behind
  | .plain _ :: _, _ => ⟨.missingHalf, rest, 1⟩
  | .short _ :: _, _ => ⟨.missingHalf, rest, 2⟩
  | [], .cut => .here .endInString []
  | [], .badDigits digits => ⟨.badEscape, digits, 4⟩
  | [], .badLetter _ => ⟨.missingHalf, rest, 2⟩
  | [], _ => ⟨.missingHalf, rest, 1⟩

/-- The characters of the pieces. -/
def joinPieces (stop : StringEnd) : List Piece → Except Fault (List Char)
  | [] => stop.read.map fun _ => []
  | .plain c :: ps => (joinPieces stop ps).map (c :: ·)
  | .short c :: ps => (joinPieces stop ps).map (c :: ·)
  | .unit n rest :: ps =>
    if isFirstHalf n then
      match ps with
      | .unit m _ :: later =>
        if isSecondHalf m then (joinPieces stop later).map (joinHalves n m :: ·)
        else .error (missingHalf rest ps stop)
      | _ => .error (missingHalf rest ps stop)
    else if isSecondHalf n then .error (.here .loneHalf rest)
    else (joinPieces stop ps).map (Char.ofNat n :: ·)

/-- A string, its opening quote already read: what it says, or why that cannot be told, and what
is left behind it. -/
structure StringToken where
  value : Except Fault (List Char)
  rest : List Char

/-- The string at the front of a text, behind the opening quote. A string without end is broken
for every reader. -/
def StringToken.read (cs : List Char) : Except Broken StringToken :=
  let (pieces, stop) := scanPieces cs
  let value := joinPieces stop pieces
  match stop.skip, value with
  | .ok rest, _ => .ok ⟨value, rest⟩
  | .error fault, .error reading => .error ⟨reading, fault⟩
  | .error fault, .ok _ => .error (.same fault)

end LayoutCompletion.Json
