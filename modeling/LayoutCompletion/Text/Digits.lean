/-!
# Digits and the numbers they write
-/

namespace LayoutCompletion.Text

/-- The value of a decimal digit. -/
def digit? (c : Char) : Option Nat :=
  if '0' ≤ c && c ≤ '9' then some (c.toNat - 0x30) else none

/-- Is the character a decimal digit? -/
def isDigit (c : Char) : Bool :=
  (digit? c).isSome

/-- The value of decimal digits that follow on a number. -/
def decimalValue? (value : Nat) : List Char → Option Nat
  | [] => some value
  | c :: cs => (digit? c).bind fun d => decimalValue? (value * 10 + d) cs

/-- The value of a hexadecimal digit. -/
def hexDigit? (c : Char) : Option Nat :=
  if '0' ≤ c && c ≤ '9' then some (c.toNat - 0x30)
  else if 'a' ≤ c && c ≤ 'f' then some (c.toNat - 0x61 + 10)
  else if 'A' ≤ c && c ≤ 'F' then some (c.toNat - 0x41 + 10)
  else none

/-- The value of hexadecimal digits that follow on a number. -/
def hexValue? (value : Nat) : List Char → Option Nat
  | [] => some value
  | c :: cs => (hexDigit? c).bind fun d => hexValue? (value * 16 + d) cs

end LayoutCompletion.Text
