import LayoutCompletion.Text.CodePointSet

/-!
# Blank characters

The Unicode property White_Space: the blanks and the controls that separate words or lines. It is
wider than the four characters that markup counts as space.
-/

namespace LayoutCompletion.Text

/-- The code points with the White_Space property. -/
def blanks : CodePointSet :=
  ⟨[
    0x9, 0xE, 0x20, 0x21, 0x85, 0x86, 0xA0, 0xA1, 0x1680, 0x1681, 0x2000, 0x200B, 0x2028, 0x202A,
    0x202F, 0x2030, 0x205F, 0x2060, 0x3000, 0x3001]⟩

/-- Is the character blank? -/
def isBlank (c : Char) : Bool :=
  blanks.contains c

/-- The text without its leading blanks. -/
def trimStart (cs : List Char) : List Char :=
  cs.dropWhile isBlank

/-- The text without its trailing blanks. -/
def trimEnd (cs : List Char) : List Char :=
  (cs.reverse.dropWhile isBlank).reverse

/-- The text without its leading and trailing blanks. -/
def trim (cs : List Char) : List Char :=
  trimEnd (trimStart cs)

end LayoutCompletion.Text
