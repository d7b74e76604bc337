import LayoutCompletion.Text.Printable

/-!
# Quoted text

A text between double quotes in which quotes, backslashes and everything that does not print are
escaped. The five usual controls have short escapes; any other character that does not print is
written by its code point in lower-case hexadecimal digits between braces.
-/

namespace LayoutCompletion.Text

/-- The code point of `c` between braces, as in `\u{301}`. -/
def escapeCodePoint (c : Char) : List Char :=
  "\\u\x7b".toList ++ Nat.toDigits 16 c.toNat ++ "\x7d".toList

/-- How a character is written inside quotes. -/
def escapeChar (c : Char) : List Char :=
  if c = '\x00' then ['\\', '0']
  else if c = '\t' then ['\\', 't']
  else if c = '\r' then ['\\', 'r']
  else if c = '\n' then ['\\', 'n']
  else if c = '\\' then ['\\', '\\']
  else if c = '\x22' then ['\\', '\x22']
  else if isPrintable c then [c]
  else escapeCodePoint c

/-- The text between double quotes, escaped. -/
def quotedChars (cs : List Char) : List Char :=
  '\x22' :: (cs.flatMap escapeChar ++ ['\x22'])

/-- The text between double quotes, escaped. -/
def quoted (s : String) : String :=
  String.ofList (quotedChars s.toList)

/-- How one character is shown between single quotes: as inside double quotes, except that it is
the single quote that needs a backslash. -/
def quotedChar (c : Char) : String :=
  let inner :=
    if c = '\x22' then ['\x22'] else if c = '\x27' then ['\\', '\x27'] else escapeChar c
  String.ofList ('\x27' :: (inner ++ ['\x27']))

/-- The texts in quotes, separated by commas and between square brackets. -/
def quotedList (texts : List String) : String :=
  "[" ++ ", ".intercalate (texts.map quoted) ++ "]"

end LayoutCompletion.Text
