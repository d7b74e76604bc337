/-!
# The characters of markup

Which characters may stand in a document at all, which are space, and of which names consist.
-/

namespace LayoutCompletion.Markup

/-- Space between the parts of markup: blank, tab, line feed and carriage return. -/
def isSpace (c : Char) : Bool :=
  c = ' ' || c = '\t' || c = '\n' || c = '\r'

/-- May the character stand in a document? Of the controls below U+0020 only those that are space
may, and the two non-characters at the end of the first plane may not. -/
def isLegal (c : Char) : Bool :=
  if c.toNat < 0x20 then isSpace c else c.toNat != 0xFFFE && c.toNat != 0xFFFF

/-- Is the code point between the two bounds, both included? -/
def within (lo hi : Nat) (c : Char) : Bool :=
  lo ≤ c.toNat && c.toNat ≤ hi

/-- May a name begin with the character? The colon is left out: it separates the two parts of a
qualified name and belongs to neither. -/
def isNameStart (c : Char) : Bool :=
  within 0x41 0x5A c || within 0x61 0x7A c || c = '_' ||
  within 0xC0 0xD6 c || within 0xD8 0xF6 c || within 0xF8 0x2FF c ||
  within 0x370 0x37D c || within 0x37F 0x1FFF c || within 0x200C 0x200D c ||
  within 0x2070 0x218F c || within 0x2C00 0x2FEF c || within 0x3001 0xD7FF c ||
  within 0xF900 0xFDCF c || within 0xFDF0 0xFFFD c || within 0x10000 0xEFFFF c

/-- May the character stand in a name, behind its first one? The colon is left out. -/
def isNameChar (c : Char) : Bool :=
  isNameStart c || within 0x30 0x39 c || c = '-' || c = '.' || c = '\u00B7' ||
  within 0x300 0x36F c || within 0x203F 0x2040 c

/-- May the character stand in the name of an encoding? -/
def isEncodingChar (c : Char) : Bool :=
  within 0x41 0x5A c || within 0x61 0x7A c || within 0x30 0x39 c || c = '.' || c = '-' || c = '_'

theorem isNameChar_of_isNameStart {c : Char} (h : isNameStart c = true) : isNameChar c = true := by
  simp [isNameChar, h]

end LayoutCompletion.Markup
