import LayoutCompletion.Text.Blank
import LayoutCompletion.Text.Digits
import LayoutCompletion.Text.Split

/-!
# Formats of attribute values

A format is a set of kinds of values, held in sixteen bits; bits that stand for no kind are kept.
Its text lists the kinds in their fixed order with bars between them, and the bits that are left
over as one hexadecimal number. Reading takes kinds and hexadecimal numbers in any order.
-/

namespace LayoutCompletion

/-- The kinds of values that an attribute may accept, in the order of their bits. -/
inductive ValueKind
  | reference
  | string
  | color
  | dimension
  | boolean
  | integer
  | float
  | fraction
  | enumeration
  | flags
deriving DecidableEq, Repr

namespace ValueKind

/-- All kinds, in the order of their bits. -/
def all : List ValueKind :=
  [reference, string, color, dimension, boolean, integer, float, fraction, enumeration, flags]

/-- The kind's name in the text of a format. -/
def name : ValueKind → String
  | reference => "REFERENCE"
  | string => "STRING"
  | color => "COLOR"
  | dimension => "DIMENSION"
  | boolean => "BOOLEAN"
  | integer => "INTEGER"
  | float => "FLOAT"
  | fraction => "FRACTION"
  | enumeration => "ENUM"
  | flags => "FLAGS"

/-- The kind's bit. -/
def bit : ValueKind → UInt16
  | reference => 1
  | string => 2
  | color => 4
  | dimension => 8
  | boolean => 16
  | integer => 32
  | float => 64
  | fraction => 128
  | enumeration => 256
  | flags => 512

/-- The kind with a name. -/
def ofName? (text : List Char) : Option ValueKind :=
  all.find? (·.name.toList = text)

end ValueKind

/-- A set of kinds of values. -/
structure AttrFormat where
  bits : UInt16
deriving DecidableEq, Repr

/-- Why a text is no format. -/
inductive FormatError
  /-- Nothing stands before, between or behind two bars. -/
  | emptyFlag
  /-- No kind has this name. -/
  | unknownName (name : String)
  /-- Behind the mark of a hexadecimal number stands no number of sixteen bits. -/
  | badNumber (digits : String)
deriving DecidableEq, Repr

/-- What people read about a text that is no format. -/
def FormatError.message : FormatError → String
  | emptyFlag => "encountered empty flag"
  | unknownName name => "unrecognized named flag `" ++ name ++ "`"
  | badNumber digits => "invalid hex flag `" ++ digits ++ "`"

namespace AttrFormat

/-- No kind at all. -/
def empty : AttrFormat := ⟨0⟩

/-- Is the kind in the set? -/
def has (f : AttrFormat) (kind : ValueKind) : Bool :=
  f.bits &&& kind.bit != 0

/-- The kinds in the set, in their fixed order. -/
def kinds (f : AttrFormat) : List ValueKind :=
  ValueKind.all.filter f.has

/-- The bits that stand for no kind. -/
def unknownBits (f : AttrFormat) : UInt16 :=
  f.bits &&& 0xFC00

/-- The text of a format. -/
def display (f : AttrFormat) : String :=
  let number :=
    if f.unknownBits = 0 then []
    else ["0x" ++ String.ofList (Nat.toDigits 16 f.unknownBits.toNat)]
  " | ".intercalate (f.kinds.map ValueKind.name ++ number)

/-- A number of sixteen bits in hexadecimal digits, of which there must be one. A plus sign may
stand before them. -/
def readBits? (text : List Char) : Option UInt16 :=
  let digits :=
    match text with
    | '+' :: rest => rest
    | _ => text
  if digits.isEmpty then none
  else
    match Text.hexValue? 0 digits with
    | some n => if n < 0x10000 then some n.toUInt16 else none
    | none => none

/-- The bits of what stands between two bars, without the blanks around it. -/
def readFlag (text : List Char) : Except FormatError UInt16 :=
  match text with
  | [] => .error .emptyFlag
  | '0' :: 'x' :: digits =>
    match readBits? digits with
    | some bits => .ok bits
    | none => .error (.badNumber (String.ofList digits))
  | name =>
    match ValueKind.ofName? name with
    | some kind => .ok kind.bit
    | none => .error (.unknownName (String.ofList name))

/-- Reads the flags one after the other, up to the first that is none. -/
def readFlags (bits : UInt16) : List (List Char) → Except FormatError UInt16
  | [] => .ok bits
  | flag :: rest =>
    match readFlag (Text.trim flag) with
    | .error e => .error e
    | .ok b => readFlags (bits ||| b) rest

/-- The format of a text. A blank text stands for no kind at all. -/
def ofString (s : String) : Except FormatError AttrFormat :=
  if (Text.trim s.toList).isEmpty then .ok empty
  else (readFlags 0 (Text.splitAll '|' s.toList)).map AttrFormat.mk

end AttrFormat

end LayoutCompletion
