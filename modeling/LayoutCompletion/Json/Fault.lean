import LayoutCompletion.Number.Shortest
import LayoutCompletion.Text.Quoted
import LayoutCompletion.Text.Utf8

/-!
# What is wrong with a JSON text

A fault keeps what was left of the text where it arose. `Fault.message` says what is wrong and
where; lines and columns are counted so that the column is the number of bytes that have been read
of the line.
-/

namespace LayoutCompletion.Json

/-- A value that holds no other values. -/
inductive Scalar
  | null
  | boolean (b : Bool)
  /-- A number without fraction and exponent that fits in 64 bits. -/
  | integer (n : Int)
  /-- Any other number, and the negative zero. -/
  | float (x : Binary64)
  | string (text : List Char)
deriving DecidableEq, Repr

/-- How a value is named where another kind of value is wanted. -/
def Scalar.describe : Scalar → String
  | null => "null"
  | boolean b => "boolean `" ++ toString b ++ "`"
  | integer n => "integer `" ++ toString n ++ "`"
  | float x => "floating point `" ++ x.toText ++ "`"
  | string text => "string " ++ Text.quoted (String.ofList text)

/-- What was found where another kind of value is wanted. -/
inductive Found
  | scalar (value : Scalar)
  | array
  | object
deriving DecidableEq, Repr

/-- How it is named. -/
def Found.describe : Found → String
  | scalar value => value.describe
  | array => "sequence"
  | object => "map"

/-- What is wrong. -/
inductive Cause
  /-- The text ended inside an array. -/
  | endInArray
  /-- The text ended inside an object. -/
  | endInObject
  /-- The text ended inside a string. -/
  | endInString
  /-- The text ended where a value must stand. -/
  | endInValue
  | wantedColon
  | wantedItemEnd
  | wantedMemberEnd
  /-- A word begins like `null`, `true` or `false` and goes on otherwise. -/
  | wantedWord
  | wantedValue
  | wantedKey
  | badEscape
  | badNumber
  | numberTooLarge
  | controlInString
  /-- Half of a pair of escapes that together stand for one character. -/
  | loneHalf
  /-- The first of such a pair, without a second escape behind it. -/
  | missingHalf
  | commaAtEnd
  /-- Something stands behind the end. -/
  | leftOver
  /-- Values are nested too deeply. -/
  | tooDeep
  | wrongKind (found : Found) (wanted : String)
  | wrongValue (found : Found) (wanted : String)
  /-- An array has too few items for the fields of a record. -/
  | wrongLength (length : Nat) (record : String) (fields : Nat)
  | missingField (name : String)
  | repeatedField (name : String)
  /-- A value has none of the shapes that it may have. -/
  | noShape (name : String)
deriving DecidableEq, Repr

/-- What people read about it. -/
def Cause.describe : Cause → String
  | endInArray => "EOF while parsing a list"
  | endInObject => "EOF while parsing an object"
  | endInString => "EOF while parsing a string"
  | endInValue => "EOF while parsing a value"
  | wantedColon => "expected `:`"
  | wantedItemEnd => "expected `,` or `]`"
  | wantedMemberEnd => "expected `,` or `\x7d`"
  | wantedWord => "expected ident"
  | wantedValue => "expected value"
  | wantedKey => "key must be a string"
  | badEscape => "invalid escape"
  | badNumber => "invalid number"
  | numberTooLarge => "number out of range"
  | controlInString => "control character (\\u0000-\\u001F) found while parsing a string"
  | loneHalf => "lone leading surrogate in hex escape"
  | missingHalf => "unexpected end of hex escape"
  | commaAtEnd => "trailing comma"
  | leftOver => "trailing characters"
  | tooDeep => "recursion limit exceeded"
  | wrongKind found wanted => "invalid type: " ++ found.describe ++ ", expected " ++ wanted
  | wrongValue found wanted => "invalid value: " ++ found.describe ++ ", expected " ++ wanted
  | wrongLength length record fields =>
    "invalid length " ++ toString length ++ ", expected struct " ++ record ++ " with " ++
      toString fields ++ " elements"
  | missingField name => "missing field `" ++ name ++ "`"
  | repeatedField name => "duplicate field `" ++ name ++ "`"
  | noShape name => "data did not match any variant of untagged enum " ++ name

/-- What is wrong, what was left of the text there, and how many bytes of that had been read. -/
structure Fault where
  cause : Cause
  rest : List Char
  ahead : Nat
deriving DecidableEq, Repr

namespace Fault

/-- A fault in what has been read so far. -/
def here (cause : Cause) (rest : List Char) : Fault := ⟨cause, rest, 0⟩

/-- A fault in the next character, or in its absence. -/
def onNext (cause : Cause) (rest : List Char) : Fault :=
  ⟨cause, rest, if rest.isEmpty then 0 else 1⟩

/-- A fault in the next character, or one that says that there is none. -/
def onNextOr (atEnd cause : Cause) (rest : List Char) : Fault :=
  if rest.isEmpty then here atEnd rest else onNext cause rest

end Fault

/-- A line, counted from one, and the number of bytes before a place on it. -/
structure Place where
  line : Nat
  column : Nat
deriving DecidableEq, Repr

namespace Place

/-- The place that many bytes further on. -/
def advance (p : Place) : List Char → Nat → Place
  | [], _ => p
  | _, 0 => p
  | c :: cs, n =>
    if n < c.utf8Size then ⟨p.line, p.column + n⟩
    else
      let next := if c = '\n' then ⟨p.line + 1, 0⟩ else ⟨p.line, p.column + c.utf8Size⟩
      advance next cs (n - c.utf8Size)

/-- The place of a byte offset. -/
def ofOffset (text : List Char) (offset : Nat) : Place :=
  advance ⟨1, 0⟩ text offset

/-- How a place is named. -/
def describe (p : Place) : String :=
  "line " ++ toString p.line ++ " column " ++ toString p.column

end Place

/-- What people read about a fault in a text. -/
def Fault.message (text : List Char) (fault : Fault) : String :=
  let offset := Text.utf8Length text - Text.utf8Length fault.rest + fault.ahead
  fault.cause.describe ++ " at " ++ (Place.ofOffset text offset).describe

/-- What is wrong with a part of a text for a reader that wants to know it, and for one that only
skips it. -/
structure Broken where
  reading : Fault
  skipping : Fault
deriving DecidableEq, Repr

/-- The same fault for both readers. -/
def Broken.same (fault : Fault) : Broken := ⟨fault, fault⟩

end LayoutCompletion.Json
