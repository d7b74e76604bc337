import LayoutCompletion.Text.Quoted
import LayoutCompletion.Text.Utf8

/-!
# Why reading markup stopped

A failure keeps the input that was left where it arose. `Place.before` turns that into a row and a
column, and `Failure.message` into the text that people read.
-/

namespace LayoutCompletion.Markup

/-- What was wrong with the next character, or with what had just been read. -/
inductive Cause
  /-- The text ended inside a construct. -/
  | unexpectedEnd
  /-- No name stands where one must. -/
  | noName
  /-- A character that no document may hold. -/
  | illegal
  /-- Another character than the one that must follow. -/
  | wanted (c : Char)
  /-- None of the characters that may follow. -/
  | wantedOneOf (cs : List Char)
  /-- Neither of the two quotes. -/
  | wantedQuote
  /-- No space where there must be some. -/
  | wantedSpace
  /-- Another text than the one that must follow. -/
  | wantedText (text : String)
  /-- An entity that is neither given a value nor a place to find it. -/
  | noExternalId
  /-- Two hyphens inside a comment. -/
  | hyphensInComment
  /-- A comment whose text ends with a hyphen. -/
  | hyphenEndsComment
  /-- The end of a literal section outside of one. -/
  | sectionEndInText
deriving DecidableEq, Repr

/-- A cause, and the input that was left where it arose. -/
structure Stop where
  cause : Cause
  rest : List Char
deriving DecidableEq, Repr

/-- The constructs that may fail once begun. -/
inductive Construct
  | declaration
  | comment
  | instruction
  | documentType
  | entity
  | element
  | attribute
  | section
  | text
deriving DecidableEq, Repr

/-- Why the reader could not go on. -/
inductive Failure
  /-- Nothing that may stand here begins with what is left. -/
  | unknown (rest : List Char)
  /-- A construct begins here and cannot be read to its end. -/
  | broken (construct : Construct) (start : List Char) (stop : Stop)
deriving DecidableEq, Repr

/-- The input that was left where the failed token began. -/
def Failure.rest : Failure → List Char
  | .unknown rest => rest
  | .broken _ start _ => start

/-- A row, ended by line feeds only, and a column in characters, both counted from one. -/
structure Place where
  row : Nat
  column : Nat
deriving DecidableEq, Repr

namespace Place

/-- The place behind a text that begins at the given place. -/
def advance (p : Place) (cs : List Char) : Place :=
  cs.foldl (fun p c => if c = '\n' then ⟨p.row + 1, 1⟩ else ⟨p.row, p.column + 1⟩) p

/-- The place in `text` before its tail `rest`. -/
def before (text rest : List Char) : Place :=
  advance ⟨1, 1⟩ (text.take (text.length - rest.length))

/-- Row and column with a colon between them. -/
def display (p : Place) : String :=
  toString p.row ++ ":" ++ toString p.column

end Place

/-- The character that was found, as messages show it: by the first of its bytes. -/
def Stop.found (s : Stop) : String :=
  match s.rest with
  | [] => ""
  | c :: _ => String.singleton (Text.leadByte c)

/-- The character between single quotes, as it is. -/
def inQuotes (c : Char) : String :=
  "'" ++ String.singleton c ++ "'"

/-- What people read about a cause that arose while reading `text`. -/
def Stop.message (text : List Char) (s : Stop) : String :=
  let place := (Place.before text s.rest).display
  match s.cause with
  | .unexpectedEnd => "unexpected end of stream"
  | .noName => "invalid name token"
  | .illegal =>
    "a non-XML character " ++ Text.quotedChar (s.rest.headD '\x00') ++ " found at " ++ place
  | .wanted c => "expected " ++ inQuotes c ++ " not '" ++ s.found ++ "' at " ++ place
  | .wantedOneOf cs =>
    "expected " ++ ", ".intercalate (cs.map inQuotes) ++ " not '" ++ s.found ++ "' at " ++ place
  | .wantedQuote => "expected quote mark not '" ++ s.found ++ "' at " ++ place
  | .wantedSpace => "expected space not '" ++ s.found ++ "' at " ++ place
  | .wantedText t => "expected '" ++ t ++ "' at " ++ place
  | .noExternalId => "invalid ExternalID"
  | .hyphensInComment => "'--' is not allowed in comments"
  | .hyphenEndsComment => "comment cannot end with '-'"
  | .sectionEndInText => "']]>' is not allowed inside a character data"

/-- What people call a construct. -/
def Construct.name : Construct → String
  | .declaration => "XML declaration"
  | .comment => "comment"
  | .instruction => "processing instruction"
  | .documentType => "DTD"
  | .entity => "DTD entity"
  | .element => "element"
  | .attribute => "attribute"
  | .section => "CDATA"
  | .text => "character data"

/-- The place where the failed token began. -/
def Failure.place (text : List Char) (f : Failure) : Place :=
  Place.before text f.rest

/-- What people read about a failure to read `text`. -/
def Failure.message (text : List Char) (f : Failure) : String :=
  let place := (f.place text).display
  match f with
  | .unknown _ => "unknown token at " ++ place
  | .broken construct _ stop =>
    "invalid " ++ construct.name ++ " at " ++ place ++ " cause " ++ stop.message text

end LayoutCompletion.Markup
