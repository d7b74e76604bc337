import LayoutCompletion.Markup.Token

/-!
# Cutting a text into tokens

Which tokens may come next depends on how far the document has been read (`Mode`): a declaration
at the very beginning, then comments, instructions and a document type, then one root element,
and behind it comments, instructions and space only. End tags are counted, not compared by name.

`next` reads one token. What it leaves is shorter than what it was given (`length_lt_of_next`),
which is the measure that ends `tokensFrom`.
-/

namespace LayoutCompletion.Markup

/-- How far a document has been read. -/
inductive Mode
  /-- At the very beginning. -/
  | start
  /-- Before the document type. -/
  | prolog
  /-- Between the square brackets of the document type. -/
  | subset
  /-- Behind the document type, before the root element. -/
  | beforeRoot
  /-- Inside an element, in which `outer` others are nested around the innermost. -/
  | content (outer : Nat)
  /-- Inside a start tag within `depth` open elements. -/
  | tag (depth : Nat)
  /-- Behind the root element. -/
  | epilog
deriving DecidableEq, Repr

/-- The mode behind the end of an element that `depth` open elements surround. -/
def Mode.closing : Nat → Mode
  | 0 => .epilog
  | outer + 1 => .content outer

/-- A token, the mode behind it, and what is left to read. -/
structure Step where
  token : Token
  mode : Mode
  rest : List Char

namespace Lexer

open Scan

/-! ## Constructs

Each scan here reads what stands behind the opening characters of a construct. -/

/-- Equals sign with the space around it. -/
def equals : Scan Unit := do
  let _ ← spaces
  char '='
  let _ ← spaces

/-- Text between quotes of either kind, of which `p` reads what is inside. -/
def quotedBy (p : Char → Scan Unit) : Scan Unit := do
  let q ← quote
  p q
  char q

/-- The space between two parts of a declaration, which only its end makes superfluous. -/
def declarationSpace : Scan Unit := do
  let blank ← spaces
  let next ← peek
  let ended ← sees "?>"
  failIf (blank.isEmpty && next.isSome && !ended) .wantedSpace

/-- The words `yes` and `no`. -/
def yesOrNo : Scan Unit := fun cs =>
  match name cs with
  | .error stop => .error stop
  | .ok (word, rest) =>
    if word = "yes".toList || word = "no".toList then .ok ((), rest)
    else .error ⟨.wantedText "yes', 'no", cs⟩

/-- The number of the version: a one, a point and digits. -/
def versionNumber : Scan Unit := do
  text "1."
  let _ ← takeWhile (within 0x30 0x39)

/-- The encoding of a declaration, behind its keyword. -/
def encoding : Scan Unit := do
  equals
  quotedBy fun _ => do
    let _ ← takeWhile isEncodingChar
  declarationSpace

/-- The word on being self-contained, behind its keyword. -/
def standalone : Scan Unit := do
  equals
  quotedBy fun _ => yesOrNo

/-- The declaration: a version, and perhaps an encoding and a word on being self-contained. -/
def declaration : Scan Unit := do
  let _ ← spaces
  text "version"
  equals
  quotedBy fun _ => versionNumber
  declarationSpace
  optionally "encoding" encoding
  optionally "standalone" standalone
  let _ ← spaces
  text "?>"

/-- Does the text hold two hyphens in a row? -/
def hasDoubleHyphen : List Char → Bool
  | [] => false
  | c :: cs => (c = '-' && cs.head? = some '-') || hasDoubleHyphen cs

/-- A comment, in which no two hyphens may follow each other. -/
def comment : Scan Unit := do
  let body ← upTo (begins "-->")
  text "-->"
  failIf (hasDoubleHyphen body) .hyphensInComment
  failIf (body.getLast? = some '-') .hyphenEndsComment

/-- A processing instruction. -/
def instruction : Scan Unit := do
  let _ ← name
  let _ ← spaces
  let _ ← upTo (begins "?>")
  text "?>"

/-- A literal: everything between two equal quotes. -/
def literal : Scan Unit :=
  quotedBy fun q => do
    let _ ← takeWhile (· ≠ q)

/-- A literal with space before it. -/
def spacedLiteral : Scan Unit := do
  let _ ← someSpace
  literal

/-- Where something is to be found outside the document: a system literal, or a public and a
system literal. Tells whether there was one. -/
def externalId? : Scan Bool := do
  if ← sees "SYSTEM" then do
    advance 6
    spacedLiteral
    pure true
  else if ← sees "PUBLIC" then do
    advance 6
    spacedLiteral
    spacedLiteral
    pure true
  else pure false

/-- A document type, up to its end or up to the bracket that opens its subset. Tells whether a
subset follows. -/
def documentType : Scan Bool := do
  let _ ← someSpace
  let _ ← name
  let _ ← spaces
  let _ ← externalId?
  let _ ← spaces
  match ← peek with
  | none => fail .unexpectedEnd
  | some c =>
    if c = '[' || c = '>' then do
      advance 1
      pure (c = '[')
    else fail (.wantedOneOf ['[', '>'])

/-- The notation of an entity that is no text, behind its keyword. Its name may be missing at the
end of the text. -/
def entityNotation : Scan Unit := do
  let _ ← someSpace
  match ← peek with
  | none => pure ()
  | some _ => do
    let _ ← name

/-- What an entity stands for: a literal, or a place outside the document. -/
def entityDefinition (general : Bool) : Scan Unit := do
  match ← peek with
  | none => fail .unexpectedEnd
  | some c =>
    if c = '\x22' || c = '\x27' then literal
    else if c = 'S' || c = 'P' then do
      let found ← externalId?
      failIf (!found) .noExternalId
      if general then do
        let _ ← spaces
        optionally "NDATA" entityNotation
      else pure ()
    else fail (.wantedOneOf ['\x22', '\x27', 'S', 'P'])

/-- The sign of an entity that is used in declarations only. Tells whether it is there. -/
def parameterSign : Scan Bool := do
  if (← peek) = some '%' then do
    advance 1
    let _ ← someSpace
    pure true
  else pure false

/-- An entity declaration. -/
def entity : Scan Unit := do
  let _ ← someSpace
  let parameter ← parameterSign
  let _ ← name
  let _ ← someSpace
  entityDefinition !parameter
  let _ ← spaces
  char '>'

/-- The end of a subset, behind its closing bracket. -/
def subsetEnd : Scan Unit := do
  let _ ← spaces
  char '>'

/-- A declaration of which only the end matters. -/
def otherDeclaration : Scan Unit := do
  let _ ← takeWhile (!isSpace ·)
  let _ ← someSpace
  let _ ← takeWhile (· ≠ '>')
  char '>'

/-- A literal section. -/
def literalSection : Scan Unit := do
  let _ ← upTo (begins "]]>")
  text "]]>"

/-- An end tag. -/
def closeTag : Scan Token := do
  let name ← QualifiedName.scan
  let trail ← spaces
  char '>'
  pure (.closeTag name trail)

/-- Does the text hold the end of a literal section? -/
def hasSectionEnd : List Char → Bool
  | [] => false
  | c :: cs => begins "]]>" (c :: cs) || hasSectionEnd cs

/-- Text between tags. -/
def characterData : Scan Token := do
  let body ← upTo (begins "<")
  failIf (hasSectionEnd body) .sectionEndInText
  pure (.skipped body)

/-- An attribute behind the space that must precede it. Its value ends at the quote that opened
it, and may not hold an opening angle bracket. -/
def attributeBody (lead : List Char) : Scan Token := do
  let name ← QualifiedName.scan
  let (_, equalsText) ← lexeme equals
  let q ← quote
  let value ← upTo fun rest => rest.head? = some q || rest.head? = some '<'
  char q
  pure (.attribute lead name equalsText q value)

/-- The closing bracket behind the slash that ends a start tag. -/
def selfClosingEnd (lead : List Char) : Scan Token := do
  char '>'
  pure (.tagEnd lead true)

/-- What may stand in a start tag: its end, or an attribute with space before it. -/
def tagPart : Scan Token := fun cs =>
  let lead := cs.takeWhile isSpace
  match cs.dropWhile isSpace with
  | '/' :: rest => selfClosingEnd lead rest
  | '>' :: rest => .ok (.tagEnd lead false, rest)
  | rest =>
    if lead.isEmpty then
      .error ⟨if rest.isEmpty then .unexpectedEnd else .wantedSpace, rest⟩
    else attributeBody lead rest

/-! ## One token -/

/-- Reads a construct behind its `n` opening characters, of which nothing but its text is kept. -/
def skip {α : Type} (construct : Construct) (n : Nat) (p : Scan α) (mode : α → Mode)
    (cs : List Char) : Except Failure Step :=
  match p (cs.drop n) with
  | .error stop => .error (.broken construct cs stop)
  | .ok (a, rest) => .ok ⟨.skipped (cs.take (cs.length - rest.length)), mode a, rest⟩

/-- Reads a construct behind its `n` opening characters. -/
def read (construct : Construct) (n : Nat) (p : Scan Token) (mode : Token → Mode)
    (cs : List Char) : Except Failure Step :=
  match p (cs.drop n) with
  | .error stop => .error (.broken construct cs stop)
  | .ok (token, rest) => .ok ⟨token, mode token, rest⟩

/-- What may stand between all others outside the root element: comments, instructions and
space. -/
def misc (mode : Mode) (cs : List Char) (otherwise : Except Failure Step) : Except Failure Step :=
  if begins "<!--" cs then skip .comment 4 comment (fun _ => mode) cs
  else if begins "<?xml " cs then .error (.unknown cs)
  else if begins "<?" cs then skip .instruction 2 instruction (fun _ => mode) cs
  else if cs.head?.any isSpace then
    .ok ⟨.skipped (cs.takeWhile isSpace), mode, cs.dropWhile isSpace⟩
  else otherwise

/-- The opening of an element that `depth` open elements surround. -/
def element (depth : Nat) (cs : List Char) : Except Failure Step :=
  read .element 1 (.openTag <$> QualifiedName.scan) (fun _ => .tag depth) cs

/-- A token behind the document type. -/
def beforeRoot (cs : List Char) : Except Failure Step :=
  misc .beforeRoot cs <|
    if begins "<" cs && !begins "<!" cs then element 0 cs else .error (.unknown cs)

/-- A token before the document type. -/
def prolog (cs : List Char) : Except Failure Step :=
  if begins "<!DOCTYPE" cs then
    skip .documentType 9 documentType (fun opened => if opened then .subset else .beforeRoot) cs
  else misc .prolog cs (beforeRoot cs)

/-- A token of the subset of a document type. -/
def subset (cs : List Char) : Except Failure Step :=
  if begins "<!ENTITY" cs then skip .entity 8 entity (fun _ => .subset) cs
  else if begins "]" cs then skip .documentType 1 subsetEnd (fun _ => .beforeRoot) cs
  else misc .subset cs <|
    if begins "<!ELEMENT" cs || begins "<!ATTLIST" cs || begins "<!NOTATION" cs then
      match skip .documentType 1 otherDeclaration (fun _ => .subset) cs with
      | .error _ => .error (.unknown cs)
      | .ok step => .ok step
    else .error (.unknown cs)

/-- A token inside an element. -/
def content (outer : Nat) (cs : List Char) : Except Failure Step :=
  if begins "<!--" cs then skip .comment 4 comment (fun _ => .content outer) cs
  else if begins "<![CDATA[" cs then
    skip .section 9 literalSection (fun _ => .content outer) cs
  else if begins "<!" cs then .error (.unknown cs)
  else if begins "<?xml " cs then .error (.unknown cs)
  else if begins "<?" cs then skip .instruction 2 instruction (fun _ => .content outer) cs
  else if begins "</" cs then read .element 2 closeTag (fun _ => .closing outer) cs
  else if cs = ['<'] then .error (.unknown cs)
  else if begins "<" cs then element (outer + 1) cs
  else read .text 0 characterData (fun _ => .content outer) cs

/-- A token inside a start tag. -/
def tag (depth : Nat) (cs : List Char) : Except Failure Step :=
  let mode : Token → Mode
    | .tagEnd _ true => .closing depth
    | .tagEnd _ false => .content depth
    | _ => .tag depth
  read .attribute 0 tagPart mode cs

/-- Reads one token from a text that is not empty. -/
def next (mode : Mode) (cs : List Char) : Except Failure Step :=
  match mode with
  | .start =>
    if begins "<?xml " cs then skip .declaration 6 declaration (fun _ => .prolog) cs
    else prolog cs
  | .prolog => prolog cs
  | .subset => subset cs
  | .beforeRoot => beforeRoot cs
  | .content outer => content outer cs
  | .tag depth => tag depth cs
  | .epilog => misc .epilog cs (.error (.unknown cs))

end Lexer

end LayoutCompletion.Markup
