import LayoutCompletion.Markup.Scan

/-!
# Tokens

A token keeps every character it was read from, so that the tokens of a text, written one after
the other, are the text again. Places are not kept: they follow from the lengths of what stands
before.
-/

namespace LayoutCompletion.Markup

/-- A name with at most one colon. `qualifier` is what stands before the colon: `none` if there is
no colon, and the empty text if the name begins with one. -/
structure QualifiedName where
  qualifier : Option (List Char)
  base : List Char
deriving DecidableEq, Repr

namespace QualifiedName

/-- The name as it is written. -/
def text (n : QualifiedName) : List Char :=
  match n.qualifier with
  | none => n.base
  | some q => q ++ ':' :: n.base

/-- The qualifier, empty if there is none. -/
def space (n : QualifiedName) : List Char :=
  n.qualifier.getD []

/-- Both parts must begin like a name; only the qualifier may be empty. -/
def wellFormed (n : QualifiedName) : Bool :=
  (n.space.head?.all isNameStart) && n.base.head?.any isNameStart

/-- Reads the colon behind a qualifier and what stands behind it. A second colon is no part of a
name, and nothing may be read past it. -/
def scanBase (qualifier : List Char) : Scan QualifiedName := do
  Scan.advance 1
  let base ← Scan.takeWhile isNameChar
  if (← Scan.peek) = some ':' then Scan.fail .noName else pure ⟨some qualifier, base⟩

/-- Reads a name with at most one colon, whatever its parts begin with. -/
def scanParts : Scan QualifiedName := do
  let first ← Scan.takeWhile isNameChar
  if (← Scan.peek) = some ':' then scanBase first else pure ⟨none, first⟩

/-- Reads a qualified name. -/
def scan : Scan QualifiedName := do
  let name ← scanParts
  if name.wellFormed then pure name else Scan.fail .noName

theorem suffix_scanBase (qualifier : List Char) : Scan.Suffix (scanBase qualifier) :=
  Scan.suffix_bind (Scan.suffix_advance 1) fun _ =>
    Scan.suffix_bind (Scan.suffix_takeWhile _) fun _ =>
      Scan.suffix_bind Scan.suffix_peek fun _ => by
        split
        · exact Scan.suffix_fail _
        · exact Scan.suffix_pure _

theorem suffix_scanParts : Scan.Suffix scanParts :=
  Scan.suffix_bind (Scan.suffix_takeWhile _) fun _ =>
    Scan.suffix_bind Scan.suffix_peek fun _ => by
      split
      · exact suffix_scanBase _
      · exact Scan.suffix_pure _

theorem suffix_scan : Scan.Suffix scan :=
  Scan.suffix_bind suffix_scanParts fun _ => by
    split
    · exact Scan.suffix_pure _
    · exact Scan.suffix_fail _

end QualifiedName

/-- The parts of which a text of markup consists. -/
inductive Token
  /-- What tells nothing about elements: declarations, comments, instructions, text and space. -/
  | skipped (text : List Char)
  /-- The angle bracket and the name that open a start tag. -/
  | openTag (name : QualifiedName)
  /-- An attribute, with the space before it. The equals sign is kept with the space around it. -/
  | attribute (lead : List Char) (name : QualifiedName) (equals : List Char) (quote : Char)
      (value : List Char)
  /-- The end of a start tag, with the space before it. -/
  | tagEnd (lead : List Char) (selfClosing : Bool)
  /-- An end tag, with the space before its closing bracket. -/
  | closeTag (name : QualifiedName) (trail : List Char)
deriving DecidableEq, Repr

namespace Token

/-- The characters that the token was read from. -/
def text : Token → List Char
  | .skipped t => t
  | .openTag name => '<' :: name.text
  | .attribute lead name equals quote value =>
    lead ++ name.text ++ equals ++ quote :: value ++ [quote]
  | .tagEnd lead true => lead ++ ['/', '>']
  | .tagEnd lead false => lead ++ ['>']
  | .closeTag name trail => '<' :: '/' :: name.text ++ trail ++ ['>']

end Token

end LayoutCompletion.Markup
