import LayoutCompletion.Text.Humps
import LayoutCompletion.Text.Utf8

/-!
# How well a candidate matches what was typed

A candidate that begins with the typed text matches best. Failing that, case may be ignored, or
the typed text may be a row of humps that begin, in order, humps of the candidate: `tC` stands
for `textColor`, and `layout_mS` for `layout_marginStart`.
-/

namespace LayoutCompletion

/-- How well a candidate matches, worst first. -/
inductive Quality
  /-- It does not match at all. -/
  | unmatched
  /-- It matches by its humps, or if case is ignored. -/
  | loose
  /-- It begins with the typed text. -/
  | leading
  /-- It is the typed text. -/
  | exact
deriving DecidableEq, Repr

namespace Quality

/-- The higher, the better. -/
def rank : Quality → Nat
  | unmatched => 0
  | loose => 1
  | leading => 2
  | exact => 3

/-- The better of two qualities. -/
def best (a b : Quality) : Quality :=
  if a.rank ≤ b.rank then b else a

end Quality

namespace Matching

/-- Does the candidate begin with the typed text, if the case of ASCII letters is ignored? -/
def beginsIgnoringCase (candidate typed : List Char) : Bool :=
  match Text.splitAtByte? candidate (Text.utf8Length typed) with
  | none => false
  | some (head, _) => head.map Char.toLower = typed.map Char.toLower

/-- Does every typed hump begin some word, each a later word than the one before it? Every typed
hump takes the first word that it can. -/
def matchHumps : (words typed : List (List Char)) → Bool
  | _, [] => true
  | words, hump :: rest =>
    match words.dropWhile (!hump.isPrefixOf ·) with
    | [] => false
    | _ :: later => matchHumps later rest

/-- Do the humps of the typed text begin humps of the candidate, the first the first? -/
def humpsMatch (candidate typed : List Char) : Bool :=
  match Text.humps candidate, Text.humps typed with
  | word :: words, hump :: rest => hump.isPrefixOf word && matchHumps words rest
  | _, _ => false

/-- How well a candidate matches the typed text, both given by their characters. -/
def classifyChars (candidate typed : List Char) : Quality :=
  if typed.isEmpty then .leading
  else if candidate = typed then .exact
  else if typed.isPrefixOf candidate then .leading
  else if beginsIgnoringCase candidate typed || humpsMatch candidate typed then .loose
  else .unmatched

/-- How well a candidate matches the typed text. -/
def classify (candidate typed : String) : Quality :=
  classifyChars candidate.toList typed.toList

end Matching

/-- A way to tell how well a candidate matches the typed text. -/
structure Matcher where
  classify : (candidate typed : String) → Quality

/-- Beginnings, with and without case, and humps. -/
def Matcher.camelHumps : Matcher := ⟨Matching.classify⟩

end LayoutCompletion
