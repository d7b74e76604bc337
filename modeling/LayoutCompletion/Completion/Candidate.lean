import LayoutCompletion.Document.Basic
import LayoutCompletion.Matching
import LayoutCompletion.Styleable.Set

/-!
# Candidates

Every attribute of the applicable styleables that matches the typed text is a candidate. No two
are merged here, even if they share a name.
-/

namespace LayoutCompletion

/-- An attribute that may be inserted. -/
structure Candidate where
  name : String
  /-- The prefix to insert before the name. -/
  space : String
  package : PackageName
  format : AttrFormat
  quality : Quality
deriving DecidableEq, Repr

/-- The text to insert. -/
def Candidate.label (c : Candidate) : String :=
  qualify c.space c.name

/-- What the typed text is matched against. -/
inductive Needle
  /-- The prefix is settled: the typed text is the beginning of a bare name. -/
  | bare (typed : String)
  /-- The prefix is open: the typed text may begin a bare name or one with its prefix. -/
  | qualified (typed : String)
deriving DecidableEq, Repr

/-- How well an attribute with the prefix matches. -/
def Needle.quality (needle : Needle) (matcher : Matcher) (space name : String) : Quality :=
  match needle with
  | .bare typed => matcher.classify name typed
  | .qualified typed =>
    (matcher.classify (qualify space name) typed).best (matcher.classify name typed)

/-- The candidate for an attribute, if it matches. -/
def Needle.candidate? (needle : Needle) (matcher : Matcher) (space : String)
    (a : AttributeEntry) : Option Candidate :=
  match needle.quality matcher space a.name with
  | .unmatched => none
  | quality => some ⟨a.name, space, a.package, a.format, quality⟩

/-- The candidates among the attributes of the styleables. -/
def assemble (set : StyleableSet) (needle : Needle) (space : String)
    (matcher : Matcher := .camelHumps) : List Candidate :=
  set.groups.values.flatMap fun group =>
    group.attributes.filterMap (needle.candidate? matcher space)

end LayoutCompletion
