import LayoutCompletion.BoundedList
import LayoutCompletion.Completion.Candidate

/-!
# From candidates to a list

Candidates are sorted by quality, label and package, those that the sort leaves tied in the order
in which they were found. Then repetitions may be dropped, and the list is cut at its limit.
-/

namespace LayoutCompletion

/-- How the list of completions is made. -/
structure CompletionSettings where
  /-- How many completions are offered at most. -/
  limit : Nat
  /-- Are candidates merged that share prefix, name and package? -/
  dedup : Bool
  /-- Are attributes left out that the element has already? -/
  skipExisting : Bool
deriving DecidableEq, Repr

/-- What holds unless a project says otherwise. -/
def CompletionSettings.default : CompletionSettings := ⟨200, true, true⟩

/-- The completions to offer, best first. -/
structure CompletionList where
  items : List Candidate
  /-- Were there more than the limit allows? -/
  isIncomplete : Bool
deriving DecidableEq, Repr

namespace Candidate

/-- The order of the list: better quality first, then by label, then by package. -/
def order (a b : Candidate) : Ordering :=
  (compare b.quality.rank a.quality.rank).then
    ((compare a.label b.label).then (compare a.package.text b.package.text))

/-- May `a` stand before `b`? -/
def precedes (a b : Candidate) : Bool :=
  (order a b).isLE

/-- Do two candidates insert the same attribute of the same package? -/
def sameAttribute (a b : Candidate) : Bool :=
  a.space = b.space && a.name = b.name && a.package = b.package

end Candidate

/-- Drops every candidate that repeats the last one kept. -/
def dropRepeats : List Candidate → List Candidate
  | [] => []
  | c :: cs =>
    match dropRepeats cs with
    | [] => [c]
    | next :: rest => if next.sameAttribute c then c :: rest else c :: next :: rest

/-- The names that the attributes of an element take up, the one with number `current` and
declarations of namespaces apart. -/
def presentNames (attributes : List Attribute) (current : Nat) : List String :=
  (attributes.eraseIdx current).filterMap fun a =>
    if a.isNamespaceDeclaration then none else some a.name

/-- The candidates that an element has not already, if such are to be left out. -/
def withoutPresent (settings : CompletionSettings) (attributes : List Attribute) (current : Nat)
    (candidates : List Candidate) : List Candidate :=
  if settings.skipExisting then
    candidates.filter fun c => !(presentNames attributes current).contains c.label
  else candidates

/-- The candidates in the order of the list, without repetitions if they are to be dropped. -/
def ranked (settings : CompletionSettings) (candidates : List Candidate) : List Candidate :=
  let sorted := candidates.mergeSort Candidate.precedes
  if settings.dedup then dropRepeats sorted else sorted

/-- The list of completions for the attribute with number `current`. -/
def CompletionList.ofCandidates (settings : CompletionSettings) (attributes : List Attribute)
    (current : Nat) (candidates : List Candidate) : CompletionList :=
  let kept := (BoundedList.empty settings.limit).extend
    (ranked settings (withoutPresent settings attributes current candidates))
  ⟨kept.items, kept.overflowed⟩

end LayoutCompletion
