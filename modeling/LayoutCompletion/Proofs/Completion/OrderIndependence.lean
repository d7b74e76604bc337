import LayoutCompletion.Proofs.Completion.Ranked
import LayoutCompletion.Proofs.Resource.Reordering
import LayoutCompletion.Resource.Decode

/-!
# The order in which things are found

Tables are registered in some order, a table lists its packages in some order, and the styleables of
an element are gone through in some order (`Enumeration`). All of them tell in which order the
candidates are found, and so which of two candidates comes first that the sort leaves tied. Such
candidates insert the same attribute of the same package; they may only differ in the format of its
values. So the list is the same in any order but for formats, with repetitions dropped or not, and
wherever it is cut (`completeInBy_outline`).
-/

namespace LayoutCompletion

open Candidate

/-- The other context is the same, its tables and their packages in any order. -/
structure CompletionContext.Reorders (ctx ctx' : CompletionContext) : Prop where
  widgets : ctx.widgets = ctx'.widgets
  settings : ctx.settings = ctx'.settings
  resources : ctx.resources.Reorders ctx'.resources

theorem CompletionContext.Reorders.refl (ctx : CompletionContext) : ctx.Reorders ctx :=
  ⟨rfl, rfl, .refl _⟩

variable {matcher : Matcher} {widgets : WidgetIndex} {d : Document} {node offset : Nat}
  {s s' : Search} {order order' : Enumeration} {ctx ctx' : CompletionContext} {cursor : Cursor}

/-! ## Searching in any order -/

theorem targetsFor_perm {r r' : ResourceRegistry} (h : r.Reorders r') (uri space : String) :
    (targetsFor r uri space).Perm (targetsFor r' uri space) :=
  (h.packagesFor_perm uri).map _

/-- The same is searched for, in the same packages. -/
theorem Search.ofTyped_perm {r r' : ResourceRegistry} (h : r.Reorders r') (node : Nat)
    (typed : List Char) :
    (ofTyped d node r typed).needle = (ofTyped d node r' typed).needle ∧
      (ofTyped d node r typed).targets.Perm (ofTyped d node r' typed).targets := by
  have hfan : (fanOut d node r).Perm (fanOut d node r') :=
    List.Perm.flatMap_left _ fun bound _ => targetsFor_perm h bound.2 bound.1
  unfold ofTyped boundSearch?
  cases Text.splitFirst? ':' typed with
  | none => exact ⟨rfl, hfan⟩
  | some cut =>
    cases hbound : d.namespaceUri? node (String.ofList cut.1) with
    | none => simpa [hbound] using hfan
    | some uri => simpa [hbound] using targetsFor_perm h uri (String.ofList cut.1)

/-- In any two orders the same is found, as often. -/
theorem Search.candidatesBy_perm (order order' : Enumeration) (hneedle : s.needle = s'.needle)
    (htargets : s.targets.Perm s'.targets) :
    (s.candidatesBy order matcher widgets d node).Perm
      (s'.candidatesBy order' matcher widgets d node) := by
  refine (candidatesBy_perm_flatMap order s matcher widgets d node).trans ?_
  refine List.Perm.trans ?_ (candidatesBy_perm_flatMap order' s' matcher widgets d node).symm
  rw [hneedle]
  exact htargets.flatMap_right _

theorem withoutPresent_perm {l l' : List Candidate} (h : l.Perm l') (settings : CompletionSettings)
    (attributes : List Attribute) (current : Nat) :
    (withoutPresent settings attributes current l).Perm
      (withoutPresent settings attributes current l') := by
  unfold withoutPresent
  split
  · exact h.filter _
  · exact h

theorem unskippedBy_perm (h : ctx.Reorders ctx') (order order' : Enumeration) (matcher : Matcher)
    (d : Document) (cursor : Cursor) :
    (unskippedBy order ctx matcher d cursor).Perm (unskippedBy order' ctx' matcher d cursor) := by
  obtain ⟨hneedle, htargets⟩ := Search.ofTyped_perm (d := d) h.resources cursor.node cursor.typed
  unfold unskippedBy
  rw [h.settings, h.widgets]
  exact withoutPresent_perm (Search.candidatesBy_perm order order' hneedle htargets) _ _ _

/-! ## Sorting what was found -/

namespace Candidate

/-- A candidate without the format of its values. -/
def bare (c : Candidate) : Candidate :=
  { c with format := .empty }

end Candidate

theorem dropRepeats_map_bare (l : List Candidate) :
    dropRepeats (l.map bare) = (dropRepeats l).map bare := by
  induction l with
  | nil => rfl
  | cons c cs ih =>
    rw [List.map_cons, dropRepeats, dropRepeats, ih]
    cases dropRepeats cs with
    | nil => rfl
    | cons next rest =>
      have hsame : next.bare.sameAttribute c.bare = next.sameAttribute c := rfl
      simp only [List.map_cons, hsame]
      split <;> rfl

/-- Two candidates that a search finds are the same but for formats if they insert the same
attribute of the same package. -/
theorem bare_eq_of_sameAttribute (hd : d.Sound) {a b : Candidate}
    (ha : a ∈ unskippedBy order ctx matcher d cursor)
    (hb : b ∈ unskippedBy order ctx matcher d cursor)
    (h : a.sameAttribute b = true) : a.bare = b.bare := by
  have hquality := ((sameAttribute_iff_ties hd ha hb).mp h).1
  obtain ⟨hspace, hname, hpackage⟩ := sameAttribute_iff.mp h
  cases a
  cases b
  simp_all [bare]

/-- Two candidates that a search finds are the same but for formats if neither stands before the
other. -/
theorem bare_eq_of_precedes (hd : d.Sound) {a b : Candidate}
    (ha : a ∈ unskippedBy order ctx matcher d cursor)
    (hb : b ∈ unskippedBy order ctx matcher d cursor)
    (h : precedes a b = true) (h' : precedes b a = true) : a.bare = b.bare := by
  refine bare_eq_of_sameAttribute hd ha hb ((sameAttribute_iff_ties hd ha hb).mpr ?_)
  by_contra hne
  exact precedes_iff.mp h' (before_of_precedes h hne)

/-- Sorted, the candidates are the same in whatever order they were found, but for formats. -/
theorem sort_map_bare_eq (hd : d.Sound) {l : List Candidate}
    (h : (unskippedBy order ctx matcher d cursor).Perm l) :
    ((unskippedBy order ctx matcher d cursor).mergeSort precedes).map bare =
      (l.mergeSort precedes).map bare := by
  have hsorted : ∀ l : List Candidate,
      ((l.mergeSort precedes).map bare).Pairwise fun a b => precedes a b = true :=
    fun l => List.pairwise_map.mpr (pairwise_precedes_sort l)
  have hfound : ∀ a ∈ (l.mergeSort precedes).map bare,
      ∃ c ∈ unskippedBy order ctx matcher d cursor, c.bare = a := by
    intro a ha
    obtain ⟨c, hc, rfl⟩ := List.mem_map.mp ha
    exact ⟨c, h.mem_iff.mpr (List.mem_mergeSort.mp hc), rfl⟩
  have hperm := (((List.mergeSort_perm _ precedes).trans h).trans
    (List.mergeSort_perm l precedes).symm).map bare
  refine List.Perm.eq_of_pairwise (fun a b ha hb hab hba => ?_) (hsorted _) (hsorted l) hperm
  obtain ⟨x, hx, rfl⟩ := hfound a (hperm.mem_iff.mp ha)
  obtain ⟨y, hy, rfl⟩ := hfound b hb
  exact bare_eq_of_precedes hd hx hy hab hba

/-- Ranked, the candidates are the same in any two orders, but for formats. -/
theorem ranked_map_bare_eq (hd : d.Sound) (h : ctx.Reorders ctx') (settings : CompletionSettings)
    (order order' : Enumeration) (matcher : Matcher) (cursor : Cursor) :
    (ranked settings (unskippedBy order ctx matcher d cursor)).map bare =
      (ranked settings (unskippedBy order' ctx' matcher d cursor)).map bare := by
  have hsort := sort_map_bare_eq hd (unskippedBy_perm h order order' matcher d cursor)
  unfold ranked
  dsimp only
  split
  · rw [← dropRepeats_map_bare, ← dropRepeats_map_bare, hsort]
  · exact hsort

/-! ## The list -/

/-- What a completion says, apart from the format of its values. -/
def Candidate.outline (c : Candidate) : Quality × String × String × PackageName :=
  (c.quality, c.space, c.name, c.package)

/-- What a list of completions says, apart from formats. -/
def CompletionList.outline (list : CompletionList) :
    Bool × List (Quality × String × String × PackageName) :=
  (list.isIncomplete, list.items.map Candidate.outline)

/-- Lists that are the same but for formats are cut to lists that are the same but for formats. -/
theorem outline_eq_of_map_bare_eq {l l' : List Candidate} (h : l.map bare = l'.map bare)
    (limit : Nat) :
    CompletionList.outline ⟨l.take limit, decide (limit < l.length)⟩ =
      CompletionList.outline ⟨l'.take limit, decide (limit < l'.length)⟩ := by
  have hlength : l.length = l'.length := by simpa using congrArg List.length h
  have houtline : ∀ l : List Candidate, l.map outline = (l.map bare).map outline := by
    intro l
    rw [List.map_map]
    rfl
  unfold CompletionList.outline
  rw [hlength, List.map_take, List.map_take, houtline l, houtline l', h]

/--
**A request does not depend on the order in which things are found.**

Whatever the order in which tables are registered, packages are listed and styleables are gone
through, the list has the same completions in the same order, apart from formats, and tells the same
about what the limit cut off. The request that is made is one of these.
-/
theorem completeInBy_outline {text : String} (hparse : Document.parse text = .ok d)
    (h : ctx.Reorders ctx') (order order' : Enumeration) (offset : Nat) (matcher : Matcher) :
    (completeInBy order ctx d offset matcher).map CompletionList.outline =
        (completeInBy order' ctx' d offset matcher).map CompletionList.outline ∧
      completeInBy .asFound ctx d offset matcher = completeIn ctx d offset matcher := by
  refine ⟨?_, rfl⟩
  have hd := Document.sound_of_parse hparse
  cases hcursor : d.cursor? offset with
  | none =>
    rw [completeInBy_of_cursor?_eq_none hcursor, completeInBy_of_cursor?_eq_none hcursor]
  | some cursor =>
    rw [completeInBy_of_cursor? hcursor, completeInBy_of_cursor? hcursor, ← h.settings]
    have hranked := ranked_map_bare_eq hd h ctx.settings order order' matcher cursor
    exact congrArg Except.ok (outline_eq_of_map_bare_eq hranked ctx.settings.limit)

/-! ## A sample in two orders -/

/-- The class of the sample document, and one that it extends. -/
def extendedView : WidgetIndex := .ofList [⟨"lib.View", ["lib.Base"]⟩]

/-- A package that declares one attribute for both classes. -/
def packageOfTwo (name : String) (format : AttrFormat) : Package :=
  ((Package.empty ⟨name⟩).insertStyleable "View" [("icon", format)]).insertStyleable "Base"
    [("icon", ⟨2⟩)]

/-- Two tables for one namespace, one of them with two packages. -/
def twoTables : List ResourceTable :=
  [.ofPackages autoUri [packageOfTwo "lib" ⟨1⟩, packageOfTwo "app" ⟨4⟩],
    .ofPackages autoUri [packageOfTwo "lib" ⟨8⟩]]

/-- The same tables the other way around, and their packages, too. -/
def twoTablesBackwards : List ResourceTable :=
  [.ofPackages autoUri [packageOfTwo "lib" ⟨8⟩],
    .ofPackages autoUri [packageOfTwo "app" ⟨4⟩, packageOfTwo "lib" ⟨1⟩]]

/-- At most three completions, repetitions among them. -/
def threeAtMost : CompletionSettings := ⟨3, false, true⟩

theorem reorders_twoTables :
    CompletionContext.Reorders ⟨extendedView, .ofTables twoTables, threeAtMost⟩
      ⟨extendedView, .ofTables twoTablesBackwards, threeAtMost⟩ where
  widgets := rfl
  settings := rfl
  resources := by
    refine ⟨twoTables.reverse, (List.reverse_perm _).symm, ?_⟩
    refine .cons ⟨rfl, List.Perm.refl _⟩ (.cons ⟨rfl, ?_⟩ .nil)
    exact List.Perm.swap _ _ _

/-- The cut is inside a row of four candidates that tie. -/
theorem completeInBy_outline_twoTables :
    (completeInBy .backwards ⟨extendedView, .ofTables twoTables, threeAtMost⟩ sampleDocument 71
        .camelHumps).map CompletionList.outline =
      (completeInBy .asFound ⟨extendedView, .ofTables twoTablesBackwards, threeAtMost⟩
        sampleDocument 71 .camelHumps).map CompletionList.outline :=
  (completeInBy_outline parse_sampleText reorders_twoTables .backwards .asFound 71 .camelHumps).1

end LayoutCompletion
