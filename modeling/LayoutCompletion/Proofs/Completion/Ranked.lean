import LayoutCompletion.Proofs.Completion.Candidates
import LayoutCompletion.Proofs.Completion.Ranking

/-!
# The ranked list

A completion request makes one list, whatever its limit is, and the limit cuts it. Without
repetitions the list increases strictly; with them it is a sorted rearrangement of all candidates
(`completeInBy_ranked`). It does so in whatever order it finds them.

That neighbours are enough to find all repetitions rests on the document: a prefix that it declares
is not empty and has no colon, so the label tells the prefix from the name, and the quality follows
from the two.
-/

namespace LayoutCompletion

open Candidate

/-- The same request with another limit. -/
def CompletionContext.withLimit (ctx : CompletionContext) (limit : Nat) : CompletionContext :=
  { ctx with settings := { ctx.settings with limit := limit } }

/-- The candidates for a name under a cursor, found in this order, those left out that the element
has already. -/
def unskippedBy (order : Enumeration) (ctx : CompletionContext) (matcher : Matcher) (d : Document)
    (cursor : Cursor) : List Candidate :=
  withoutPresent ctx.settings (d.attributes cursor.node) cursor.index
    ((Search.ofTyped d cursor.node ctx.resources cursor.typed).candidatesBy order matcher
      ctx.widgets d cursor.node)

variable {order : Enumeration} {ctx : CompletionContext} {matcher : Matcher} {d : Document}
  {offset : Nat} {cursor : Cursor}

theorem completeInBy_of_cursor? (h : d.cursor? offset = some cursor) :
    completeInBy order ctx d offset matcher =
      .ok ⟨(ranked ctx.settings (unskippedBy order ctx matcher d cursor)).take ctx.settings.limit,
        decide (ctx.settings.limit <
          (ranked ctx.settings (unskippedBy order ctx matcher d cursor)).length)⟩ := by
  unfold completeInBy
  rw [h]
  dsimp only
  rw [CompletionList.ofCandidates_eq]
  rfl

theorem completeInBy_of_cursor?_eq_none (h : d.cursor? offset = none) :
    completeInBy order ctx d offset matcher = .error (.invalidRequest offset) := by
  unfold completeInBy
  rw [h]

theorem exists_cursor_of_completeInBy {list : CompletionList}
    (h : completeInBy order ctx d offset matcher = .ok list) :
    ∃ cursor, d.cursor? offset = some cursor := by
  cases hcursor : d.cursor? offset with
  | none =>
    rw [completeInBy_of_cursor?_eq_none hcursor] at h
    cases h
  | some cursor => exact ⟨cursor, rfl⟩

theorem mem_of_mem_unskippedBy {c : Candidate} (h : c ∈ unskippedBy order ctx matcher d cursor) :
    c ∈ (Search.ofTyped d cursor.node ctx.resources cursor.typed).candidatesBy order matcher
      ctx.widgets d cursor.node := by
  unfold unskippedBy withoutPresent at h
  split at h
  · exact (List.mem_filter.mp h).1
  · exact h

/-- The label of a candidate tells its prefix from its name. -/
theorem label_inj {a b : Candidate} (ha : Document.IsPrefix a.space)
    (hb : Document.IsPrefix b.space) (h : a.label = b.label) :
    a.space = b.space ∧ a.name = b.name := by
  unfold Candidate.label at h
  rw [qualify_of_isPrefix ha, qualify_of_isPrefix hb] at h
  have hlist := congrArg String.toList h
  have hcolon : ":".toList = [':'] := by decide
  -- neither prefix has a colon, so both labels are cut at the colon behind it
  simp only [String.toList_append, hcolon, List.append_assoc, List.singleton_append] at hlist
  obtain ⟨hspace, hname⟩ := split_unique ha.2 hb.2 hlist
  exact ⟨String.toList_inj.mp hspace, String.toList_inj.mp hname⟩

/-- The order tells candidates apart exactly if they insert different attributes. -/
theorem sameAttribute_iff_ties (hd : d.Sound) {a b : Candidate}
    (ha : a ∈ unskippedBy order ctx matcher d cursor)
    (hb : b ∈ unskippedBy order ctx matcher d cursor) :
    a.sameAttribute b = true ↔ Ties a b := by
  have ha := mem_of_mem_unskippedBy ha
  have hb := mem_of_mem_unskippedBy hb
  rw [sameAttribute_iff]
  constructor
  · rintro ⟨hspace, hname, hpackage⟩
    refine ⟨?_, ?_, hpackage⟩
    · rw [Search.quality_of_mem ha, Search.quality_of_mem hb, hspace, hname]
    · rw [Candidate.label, Candidate.label, hspace, hname]
  · rintro ⟨-, hlabel, hpackage⟩
    obtain ⟨hspace, hname⟩ :=
      label_inj (Search.isPrefix_of_mem hd ha) (Search.isPrefix_of_mem hd hb) hlabel
    exact ⟨hspace, hname, hpackage⟩

/-- With repetitions dropped, the ranked candidates increase strictly. -/
theorem pairwise_before_ranked (hd : d.Sound) {settings : CompletionSettings}
    (hdedup : settings.dedup = true) :
    (ranked settings (unskippedBy order ctx matcher d cursor)).Pairwise Before := by
  unfold ranked
  rw [hdedup, if_pos rfl]
  refine pairwise_before_dropRepeats (pairwise_precedes_sort _) fun a ha b hb => ?_
  rw [List.mem_mergeSort] at ha hb
  exact sameAttribute_iff_ties hd ha hb

theorem mem_of_mem_ranked {settings : CompletionSettings} {l : List Candidate} {c : Candidate}
    (h : c ∈ ranked settings l) : c ∈ l := by
  unfold ranked at h
  dsimp only at h
  split at h
  · exact List.mem_mergeSort.mp ((dropRepeats_sublist _).subset h)
  · exact List.mem_mergeSort.mp h

/-- Every candidate is ranked, or another one that inserts the same attribute is. -/
theorem exists_mem_ranked (settings : CompletionSettings) {l : List Candidate} {c : Candidate}
    (h : c ∈ l) : ∃ k ∈ ranked settings l, k.sameAttribute c = true := by
  unfold ranked
  dsimp only
  split
  · exact exists_mem_dropRepeats (List.mem_mergeSort.mpr h)
  · exact ⟨c, List.mem_mergeSort.mpr h, sameAttribute_self c⟩

/-- With repetitions dropped, the ranked candidates insert different attributes. -/
theorem nodup_ranked (hd : d.Sound) {settings : CompletionSettings}
    (hdedup : settings.dedup = true) :
    ((ranked settings (unskippedBy order ctx matcher d cursor)).map fun c =>
      (c.space, c.name, c.package)).Nodup := by
  refine List.pairwise_map.mpr ((pairwise_before_ranked hd hdedup).imp_of_mem
    fun {a b} ha hb hbefore heq => ?_)
  simp only [Prod.mk.injEq] at heq
  have hties := (sameAttribute_iff_ties hd (mem_of_mem_ranked ha) (mem_of_mem_ranked hb)).mp
    (sameAttribute_iff.mpr heq)
  exact hbefore.not_ties hties

/--
**A request makes one ranked list, and the limit cuts it.**

With repetitions dropped the list increases strictly, has no attribute twice and leaves none out;
with them it is a sorted rearrangement of the candidates. This is so in whatever order the
candidates are found.
-/
theorem completeInBy_ranked {text : String} {list : CompletionList}
    (hparse : Document.parse text = .ok d)
    (hok : completeInBy order ctx d offset matcher = .ok list) :
    ∃ (cursor : Cursor) (l : List Candidate), d.cursor? offset = some cursor ∧
      (∀ limit, completeInBy order (ctx.withLimit limit) d offset matcher =
        .ok ⟨l.take limit, decide (limit < l.length)⟩) ∧
      (ctx.settings.dedup = true →
        l.Pairwise Before ∧ (l.map fun c => (c.space, c.name, c.package)).Nodup ∧
        (∀ c ∈ l, c ∈ unskippedBy order ctx matcher d cursor) ∧
        ∀ c ∈ unskippedBy order ctx matcher d cursor, ∃ k ∈ l,
          k.space = c.space ∧ k.name = c.name ∧ k.package = c.package) ∧
      (ctx.settings.dedup = false →
        l.Pairwise (fun a b => ¬Before b a) ∧
          l.Perm (unskippedBy order ctx matcher d cursor)) := by
  have hd := Document.sound_of_parse hparse
  obtain ⟨cursor, hcursor⟩ := exists_cursor_of_completeInBy hok
  refine ⟨cursor, ranked ctx.settings (unskippedBy order ctx matcher d cursor), hcursor,
    fun limit => ?_, fun hdedup => ?_, fun hdedup => ?_⟩
  · exact completeInBy_of_cursor? hcursor
  · refine ⟨pairwise_before_ranked hd hdedup, nodup_ranked hd hdedup,
      fun c => mem_of_mem_ranked, fun c hc => ?_⟩
    obtain ⟨k, hk, hsame⟩ := exists_mem_ranked ctx.settings hc
    exact ⟨k, hk, sameAttribute_iff.mp hsame⟩
  · unfold ranked
    rw [hdedup]
    exact ⟨(pairwise_precedes_sort _).imp fun h => precedes_iff.mp h, List.mergeSort_perm _ _⟩

/-! ## A sample -/

/-- An element that has one attribute of three, and of another the first letter. -/
def sampleText : String :=
  "<lib.View xmlns:a=\x22http://schemas.android.com/apk/res-auto\x22 a:id=\x22\x22 a:i=\x22\x22/>"

def sampleDocument : Document :=
  Document.ofTokens (Markup.tokens sampleText.toList).tokens

def sampleContext : CompletionContext where
  widgets := .empty
  resources := .ofTables [⟨autoUri, Dictionary.ofList [(⟨"lib"⟩,
    (Package.empty ⟨"lib"⟩).insertStyleable "View"
      [("inset", ⟨8⟩), ("id", ⟨1⟩), ("icon", ⟨1⟩), ("inset", ⟨4⟩)])]⟩]
  settings := .default

theorem sampleDocument_eq : sampleDocument = ⟨#[{
    tag := "lib.View"
    span := ⟨0, 76⟩
    attributes := [⟨"xmlns", "a", autoUri, ⟨10, 17⟩, ⟨10, 59⟩⟩,
      ⟨"a", "id", "", ⟨60, 64⟩, ⟨60, 67⟩⟩, ⟨"a", "i", "", ⟨68, 71⟩, ⟨68, 74⟩⟩]
    parent := none
    children := [] }]⟩ := by
  decide +kernel

theorem parse_sampleText : Document.parse sampleText = .ok sampleDocument := by
  refine Document.parseChars_eq_ok ?_
  show 0 < sampleDocument.size
  rw [sampleDocument_eq]
  decide

theorem cursor?_sampleDocument :
    sampleDocument.cursor? 71 = some ⟨0, 2, ['a', ':', 'i']⟩ := by
  rw [sampleDocument_eq]
  decide

/-- The order opposite to the one in which styleables were found. -/
def Enumeration.backwards : Enumeration where
  arrange _ set := ⟨set.groups.entries.reverse,
    ((List.reverse_perm _).map Prod.fst).nodup_iff.mpr set.groups.nodup⟩
  perm _ _ := List.reverse_perm _

theorem completeInBy_ranked_sample :
    ∃ l : List Candidate, (∀ limit,
      completeInBy .backwards (sampleContext.withLimit limit) sampleDocument 71 =
        .ok ⟨l.take limit, decide (limit < l.length)⟩) ∧ l.Pairwise Before := by
  obtain ⟨_, l, -, hlimit, hdedup, -⟩ :=
    completeInBy_ranked parse_sampleText (completeInBy_of_cursor? cursor?_sampleDocument)
  exact ⟨l, hlimit, (hdedup rfl).1⟩

end LayoutCompletion
