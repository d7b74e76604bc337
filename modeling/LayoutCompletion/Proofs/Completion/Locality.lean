import LayoutCompletion.Proofs.Completion.Continuing
import LayoutCompletion.Proofs.Completion.EntryPoints
import LayoutCompletion.Proofs.Completion.MarkedTag
import LayoutCompletion.Proofs.Document.StartTags
import LayoutCompletion.Proofs.Text.Lines

/-!
# What stands behind a start tag

Completion in a start tag that is closed does not depend on what stands behind the tag
(`completeBy_local`). With the marker in it, the tag is read to its end or breaks off, or it has no
name, but what becomes of it is settled within the tag. So requests for two texts that differ behind
it differ no more than two for one text do, which may go through styleables in two orders.

There is one exception. If the marker takes the name from the tag of the root, the request fails,
and the failure is given a place. It is found by row and column, rows being taken for lines. Where
they give no place, the length of the text is taken in its stead, and that does depend on what
stands behind the tag (`complete_not_local`).
-/

namespace LayoutCompletion

open Markup Markup.Scan Text

/-! ## Cuts and places -/

/-- A cut in the first part of a text is the one that would be made without the second. -/
theorem splitAtByte?_append_left {as : List Char} {n : Nat} (h : n ≤ utf8Length as)
    (bs : List Char) :
    splitAtByte? (as ++ bs) n =
      (splitAtByte? as n).map fun (head, tail) => (head, tail ++ bs) := by
  induction as generalizing n with
  | nil =>
    obtain rfl : n = 0 := Nat.le_zero.mp h
    simp
  | cons c as ih =>
    cases n with
    | zero => simp
    | succ n =>
      rw [List.cons_append, splitAtByte?, splitAtByte?]
      split
      · rw [utf8Length_cons] at h
        rw [ih (by omega), Option.map_map, Option.map_map]
        rfl
      · rfl

/-- A cut between the two brackets of a start tag cuts what stands between them. -/
theorem exists_cut_in_tag {front tag rest head behind : List Char}
    (h : front ++ '<' :: (tag ++ rest) = head ++ behind)
    (hlo : utf8Length front < utf8Length head)
    (hhi : utf8Length head < utf8Length (front ++ '<' :: tag)) :
    ∃ left right, tag = left ++ right ∧ right ≠ [] ∧ head = front ++ '<' :: left := by
  have hbracket : '<'.utf8Size = 1 := by decide
  simp only [utf8Length_append, utf8Length_cons] at hhi
  have hcut : (front ++ ['<']) ++ (tag ++ rest) = head ++ behind := by simp [← h]
  have hfront : utf8Length (front ++ ['<']) ≤ utf8Length head := by
    simp only [utf8Length_append, utf8Length_cons, utf8Length_nil]
    omega
  have htag : utf8Length head ≤ utf8Length (front ++ ['<']) + utf8Length tag := by
    simp only [utf8Length_append, utf8Length_cons, utf8Length_nil]
    omega
  obtain ⟨left, right, rfl, rfl, -⟩ := exists_cut hcut hfront htag
  refine ⟨left, right, rfl, ?_, by simp⟩
  rintro rfl
  simp only [utf8Length_append, utf8Length_cons, utf8Length_nil] at hhi
  omega

/-- The row and the column of a place, taken for a line and a character. -/
def Markup.Place.asPosition (place : Place) : Position :=
  ⟨place.row - 1, place.column - 1⟩

/-- Taken for a line and a character, the place behind the front is none of the text. -/
def Unplaced (front text : List Char) : Prop :=
  (Place.advance ⟨1, 1⟩ front).asPosition.toOffset? text = none

/-- In any order of styleables, the request fails with a message, and the end of the text with the
marker is given as the place of the failure. -/
def FailsAtEnd (ctx : CompletionContext) (matcher : Matcher) (text : String) (offset : Nat)
    (message : String) : Prop :=
  ∃ request, CompletionRequest.prepare text offset = .ok request ∧ ∀ order,
    completeBy order ctx text offset matcher =
      .error (.malformed ⟨message, utf8Length request.text⟩)

/-- Where a start tag is placed in this way does not depend on how the text goes on behind its first
bracket. -/
theorem toOffset?_openTag (front tag tag' : List Char) :
    (Place.advance ⟨1, 1⟩ front).asPosition.toOffset? (front ++ '<' :: tag) =
      (Place.advance ⟨1, 1⟩ front).asPosition.toOffset? (front ++ '<' :: tag') := by
  have hbracket : '<' ≠ '\n' := by decide
  exact toOffset?_advance hbracket hbracket tag tag'

theorem offsetOfPlace_openTag (front tag tag' : List Char) :
    Document.offsetOfPlace (front ++ '<' :: tag) (Place.advance ⟨1, 1⟩ front) =
      ((Place.advance ⟨1, 1⟩ front).asPosition.toOffset? (front ++ '<' :: tag')).getD
        (utf8Length (front ++ '<' :: tag)) := by
  rw [toOffset?_openTag front tag' tag]
  rfl

/-! ## Requests in a start tag -/

section
variable {cs rest left right tail : List Char} {before : List Token} {m : Mode} {depth : Nat}
  {name : QualifiedName}

/-- What stands behind the tag stands behind the tag with the marker. -/
theorem prepareChars_in_tag (hrest : TagRest rest) (hcut : name.text ++ rest = left ++ right)
    (hne : right ≠ []) (front behind : List Char) :
    CompletionRequest.prepareChars (front ++ '<' :: (name.text ++ (rest ++ behind)))
        (utf8Length (front ++ '<' :: left)) =
      .ok ⟨front ++ '<' :: (CompletionRequest.splice left right ++ behind),
        utf8Length (front ++ '<' :: left)⟩ := by
  have hbracket : '>' ∈ right := by
    obtain ⟨inner, rfl⟩ := hrest.exists_bracket
    have hlast := congrArg List.getLast? hcut
    rw [← List.append_assoc, List.getLast?_concat, List.getLast?_append,
      List.getLast?_eq_some_getLast hne, Option.some_or] at hlast
    rw [Option.some.inj hlast]
    exact List.getLast_mem hne
  have htext : front ++ '<' :: (name.text ++ (rest ++ behind)) =
      (front ++ '<' :: left) ++ (right ++ behind) := by
    rw [← List.append_assoc name.text, hcut]
    simp
  have hsplit : front ++ '<' :: left = (front ++ ['<']) ++ left := by simp
  rw [htext, prepareChars_append, splice_append_right hbracket, hsplit, splice_append_left]
  simp

theorem utf8Length_left_le (left right : List Char) :
    utf8Length left ≤ utf8Length (CompletionRequest.splice left right) := by
  unfold CompletionRequest.splice
  simp only [utf8Length_append]
  omega

/-- Requests in a start tag to which reading comes. -/
theorem completeCharsBy_in_tag (hreads : ReadsText cs before m ('<' :: tail))
    (hm : m.around? = some depth) (hn : name.Valid) (hrest : TagRest rest)
    (hcut : name.text ++ rest = left ++ right) (hne : right ≠ []) (x y : List Char)
    (ctx : CompletionContext) (matcher : Matcher) :
    (∀ order, completeCharsBy order ctx (textOf before ++ '<' :: (name.text ++ (rest ++ x)))
        (utf8Length (textOf before ++ '<' :: left)) matcher =
      completeCharsBy order ctx (textOf before ++ '<' :: (name.text ++ (rest ++ y)))
        (utf8Length (textOf before ++ '<' :: left)) matcher) ∨
    ((Document.ofTokens before).size = 0 ∧
      (∀ tag, Unplaced (textOf before) (textOf before ++ '<' :: tag)) ∧
      ∀ behind order,
        completeCharsBy order ctx (textOf before ++ '<' :: (name.text ++ (rest ++ behind)))
            (utf8Length (textOf before ++ '<' :: left)) matcher =
          .error (.malformed ⟨noNameMessage (Place.advance ⟨1, 1⟩ (textOf before)), utf8Length
            (textOf before ++ '<' :: (CompletionRequest.splice left right ++ behind))⟩)) := by
  obtain ⟨word, rest', hsplice, hopening⟩ := exists_opening hn hrest hcut hne
  have hprepare := prepareChars_in_tag hrest hcut hne (textOf before)
  have hlength := utf8Length_left_le left right
  have htext (behind : List Char) :
      textOf before ++ ('<' :: word ++ (rest' ++ behind)) =
        textOf before ++ '<' :: (CompletionRequest.splice left right ++ behind) := by
    rw [hsplice]
    simp
  unfold completeCharsBy
  simp only [hprepare]
  rcases sameUpTo_of_opening hopening hm hreads x y with
    ⟨d, d', hd, hd', hsame⟩ | ⟨hempty, hfailed⟩
  · rw [htext] at hd hd'
    rw [hd, hd']
    refine Or.inl fun order => hsame _ ?_ order ctx matcher
    rw [hsplice] at hlength
    simp only [utf8Length_append, utf8Length_cons, List.cons_append] at hlength ⊢
    omega
  · simp only [htext, offsetOfPlace_openTag _ _ []] at hfailed
    simp only [hfailed]
    cases hplace : (Place.advance ⟨1, 1⟩ (textOf before)).asPosition.toOffset?
        (textOf before ++ ['<']) with
    | some place => exact Or.inl fun _ => rfl
    | none =>
      refine Or.inr ⟨hempty, fun tag => ?_, fun _ _ => rfl⟩
      exact (toOffset?_openTag _ tag []).trans hplace

end

/-- In one order of the styleables, the outcome in a start tag is the same whatever the text goes on
with, unless there is no document. -/
theorem completeBy_eq_of_tag {a x : String} {d : Document} {node offset : Nat} {s : Span}
    {front rest : List Char} (hparse : Document.parse (a ++ x) = .ok d)
    (hspan : d.span? node = some s) (hclosed : a.toList = front ++ '>' :: rest)
    (hstop : s.stop = utf8Length front + 1) (hlo : s.start < offset) (hhi : offset < s.stop)
    (y : String) (ctx : CompletionContext) (matcher : Matcher) :
    (∀ order, completeBy order ctx (a ++ x) offset matcher =
        completeBy order ctx (a ++ y) offset matcher) ∨
      (node = 0 ∧ ∃ before tag, a.toList = before ++ '<' :: tag ∧ utf8Length before = s.start ∧
        Unplaced before a.toList ∧
        ∀ z, FailsAtEnd ctx matcher (a ++ z) offset
          (noNameMessage (Place.advance ⟨1, 1⟩ before))) := by
  obtain rfl := Document.eq_of_parseChars hparse
  have hcs : (a ++ x).toList = front ++ '>' :: (rest ++ x.toList) := by
    rw [String.toList_append, hclosed, List.append_assoc, List.cons_append]
  obtain ⟨before, m, name, tagRest, depth, htag, hstart, hsize, hn, hrest, hm, hreads⟩ :=
    exists_startTag hspan hcs hstop
  have ha : a.toList = textOf before ++ '<' :: (name.text ++ (tagRest ++ rest)) := by
    have hfront : a.toList = (front ++ ['>']) ++ rest := by simp [hclosed]
    rw [hfront, htag]
    simp
  have htext (z : String) : (a ++ z).toList =
      textOf before ++ '<' :: (name.text ++ (tagRest ++ (rest ++ z.toList))) := by
    rw [String.toList_append, ha]
    simp
  have hstop' : s.stop = utf8Length (textOf before ++ '<' :: (name.text ++ tagRest)) := by
    have hbracket : utf8Length ['>'] = 1 := by decide
    rw [hstop, ← htag, utf8Length_append, hbracket]
  rw [hstart] at hlo
  rw [hstop'] at hhi
  cases hcut : splitAtByte? a.toList offset with
  | none =>
    -- inside a character no request can be made
    have hle : offset ≤ utf8Length a.toList := by
      rw [ha]
      simp only [utf8Length_append, utf8Length_cons] at hhi ⊢
      omega
    have herror (order : Enumeration) (z : String) :
        completeBy order ctx (a ++ z) offset matcher = .error (.invalidRequest offset) := by
      refine completeCharsBy_eq_error ?_
      rw [String.toList_append, splitAtByte?_append_left hle, hcut, Option.map_none]
    exact Or.inl fun order => (herror order x).trans (herror order y).symm
  | some cut =>
    obtain ⟨head, behind⟩ := cut
    obtain ⟨hsplit, rfl⟩ := append_of_splitAtByte? hcut
    rw [ha, ← List.append_assoc name.text] at hsplit
    obtain ⟨left, right, htagcut, hne, rfl⟩ := exists_cut_in_tag hsplit hlo hhi
    have hrequest (z : String) := prepareChars_in_tag hrest htagcut hne (textOf before)
      (rest ++ z.toList)
    have hcases := completeCharsBy_in_tag hreads hm hn hrest htagcut hne (rest ++ x.toList)
      (rest ++ y.toList) ctx matcher
    unfold FailsAtEnd completeBy
    simp only [htext]
    refine hcases.imp_right fun ⟨hempty, hplace, hfailed⟩ => ?_
    refine ⟨hsize.symm.trans hempty, _, _, ha, hstart.symm, ?_, fun z => ?_⟩
    · rw [ha]
      exact hplace _
    · refine ⟨_, (congrArg (CompletionRequest.prepareChars · _) (htext z)).trans (hrequest z), ?_⟩
      exact hfailed _

/--
**Text behind the start tag has no influence.**

The start tag of an element is closed within the first part of a text, and the place is strictly
between its two brackets, wherever it lies there. Then a request at the place has the same outcome
whatever the text goes on with, errors included: equal in one order of the styleables, and equal but
for formats that the styleables do not settle if each request has an order of its own. The one
exception is a root element whose tag has no name once the marker is in it, if the row and the
column of the tag are no position in the text: then every request fails with the same message, but
at the end of its own text.
-/
theorem completeBy_local {a x y : String} {d : Document} {node offset : Nat} {s : Span}
    {front rest : List Char} (hparse : Document.parse (a ++ x) = .ok d)
    (hspan : d.span? node = some s) (hclosed : a.toList = front ++ '>' :: rest)
    (hstop : s.stop = utf8Length front + 1) (hlo : s.start < offset) (hhi : offset < s.stop)
    (order order' : Enumeration) (ctx : CompletionContext) (matcher : Matcher) :
    (completeBy order ctx (a ++ x) offset matcher = completeBy order ctx (a ++ y) offset matcher ∧
        AlikeIn ctx (a ++ x) offset (completeBy order ctx (a ++ x) offset matcher)
          (completeBy order' ctx (a ++ y) offset matcher)) ∨
      (node = 0 ∧ ∃ before tag, a.toList = before ++ '<' :: tag ∧ utf8Length before = s.start ∧
        Unplaced before a.toList ∧
        ∀ z, FailsAtEnd ctx matcher (a ++ z) offset
          (noNameMessage (Place.advance ⟨1, 1⟩ before))) := by
  refine (completeBy_eq_of_tag hparse hspan hclosed hstop hlo hhi y ctx matcher).imp_left
    fun hsame => ⟨hsame order, ?_⟩
  rw [← hsame order']
  exact completeBy_alike order order' ctx (a ++ x) offset matcher

/-- A start tag with a value, in which a request may be made. -/
def closedTag : String := "<v a=\x27b\x27>"

theorem completeBy_local_closedTag :
    complete sampleContext (closedTag ++ "") 7 = complete sampleContext (closedTag ++ "<<") 7 ∧
      AlikeIn sampleContext (closedTag ++ "") 7 (complete sampleContext (closedTag ++ "") 7)
        (completeBy .backwards sampleContext (closedTag ++ "<<") 7) := by
  have hparse : Document.parse (closedTag ++ "") =
      .ok (Document.ofTokens (tokens (closedTag ++ "").toList).tokens) :=
    eq_ok_of_toOption (by decide +kernel)
  have hspan : (Document.ofTokens (tokens (closedTag ++ "").toList).tokens).span? 0 =
      some ⟨0, 9⟩ := by decide +kernel
  have hclosed : closedTag.toList = "<v a=\x27b\x27".toList ++ '>' :: [] := by decide
  have hplaced : ¬Unplaced [] closedTag.toList := by
    unfold Unplaced
    decide +kernel
  refine (completeBy_local hparse hspan hclosed (by decide) (by decide) (by decide) .asFound
    .backwards sampleContext .camelHumps).resolve_right ?_
  rintro ⟨-, before, _, _, hbefore, hunplaced, -⟩
  obtain rfl : before = [] := eq_nil_of_utf8Length hbefore
  exact hplaced hunplaced

/-- A tag with a name that is none behind the marker, on the second line and in the first row. -/
def misplacedTag : String := "<!--\r--><p:\u20ac/>"

/-- Behind such a tag, one more character makes a difference. -/
theorem complete_not_local :
    ¬∀ (a x y : String) (d : Document) (node offset : Nat) (s : Span) (front rest : List Char),
      Document.parse (a ++ x) = .ok d → d.span? node = some s →
      a.toList = front ++ '>' :: rest → s.stop = utf8Length front + 1 →
      s.start < offset → offset < s.stop → ∀ (ctx : CompletionContext) (matcher : Matcher),
        complete ctx (a ++ x) offset matcher = complete ctx (a ++ y) offset matcher := by
  intro hall
  have hparse : Document.parse (misplacedTag ++ "") =
      .ok (Document.ofTokens (tokens (misplacedTag ++ "").toList).tokens) :=
    eq_ok_of_toOption (by decide +kernel)
  have hspan : (Document.ofTokens (tokens (misplacedTag ++ "").toList).tokens).span? 0 =
      some ⟨8, 16⟩ := by decide +kernel
  have hclosed : misplacedTag.toList = "<!--\r--><p:\u20ac/".toList ++ '>' :: [] := by decide
  have hsame := hall misplacedTag "" "\n" _ 0 9 _ _ _ hparse hspan hclosed (by decide) (by decide)
    (by decide) sampleContext .camelHumps
  let place : Except CompletionError CompletionList → Nat
    | .error e => e.offset
    | .ok _ => 0
  have hplace : place (complete sampleContext (misplacedTag ++ "") 9) = 36 := by decide +kernel
  have hplace' : place (complete sampleContext (misplacedTag ++ "\n") 9) = 37 := by decide +kernel
  rw [hsame, hplace'] at hplace
  exact absurd hplace (by decide)

end LayoutCompletion
