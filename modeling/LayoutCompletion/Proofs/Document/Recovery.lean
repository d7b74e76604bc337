import LayoutCompletion.Proofs.Document.Extending
import LayoutCompletion.Proofs.Document.Places

/-!
# What a damaged text keeps

A document is the fold over the tokens before the first failure, and there is one unless the failure
comes before any element. So damage behind a start tag does not reach the element: whatever the text
goes on with, the elements whose start tags are closed in its unchanged part are the first ones of
the document, and only their children may be others (`parse_keeps`).

They are the first ones because a start tag is read to its end before another one is opened. All
start tags but the one that is being read end with their brackets (`Builder.closed_push`).
-/

namespace LayoutCompletion

open Markup Text

/-! ## Closed start tags -/

/-- A bracket stands in the text where the place ends. -/
def Span.ClosedIn (s : Span) (text : List Char) : Prop :=
  ∃ front behind, text = front ++ '>' :: behind ∧ s.stop = utf8Length front + 1

theorem Span.ClosedIn.append {s : Span} {text : List Char} (h : s.ClosedIn text)
    (more : List Char) : s.ClosedIn (text ++ more) := by
  obtain ⟨front, behind, rfl, hstop⟩ := h
  exact ⟨front, behind ++ more, by simp, hstop⟩

theorem utf8Length_concat_bracket (front : List Char) :
    utf8Length (front ++ ['>']) = utf8Length front + 1 := by
  have hbracket : utf8Length ['>'] = 1 := by decide
  rw [utf8Length_append, hbracket]

/-- A bracket in a part of the text that is long enough is in the part. -/
theorem Span.ClosedIn.of_append {s : Span} {text more : List Char} (h : s.ClosedIn (text ++ more))
    (hle : s.stop ≤ utf8Length text) : s.ClosedIn text := by
  obtain ⟨front, behind, hsplit, hstop⟩ := h
  have hfront : (front ++ ['>']) ++ behind = text ++ more := by simp [hsplit]
  obtain ⟨mid, rfl⟩ := exists_append_of_utf8Length_le hfront (by
    rw [utf8Length_concat_bracket]
    omega)
  exact ⟨front, mid, by simp, hstop⟩

theorem Span.ClosedIn.stop_le {s : Span} {text : List Char} (h : s.ClosedIn text) :
    s.stop ≤ utf8Length text := by
  obtain ⟨front, behind, rfl, hstop⟩ := h
  have hbracket : '>'.utf8Size = 1 := by decide
  rw [hstop, utf8Length_append, utf8Length_cons, hbracket]
  omega

/-- The start tag of the element is closed in the text. -/
def Document.ClosedIn (d : Document) (text : List Char) (node : Nat) : Prop :=
  ∃ s, d.span? node = some s ∧ s.ClosedIn text

namespace Builder

variable {m n : Mode} {b : Builder} {t : Token} {ts : List Token} {read : List Char} {node : Nat}

/-- All start tags that have been read to their ends are closed in the text that has been read. -/
def Closed (m : Mode) (b : Builder) (read : List Char) : Prop :=
  ∀ node, Settled m b node → b.document.ClosedIn read node

theorem closed_empty : Closed .start empty [] := by
  rintro node ⟨hlt, -⟩
  exact absurd hlt (Nat.not_lt_zero node)

/-- The start tag that is open ends with the token that closes it. -/
theorem closedIn_push_tagEnd (hfits : Fits m b) (hin : b.InTag node)
    (hoffset : b.offset = utf8Length read) (lead : List Char) (selfClosing : Bool) :
    (b.push (.tagEnd lead selfClosing)).document.ClosedIn
      (read ++ (Token.tagEnd lead selfClosing).text) node := by
  obtain ⟨s, hs⟩ := hin.exists_span?
  obtain ⟨front, htext⟩ : ∃ front, (Token.tagEnd lead selfClosing).text = front ++ ['>'] := by
    cases selfClosing with
    | false => exact ⟨lead, rfl⟩
    | true => exact ⟨lead ++ ['/'], by simp [Token.text]⟩
  refine ⟨_, span?_push_part hfits hin hs rfl, read ++ front, [], by simp [htext], ?_⟩
  rw [offset_push, hoffset, htext, ← utf8Length_append, ← List.append_assoc,
    utf8Length_concat_bracket]

/-- One token keeps all closed start tags closed. -/
theorem closed_push (h : Closed m b read) (hfits : Fits m b) (hadm : m.Admits t n)
    (hoffset : b.offset = utf8Length read) : Closed n (b.push t) (read ++ t.text) := by
  intro node hnode
  by_cases hold : Settled m b node
  · obtain ⟨s, hs, hclosed⟩ := h node hold
    exact ⟨s, (span?_push_settled hfits hold hadm).trans hs, hclosed.append t.text⟩
  by_cases hnew : b.document.size ≤ node
  · -- a new start tag is open
    obtain ⟨rfl, name, rfl⟩ := exists_openTag_of_lt hnew hnode.1
    obtain ⟨depth, rfl⟩ : ∃ depth, n = .tag depth := by
      cases hadm with
      | root => exact ⟨_, rfl⟩
      | child => exact ⟨_, rfl⟩
    exact absurd (inTag_push_openTag b name) (hnode.2 depth rfl)
  · -- the start tag has been open so far
    have hlt := Nat.lt_of_not_le hnew
    obtain ⟨depth, rfl, hin⟩ : ∃ depth, m = .tag depth ∧ b.InTag node := by
      refine Classical.byContradiction fun hnone => hold ⟨hlt, fun depth hm hin => ?_⟩
      exact hnone ⟨depth, hm, hin⟩
    have hpart := hadm.isTagPart_of_tag
    rcases t with _ | _ | ⟨lead, name, equals, q, value⟩ | ⟨lead, selfClosing⟩ | _
    · cases hpart
    · cases hpart
    · cases hadm
      exact absurd (hin.push_attribute lead name equals q value) (hnode.2 depth rfl)
    · exact closedIn_push_tagEnd hfits hin hoffset lead selfClosing
    · cases hpart

/-- A run of tokens keeps all closed start tags closed. -/
theorem closed_after (h : Closed m b read) (hfits : Fits m b) (hruns : m.Runs ts n)
    (hoffset : b.offset = utf8Length read) : Closed n (b.after ts) (read ++ textOf ts) := by
  induction hruns generalizing b read with
  | nil =>
    rw [textOf_nil, List.append_nil]
    exact h
  | cons hadm hwf _ ih =>
    rw [textOf_cons, ← List.append_assoc]
    refine ih (closed_push h hfits hadm hoffset) (hfits.push hadm hwf) ?_
    rw [offset_push, hoffset, utf8Length_append]

end Builder

namespace Document

variable {d d' : Document} {node i : Nat} {a x : String}

/-- Only the last start tag of a document may not be closed. -/
theorem closedIn_of_parse {text : String} (h : parse text = .ok d) (hlt : node + 1 < d.size) :
    d.ClosedIn text.toList node := by
  obtain ⟨n, rest, hreads⟩ := readsText_tokens text.toList
  have hclosed := Builder.closed_after Builder.closed_empty Builder.fits_empty hreads.runs rfl
  rw [eq_of_parseChars h, Builder.ofTokens_eq] at hlt ⊢
  have hsettled : Builder.Settled n (Builder.empty.after (tokens text.toList).tokens) node := by
    refine ⟨Nat.lt_of_succ_lt hlt, fun depth _ hin => ?_⟩
    rw [hin.1] at hlt
    exact Nat.lt_irrefl _ hlt
  obtain ⟨s, hs, hin⟩ := hclosed node hsettled
  refine ⟨s, hs, ?_⟩
  rw [hreads.text]
  exact hin.append rest

theorem ClosedIn.lt_size {text : List Char} (h : d.ClosedIn text node) : node < d.size := by
  obtain ⟨s, hs, -⟩ := h
  exact Builder.lt_size_of_span? hs

/-- With a start tag, all before it are closed in a part of the text. -/
theorem ClosedIn.of_le (h : d.ClosedIn a.toList node) (hparse : parse (a ++ x) = .ok d)
    (hle : i ≤ node) : d.ClosedIn a.toList i := by
  rcases Nat.eq_or_lt_of_le hle with rfl | hlt
  · exact h
  · have hsize := h.lt_size
    obtain ⟨s, hs, hclosed⟩ := h
    have hbehind : i + 1 < d.size := by omega
    obtain ⟨s', hs', hclosed'⟩ := closedIn_of_parse hparse hbehind
    have hplaced := placedIn_of_parse hparse
    have hbefore := hplaced.apart i node hlt s' s hs' hs
    have hspan := (hplaced.span node s hs).1
    have hstop := hclosed.stop_le
    rw [String.toList_append] at hclosed'
    exact ⟨s', hs', hclosed'.of_append (by omega)⟩

/-! ## Elements that are kept -/

/-- The element is the same in both documents, apart from its children. -/
structure SameElement (d d' : Document) (node : Nat) : Prop where
  tag : d'.tag node = d.tag node
  span : d'.span? node = d.span? node
  attributes : d'.attributes node = d.attributes node
  parent : d'.parent? node = d.parent? node

theorem SameElement.closedIn {text : List Char} (h : SameElement d d' node)
    (hclosed : d.ClosedIn text node) : d'.ClosedIn text node := by
  obtain ⟨s, hs, hin⟩ := hclosed
  exact ⟨s, h.span.trans hs, hin⟩

/-- What was read up to the end of a start tag is in both documents. -/
theorem Extends.sameElement {stop : Nat} {read : Document} (h : Extends stop read d)
    (h' : Extends stop read d') (hlt : node < read.size) : SameElement d d' node where
  tag := (h'.tag node hlt).trans (h.tag node hlt).symm
  span := (h'.span node hlt).trans (h.span node hlt).symm
  attributes := (h'.attributes node hlt).trans (h.attributes node hlt).symm
  parent := (h'.parent node hlt).trans (h.parent node hlt).symm

/-- A closed start tag and those before it are kept, whatever the text goes on with. -/
theorem exists_sameElement (hparse : parse (a ++ x) = .ok d) (h : d.ClosedIn a.toList node)
    (y : String) :
    ∃ d', parse (a ++ y) = .ok d' ∧ ∀ i ≤ node, SameElement d d' i := by
  obtain ⟨s, hs, front, behind, ha, hstop⟩ := h
  obtain rfl := eq_of_parseChars hparse
  have htext (z : String) : (a ++ z).toList = front ++ '>' :: (behind ++ z.toList) := by
    rw [String.toList_append, ha, List.append_assoc, List.cons_append]
  obtain ⟨before, m, name, rest, depth, hfront, -, hsize, hn, hrest, hm, hreads⟩ :=
    exists_startTag hs (htext x) hstop
  obtain ⟨ts, n, hn', hopen⟩ := reads_startTag hn hrest hm
  have hread (z : String) :
      ReadsText (a ++ z).toList (before ++ .openTag name :: ts) n (behind ++ z.toList) := by
    have hsplit : (a ++ z).toList =
        textOf before ++ ('<' :: name.text ++ (rest ++ (behind ++ z.toList))) := by
      have hall : front ++ '>' :: (behind ++ z.toList) =
          (front ++ ['>']) ++ (behind ++ z.toList) := by simp
      rw [htext, hall, hfront]
      simp
    have hopened : ReadsText (textOf before ++ ('<' :: name.text ++
        (rest ++ (behind ++ z.toList)))) before m
          ('<' :: name.text ++ (rest ++ (behind ++ z.toList))) := hreads.replace rfl
    rw [hsplit]
    exact hopened.append (hopen _)
  have hlt : node < (ofTokens (before ++ .openTag name :: ts)).size := by
    rw [Builder.ofTokens_eq, Builder.after_append, Builder.size_after, hsize, List.countP_cons]
    exact Nat.lt_add_of_pos_right (Nat.succ_pos _)
  have hpos := Nat.lt_of_le_of_lt (Nat.zero_le node) hlt
  obtain ⟨d, hd, hextends⟩ := exists_extends (hread x) hn' hpos
  obtain ⟨d', hd', hextends'⟩ := exists_extends (hread y) hn' hpos
  obtain rfl := Except.ok.inj (hparse.symm.trans hd)
  exact ⟨d', hd', fun i hi => hextends.sameElement hextends' (Nat.lt_of_le_of_lt hi hlt)⟩

/-- If all numbers before one with a property have it too, the first ones have it. -/
theorem exists_bound {p : Nat → Prop} {size : Nat} (hlt : ∀ i, p i → i < size)
    (hdown : ∀ i j, i ≤ j → p j → p i) : ∃ bound ≤ size, ∀ i, p i ↔ i < bound := by
  induction size with
  | zero => exact ⟨0, Nat.le_refl 0, fun i => ⟨hlt i, fun hi => absurd hi (Nat.not_lt_zero i)⟩⟩
  | succ size ih =>
    by_cases hlast : p size
    · refine ⟨size + 1, Nat.le_refl _, fun i => ⟨hlt i, fun hi => ?_⟩⟩
      exact hdown i size (Nat.le_of_lt_succ hi) hlast
    · have hlt' : ∀ i, p i → i < size := by
        intro i hi
        refine Nat.lt_of_le_of_ne (Nat.le_of_lt_succ (hlt i hi)) ?_
        rintro rfl
        exact hlast hi
      obtain ⟨bound, hle, hbound⟩ := ih hlt'
      exact ⟨bound, Nat.le_succ_of_le hle, hbound⟩

/--
The documents agree on the elements whose start tags are closed in a part of the text. There are
`kept` of them, and in both documents they are the first ones.
-/
structure KeepsClosed (text : List Char) (d d' : Document) (kept : Nat) : Prop where
  closed : ∀ node, d.ClosedIn text node ↔ node < kept
  closed' : ∀ node, d'.ClosedIn text node ↔ node < kept
  le_size : kept ≤ d.size
  le_size' : kept ≤ d'.size
  same : ∀ node < kept, SameElement d d' node

theorem exists_keepsClosed (hparse : parse (a ++ x) = .ok d) (h : d.ClosedIn a.toList node)
    (y : String) :
    ∃ d' kept, parse (a ++ y) = .ok d' ∧ 1 ≤ kept ∧ KeepsClosed a.toList d d' kept := by
  obtain ⟨kept, hle, hkept⟩ := exists_bound (p := d.ClosedIn a.toList)
    (fun _ hi => hi.lt_size) fun _ _ hij hj => hj.of_le hparse hij
  have hnode := (hkept node).mp h
  obtain ⟨last, rfl⟩ : ∃ last, kept = last + 1 := ⟨kept - 1, by omega⟩
  obtain ⟨d', hparse', hsame⟩ :=
    exists_sameElement hparse ((hkept last).mpr (Nat.lt_succ_self last)) y
  have hclosed' : ∀ node, d'.ClosedIn a.toList node ↔ node < last + 1 := by
    intro node
    constructor
    · -- the other document is kept in this one in the same way
      intro hnode'
      obtain ⟨d₀, hparse₀, hsame'⟩ := exists_sameElement hparse' hnode' x
      obtain rfl := Except.ok.inj (hparse.symm.trans hparse₀)
      exact (hkept node).mp ((hsame' node (Nat.le_refl node)).closedIn hnode')
    · intro hlt
      exact (hsame node (Nat.le_of_lt_succ hlt)).closedIn ((hkept node).mpr hlt)
  refine ⟨d', last + 1, hparse', Nat.succ_pos last, hkept, hclosed', hle, ?_, fun node hlt => ?_⟩
  · exact ((hclosed' last).mpr (Nat.lt_succ_self last)).lt_size
  · exact hsame node (Nat.le_of_lt_succ hlt)

end Document

/-! ## Where reading stops -/

namespace Markup

/-- Reading gives these tokens and then comes to the end of the text, or fails at the next token. -/
def ReadsAll (cs : List Char) (ts : List Token) (failure : Option Failure) : Prop :=
  ∃ n rest, ReadsText cs ts n rest ∧
    ((rest = [] ∧ failure = none) ∨
      (rest ≠ [] ∧ ∃ reason, Lexer.next n rest = .error reason ∧ failure = some reason))

variable {cs : List Char} {ts : List Token} {failure : Option Failure}

theorem tokensFrom_eq_nil_iff {m : Mode} :
    tokensFrom m cs = ⟨[], failure⟩ ↔ (cs = [] ∧ failure = none) ∨
      (cs ≠ [] ∧ ∃ reason, Lexer.next m cs = .error reason ∧ failure = some reason) := by
  by_cases hne : cs = []
  · subst hne
    rw [tokensFrom, dif_pos rfl]
    simp [eq_comm]
  · cases hnext : Lexer.next m cs with
    | error reason =>
      rw [tokensFrom_of_error hne hnext]
      simp [hne, eq_comm]
    | ok s =>
      rw [tokensFrom_of_reads (.step hne hnext (.done s.mode s.rest))]
      simp [hne]

/-- The tokens of a text are those before the first failure. -/
theorem readsAll_iff : ReadsAll cs ts failure ↔ tokens cs = ⟨ts, failure⟩ := by
  constructor
  · rintro ⟨n, rest, hreads, hstop⟩
    rw [tokens_of_readsText hreads, tokensFrom_eq_nil_iff.mpr hstop, List.append_nil]
  · intro htokens
    obtain ⟨n, rest, hreads⟩ := readsText_tokens cs
    have hall := tokens_of_readsText hreads
    rw [htokens] at hreads hall
    obtain ⟨hts, hfailure⟩ := Lexed.mk.inj hall
    refine ⟨n, rest, hreads, tokensFrom_eq_nil_iff.mp ?_⟩
    rw [hfailure, ← List.self_eq_append_right.mp hts]

end Markup

namespace Document

/-- Reading failed before any element began. -/
def FailsFirst (ts : List Token) (failure : Option Failure) : Prop :=
  failure.isSome = true ∧ ∀ t ∈ ts, ∀ name, t ≠ .openTag name

variable {ts : List Token} {failure : Option Failure}

theorem isEmpty_ofTokens_iff :
    (ofTokens ts).isEmpty = true ↔ ∀ t ∈ ts, ∀ name, t ≠ .openTag name := by
  rw [isEmpty, Array.isEmpty_iff_size_eq_zero]
  show (ofTokens ts).size = 0 ↔ _
  rw [Builder.ofTokens_eq, Builder.size_after, Builder.document_empty]
  have hsize : Document.empty.size = 0 := rfl
  rw [hsize, Nat.zero_add, List.countP_eq_zero]
  refine forall₂_congr fun t _ => ?_
  cases t <;> simp [Token.opened?]

/-- Only a failure before any element is an error, and all others leave what was read. -/
theorem parse_of_readsAll {text : String} (h : ReadsAll text.toList ts failure) :
    ((∃ e, parse text = .error e) ↔ FailsFirst ts failure) ∧
      (¬FailsFirst ts failure → parse text = .ok (ofTokens ts)) := by
  have hfails : FailsFirst ts failure ↔
      failure.isSome = true ∧ (ofTokens ts).isEmpty = true := by
    rw [FailsFirst, isEmpty_ofTokens_iff]
  rw [hfails, parse, parseChars, readsAll_iff.mp h]
  cases failure with
  | none => simp
  | some reason =>
    by_cases hempty : (ofTokens ts).isEmpty = true
    · simp [hempty]
    · simp [hempty]

/--
**Damage does not reach what stands before it.** The elements whose start tags are closed in the
first part of a text are the first ones of the document, whatever the text goes on with. A text
cannot be read if and only if reading fails before any element, and else the document is the fold
over the tokens before the first failure.
-/
theorem parse_keeps :
    (∀ a x y d node, parse (a ++ x) = .ok d → d.ClosedIn a.toList node →
      ∃ d' kept, parse (a ++ y) = .ok d' ∧ 1 ≤ kept ∧ KeepsClosed a.toList d d' kept) ∧
    (∀ text : String, ∃ ts failure, ReadsAll text.toList ts failure) ∧
    (∀ (text : String) ts failure, ReadsAll text.toList ts failure →
      ((∃ e, parse text = .error e) ↔ FailsFirst ts failure) ∧
      (¬FailsFirst ts failure →
        parse text = .ok (ts.foldl Builder.push Builder.empty).document)) := by
  refine ⟨?_, fun text => ⟨_, _, readsAll_iff.mpr rfl⟩, fun text ts failure h => ?_⟩
  · intro a x y d node hparse hclosed
    exact exists_keepsClosed hparse hclosed y
  · exact parse_of_readsAll h

/-- Both start tags are closed when the text breaks off within a comment. -/
theorem parse_keeps_unclosed_comment :
    ∃ d d', parse "<a><b c='1'/></a>" = .ok d ∧ parse "<a><b c='1'/><!-- <" = .ok d' ∧
      KeepsClosed "<a><b c='1'/>".toList d d' 2 := by
  have hread : (parse "<a><b c='1'/></a>").toOption.map (fun d => (d.size, d.span? 1)) =
      some (2, some ⟨3, 13⟩) := by
    decide +kernel
  obtain ⟨d, hd, hread⟩ := Option.map_eq_some_iff.mp hread
  obtain ⟨hsize, hspan⟩ := Prod.mk.inj hread
  have hparse := eq_ok_of_toOption hd
  have hclosed : d.ClosedIn "<a><b c='1'/>".toList 1 :=
    ⟨_, hspan, "<a><b c='1'/".toList, [], by decide, by decide⟩
  obtain ⟨d', kept, hparse', -, hkeeps⟩ :=
    parse_keeps.1 "<a><b c='1'/>" "</a>" "<!-- <" d 1 hparse hclosed
  have hmore := (hkeeps.closed 1).mp hclosed
  have hless := hkeeps.le_size
  obtain rfl : kept = 2 := by omega
  exact ⟨d, d', hparse, hparse', hkeeps⟩

end Document

end LayoutCompletion
