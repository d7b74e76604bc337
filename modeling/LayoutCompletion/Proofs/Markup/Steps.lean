import LayoutCompletion.Markup.Tokens
import LayoutCompletion.Proofs.Markup.Constructs

/-!
# One token

What `Lexer.next` does when it succeeds, said once for all modes (`Lexer.next_spec`):

* the token is one that the mode admits (`Mode.Admits`), and it is well formed;
* its characters are exactly those that were read;
* if anything else stood behind it that begins with the same character, the same token would be
  read.

Nothing further on unfolds `Lexer.next`.

The reader tells constructs apart by their openings. That this choice, too, looks no further than
one character behind the token follows from `Telling`: a token's text is never a proper beginning
of an opening.
-/

namespace LayoutCompletion.Markup

/-- Has nothing of the root element been read? -/
def Mode.isBefore : Mode → Bool
  | .start | .prolog | .subset | .beforeRoot => true
  | _ => false

/-- Which tokens may be read in a mode, and the mode behind each. -/
inductive Mode.Admits : Mode → Token → Mode → Prop
  | before {m n : Mode} (text : List Char) :
    m.isBefore = true → n.isBefore = true → Admits m (.skipped text) n
  | within (outer : Nat) (text : List Char) :
    Admits (.content outer) (.skipped text) (.content outer)
  | behind (text : List Char) : Admits .epilog (.skipped text) .epilog
  | root {m : Mode} (name : QualifiedName) :
    m.isBefore = true → Admits m (.openTag name) (.tag 0)
  | child (outer : Nat) (name : QualifiedName) :
    Admits (.content outer) (.openTag name) (.tag (outer + 1))
  | part (depth : Nat) (lead : List Char) (name : QualifiedName) (equals : List Char) (q : Char)
      (value : List Char) :
    Admits (.tag depth) (.attribute lead name equals q value) (.tag depth)
  | tagEnd (depth : Nat) (lead : List Char) :
    Admits (.tag depth) (.tagEnd lead false) (.content depth)
  | selfClosing (depth : Nat) (lead : List Char) :
    Admits (.tag depth) (.tagEnd lead true) (.closing depth)
  | closeTag (outer : Nat) (name : QualifiedName) (trail : List Char) :
    Admits (.content outer) (.closeTag name trail) (.closing outer)

namespace Lexer

open Scan

/-! ## Openings -/

/-- The texts by which constructs are told apart. -/
def openings : List String :=
  ["<!--", "<![CDATA[", "<!DOCTYPE", "<!ENTITY", "<!ELEMENT", "<!ATTLIST", "<!NOTATION", "<!",
    "<?xml ", "<?", "</", "<", "]"]

/-- The text is enough to tell with which openings it begins. -/
structure Telling (t : List Char) : Prop where
  ne_nil : t ≠ []
  full : ∀ w ∈ openings, t <+: w.toList → t = w.toList

/-- A condition on a text that what stands behind a telling text has no influence on. -/
def Settles (c : List Char → Prop) : Prop :=
  ∀ ⦃t : List Char⦄, Telling t → ∀ r s : List Char, c (t ++ r) → c (t ++ s)

theorem settles_begins {w : String} (hw : w ∈ openings) : Settles fun cs => begins w cs = true := by
  intro t ht r s h
  simp only [begins, List.isPrefixOf_iff_prefix] at h ⊢
  -- the opening lies within the text, or else the text begins the opening and so is all of it
  rcases Nat.le_total w.toList.length t.length with hle | hle
  · have := List.prefix_of_prefix_length_le h (List.prefix_append t r) hle
    exact this.trans (List.prefix_append t s)
  · have := ht.full w hw (List.prefix_of_prefix_length_le (List.prefix_append t r) h hle)
    rw [← this]
    exact List.prefix_append t s

theorem Settles.not {c : List Char → Prop} (h : Settles c) : Settles fun cs => ¬c cs :=
  fun _ ht r s hr hs => hr (h ht s r hs)

theorem Settles.and {c d : List Char → Prop} (hc : Settles c) (hd : Settles d) :
    Settles fun cs => c cs ∧ d cs :=
  fun _ ht r s h => ⟨hc ht r s h.1, hd ht r s h.2⟩

theorem Settles.or {c d : List Char → Prop} (hc : Settles c) (hd : Settles d) :
    Settles fun cs => c cs ∨ d cs :=
  fun _ ht r s h => h.imp (hc ht r s) (hd ht r s)

theorem settles_head {p : Char → Bool} : Settles fun cs => cs.head?.any p = true := by
  intro t ht r s h
  obtain ⟨c, t, rfl⟩ := List.exists_cons_of_ne_nil ht.ne_nil
  exact h

/-- A lone angle bracket tells nothing. -/
theorem settles_lone : Settles fun cs => cs = ['<'] := by
  intro t ht r s h
  obtain ⟨c, t, rfl⟩ := List.exists_cons_of_ne_nil ht.ne_nil
  obtain ⟨rfl, hnil⟩ := List.cons.inj h
  obtain ⟨rfl, -⟩ := List.append_eq_nil_iff.mp hnil
  have := ht.full "<!" (by decide) (by decide)
  exact absurd this (by decide)

theorem telling_bracket (t : List Char) : Telling (t ++ ['>']) := by
  refine ⟨by simp, fun w hw h => ?_⟩
  have hall : ∀ w ∈ openings, '>' ∉ w.toList := by decide
  exact absurd (h.subset (by simp)) (hall w hw)

theorem telling_of_length {t : List Char} (h : 10 ≤ t.length) : Telling t := by
  refine ⟨by rintro rfl; simp at h, fun w hw hp => ?_⟩
  have hall : ∀ w ∈ openings, w.toList.length ≤ 10 := by decide
  exact hp.eq_of_length_le (Nat.le_trans (hall w hw) h)

theorem telling_of_ne_bracket {c : Char} {t : List Char} (h : c ≠ '<') : Telling (c :: t) := by
  refine ⟨by simp, fun w hw hp => ?_⟩
  have hall : ∀ w ∈ openings, w.toList.head? = some '<' ∨ w.toList = [']'] := by decide
  rcases hall w hw with hhead | hw
  · obtain ⟨x, hx⟩ := hp
    rw [← hx] at hhead
    exact absurd (by simpa using hhead) h
  · rw [hw] at hp ⊢
    obtain ⟨rfl, ht⟩ := List.cons_prefix_cons.mp hp
    rw [List.prefix_nil.mp ht]

/-- The opening of an element is none of the others. -/
theorem telling_openTag {name : QualifiedName} (hn : name.Valid) : Telling ('<' :: name.text) := by
  obtain ⟨c, t, htext, hc⟩ := QualifiedName.head_text hn
  rw [htext]
  refine ⟨by simp, fun w hw hp => ?_⟩
  -- no other opening goes on as a name begins
  have hall : ∀ w ∈ openings, (w.toList.drop 1).head?.all
      (fun c => !isNameStart c && c ≠ ':' || w = "]") = true ∧ (w = "]" → w.toList = [']']) := by
    decide
  obtain ⟨x, hx⟩ := hp
  have hsecond := (hall w hw).1
  rw [← hx] at hsecond
  simp only [List.cons_append, List.drop_succ_cons, List.drop_zero, List.head?_cons,
    Option.all_some, Bool.or_eq_true, Bool.and_eq_true, Bool.not_eq_true', decide_eq_true_eq]
    at hsecond
  rcases hsecond with ⟨hstart, hcolon⟩ | hw'
  · rcases hc with hc | hc
    · rw [hc] at hstart
      exact Bool.noConfusion hstart
    · exact absurd hc hcolon
  · rw [(hall w hw).2 hw'] at hx
    simp at hx

/-! ## Exact readers -/

/--
The reader tells exactly what it has read.

`admits` says which tokens it gives, and with which mode; `P` is what is known of its input.
-/
def Exact (admits : Token → Mode → Prop) (P : List Char → Prop)
    (f : List Char → Except Failure Step) : Prop :=
  ∀ ⦃cs : List Char⦄ ⦃step : Step⦄, P cs → f cs = .ok step →
    admits step.token step.mode ∧ step.token.WellFormed ∧ cs = step.token.text ++ step.rest ∧
      Telling step.token.text ∧ ∀ other, step.rest.head? = other.head? →
        f (step.token.text ++ other) = .ok ⟨step.token, step.mode, other⟩

variable {admits : Token → Mode → Prop} {P : List Char → Prop}

theorem exact_error (failure : List Char → Failure) :
    Exact admits P fun cs => .error (failure cs) := by
  intro cs step _ h
  simp at h

theorem exact_ite {c : List Char → Prop} [DecidablePred c] {f g : List Char → Except Failure Step}
    (hc : Settles c) (hf : Exact admits (fun cs => P cs ∧ c cs) f)
    (hg : Exact admits (fun cs => P cs ∧ ¬c cs) g) :
    Exact admits P fun cs => if c cs then f cs else g cs := by
  intro cs step hP h
  dsimp only at h
  split at h
  · next hpos =>
    obtain ⟨hadm, hwf, rfl, htell, hagain⟩ := hf ⟨hP, hpos⟩ h
    refine ⟨hadm, hwf, rfl, htell, fun other ho => ?_⟩
    dsimp only
    rw [if_pos (hc htell _ _ hpos)]
    exact hagain other ho
  · next hneg =>
    obtain ⟨hadm, hwf, rfl, htell, hagain⟩ := hg ⟨hP, hneg⟩ h
    refine ⟨hadm, hwf, rfl, htell, fun other ho => ?_⟩
    dsimp only
    rw [if_neg (hc.not htell _ _ hneg)]
    exact hagain other ho

/-- A construct of which only the text is kept, if it ends with a mark. -/
theorem exact_skip {α : Type} {construct : Construct} {w : String} {n : Nat} {p : Scan α}
    {mode : α → Mode} {marks : List Char} (hp : Sealed marks p) (hn : w.toList.length = n)
    (hw : ∀ {cs}, P cs → begins w cs = true)
    (htell : ∀ (t : List Char) (mark : Char), mark ∈ marks → Telling (w.toList ++ t ++ [mark]))
    (hadm : ∀ (text : List Char) (a : α), admits (.skipped text) (mode a)) :
    Exact admits P (skip construct n p mode) := by
  intro cs step hP h
  obtain ⟨tail, rfl⟩ := begins_iff.mp (hw hP)
  unfold skip at h
  rw [← hn, List.drop_left] at h
  split at h
  · simp at h
  · next a rest hscan =>
    obtain ⟨t, mark, hmark, rfl, ht⟩ := hp hscan
    have htext (other : List Char) : (w.toList ++ (t ++ mark :: other)).take
        ((w.toList ++ (t ++ mark :: other)).length - other.length) = w.toList ++ t ++ [mark] := by
      have hsplit : w.toList ++ (t ++ mark :: other) = (w.toList ++ t ++ [mark]) ++ other := by simp
      rw [hsplit, List.length_append, Nat.add_sub_cancel, List.take_left]
    rw [htext rest, Except.ok.injEq] at h
    subst h
    -- the text that is kept ends with the mark, so the construct is read again before any other
    refine ⟨hadm _ a, trivial, by simp [Token.text], htell t mark hmark, fun other _ => ?_⟩
    have hsplit : w.toList ++ t ++ [mark] ++ other = w.toList ++ (t ++ mark :: other) := by simp
    unfold skip
    simp only [Token.text]
    rw [hsplit, ← hn, List.drop_left, ht other]
    dsimp only
    rw [htext other]

theorem exact_element (depth : Nat) (hw : ∀ {cs}, P cs → begins "<" cs = true)
    (hadm : ∀ name, admits (.openTag name) (.tag depth)) : Exact admits P (element depth) := by
  intro cs step hP h
  obtain ⟨tail, rfl⟩ := begins_iff.mp (hw hP)
  have hlt : "<".toList = ['<'] := by decide
  unfold element read at h
  rw [hlt, List.singleton_append, List.drop_succ_cons, List.drop_zero] at h
  split at h
  · simp at h
  · next token rest hscan =>
    rw [Except.ok.injEq] at h
    subst h
    obtain ⟨name, hname, rfl⟩ := map_eq_ok.mp hscan
    obtain ⟨rfl, hn, hr⟩ := QualifiedName.scan_eq_ok.mp hname
    refine ⟨hadm name, hn, by rw [hlt]; simp [Token.text], telling_openTag hn, fun other ho => ?_⟩
    have hagain : (Token.openTag <$> QualifiedName.scan) (name.text ++ other) =
        .ok (.openTag name, other) :=
      map_eq_ok.mpr ⟨name, QualifiedName.scan_eq_ok.mpr ⟨rfl, hn, hr.of_head? ho⟩, rfl⟩
    simp only [element, read, Token.text, List.cons_append, List.drop_succ_cons, List.drop_zero,
      hagain]

theorem exact_closeTag {mode : Mode} (hw : ∀ {cs}, P cs → begins "</" cs = true)
    (hadm : ∀ name trail, admits (.closeTag name trail) mode) :
    Exact admits P (read .element 2 closeTag fun _ => mode) := by
  intro cs step hP h
  obtain ⟨tail, rfl⟩ := begins_iff.mp (hw hP)
  have hlt : "</".toList = ['<', '/'] := by decide
  unfold read at h
  rw [hlt, List.cons_append, List.singleton_append, List.drop_succ_cons, List.drop_succ_cons,
    List.drop_zero] at h
  split at h
  · simp at h
  · next token rest hscan =>
    rw [Except.ok.injEq] at h
    subst h
    obtain ⟨name, trail, rfl, hn, ht, rfl⟩ := closeTag_eq_ok.mp hscan
    refine ⟨hadm name trail, ⟨hn, ht⟩, by rw [hlt]; simp [Token.text], ?_, fun other _ => ?_⟩
    · exact telling_bracket ('<' :: '/' :: name.text ++ trail)
    · have hagain : closeTag (name.text ++ trail ++ '>' :: other) =
          .ok (.closeTag name trail, other) :=
        closeTag_eq_ok.mpr ⟨name, trail, rfl, hn, ht, rfl⟩
      have hdrop : ((Token.closeTag name trail).text ++ other).drop 2 =
          name.text ++ trail ++ '>' :: other := by
        simp [Token.text]
      simp only [read, hdrop, hagain]

theorem exact_spaces {mode : Mode} (hw : ∀ {cs}, P cs → cs.head?.any isSpace = true)
    (hadm : ∀ text, admits (.skipped text) mode) :
    Exact admits P fun cs => .ok ⟨.skipped (cs.takeWhile isSpace), mode, cs.dropWhile isSpace⟩ := by
  intro cs step hP h
  rw [Except.ok.injEq] at h
  subst h
  have hends := ends_dropWhile isSpace cs
  have hall := allOf_takeWhile isSpace cs
  refine ⟨hadm _, trivial, by simp [Token.text], ?_, fun other ho => ?_⟩
  · obtain ⟨c, cs, rfl⟩ : ∃ c tail, cs = c :: tail :=
      List.exists_cons_of_ne_nil (by rintro rfl; simpa using hw hP)
    have hc : isSpace c = true := by simpa using hw hP
    rw [Token.text, List.takeWhile_cons_of_pos hc]
    exact telling_of_ne_bracket (by rintro rfl; exact absurd hc (by decide))
  · dsimp only [Token.text]
    rw [takeWhile_append_ends hall (hends.of_head? ho),
      dropWhile_append_ends hall (hends.of_head? ho)]

theorem exact_characterData {mode : Mode} (hne : ∀ {cs}, P cs → cs ≠ [])
    (hw : ∀ {cs}, P cs → ¬begins "<" cs = true) (hadm : ∀ text, admits (.skipped text) mode) :
    Exact admits P (read .text 0 characterData fun _ => mode) := by
  intro cs step hP h
  unfold read at h
  rw [List.drop_zero] at h
  split at h
  · simp at h
  · next token rest hscan =>
    rw [Except.ok.injEq] at h
    subst h
    obtain ⟨t, ht, hagain⟩ := stable_characterData (A := .onHead) hscan
    obtain ⟨body, rfl, hbody⟩ := characterData_eq_ok hscan
    obtain ⟨c, cs, rfl⟩ := List.exists_cons_of_ne_nil (hne hP)
    have hc : c ≠ '<' := by
      rintro rfl
      exact hw hP (begins_iff.mpr ⟨cs, rfl⟩)
    obtain ⟨hsplit, -, -, hrest⟩ := upTo_eq_ok.mp hbody
    obtain rfl : t = body := List.append_cancel_right (ht.symm.trans hsplit)
    refine ⟨hadm t, trivial, ht, ?_, fun other ho => ?_⟩
    · -- the first character is no bracket, so the text does not end before it
      cases t with
      | nil =>
        rw [List.nil_append] at hsplit
        rw [← hsplit] at hrest
        exact absurd (hrest c rfl).2 (hw hP)
      | cons d t =>
        obtain rfl : c = d := (List.cons.inj ht).1
        exact telling_of_ne_bracket hc
    · simp only [read, Token.text, List.drop_zero, hagain ho]

/-! ## The modes -/

/-- A construct that begins with an opening and ends with a bracket. -/
theorem exact_bracketed {α : Type} {construct : Construct} {w : String} {n : Nat} {p : Scan α}
    {mode : α → Mode} (hp : Sealed ['>'] p) (hn : w.toList.length = n)
    (hw : ∀ {cs}, P cs → begins w cs = true)
    (hadm : ∀ (text : List Char) (a : α), admits (.skipped text) (mode a)) :
    Exact admits P (skip construct n p mode) := by
  refine exact_skip hp hn hw (fun t mark hmark => ?_) hadm
  obtain rfl := List.mem_singleton.mp hmark
  exact telling_bracket (w.toList ++ t)

theorem exact_misc {mode : Mode} {f : List Char → Except Failure Step}
    (hadm : ∀ text, admits (.skipped text) mode) (hf : Exact admits P f) :
    Exact admits P fun cs => misc mode cs (f cs) := by
  unfold misc
  refine exact_ite (settles_begins (by decide))
    (exact_bracketed sealed_comment (by decide) And.right fun text _ => hadm text) ?_
  refine exact_ite (settles_begins (by decide)) (exact_error _) ?_
  refine exact_ite (settles_begins (by decide))
    (exact_bracketed sealed_instruction (by decide) And.right fun text _ => hadm text) ?_
  refine exact_ite settles_head (exact_spaces And.right hadm) ?_
  intro cs step hP h
  exact hf hP.1.1.1.1 h

theorem exact_beforeRoot (hskip : ∀ text, admits (.skipped text) .beforeRoot)
    (hroot : ∀ name, admits (.openTag name) (.tag 0)) : Exact admits P beforeRoot := by
  refine exact_misc hskip (exact_ite ?_ (exact_element 0 ?_ hroot) (exact_error _))
  · have hopen : Settles fun cs => (begins "<" cs && !begins "<!" cs) = true := by
      have h := (settles_begins (w := "<") (by decide)).and
        (settles_begins (w := "<!") (by decide)).not
      simpa using h
    exact hopen
  · rintro cs ⟨-, h⟩
    rw [Bool.and_eq_true] at h
    exact h.1

theorem exact_prolog (hskip : ∀ text (mode : Mode), mode.isBefore = true →
      admits (.skipped text) mode) (hroot : ∀ name, admits (.openTag name) (.tag 0)) :
    Exact admits P prolog := by
  refine exact_ite (settles_begins (by decide)) ?_
    (exact_misc (fun text => hskip text _ rfl)
      (exact_beforeRoot (fun text => hskip text _ rfl) hroot))
  refine exact_skip sealed_documentType (by decide) And.right (fun t mark _ => ?_) ?_
  · refine telling_of_length ?_
    have hlength : "<!DOCTYPE".toList.length = 9 := by decide
    simp only [List.length_append, hlength, List.length_singleton]
    omega
  · intro text opened
    cases opened <;> exact hskip text _ rfl

theorem exact_subset (hskip : ∀ text (mode : Mode), mode.isBefore = true →
    admits (.skipped text) mode) : Exact admits P subset := by
  unfold subset
  refine exact_ite (settles_begins (by decide))
    (exact_bracketed sealed_entity (by decide) And.right fun text _ => hskip text _ rfl) ?_
  refine exact_ite (settles_begins (by decide))
    (exact_bracketed sealed_subsetEnd (by decide) And.right fun text _ => hskip text _ rfl) ?_
  refine exact_misc (fun text => hskip text _ rfl) (exact_ite ?_ ?_ (exact_error _))
  · have hopen : Settles fun cs => (begins "<!ELEMENT" cs || begins "<!ATTLIST" cs ||
        begins "<!NOTATION" cs) = true := by
      have h := ((settles_begins (w := "<!ELEMENT") (by decide)).or
        (settles_begins (w := "<!ATTLIST") (by decide))).or
          (settles_begins (w := "<!NOTATION") (by decide))
      simpa using h
    exact hopen
  · -- whatever is wrong with such a declaration, the failure is of another kind
    have hother : Exact admits (fun cs => begins "<" cs = true)
        (skip .documentType 1 otherDeclaration fun _ => .subset) :=
      exact_bracketed sealed_otherDeclaration (by decide) id fun text _ => hskip text _ rfl
    intro cs step hP h
    dsimp only at h
    split at h
    · simp at h
    · next inner hinner =>
      rw [Except.ok.injEq] at h
      subst h
      have hbegins : begins "<" cs = true := by
        obtain ⟨-, h⟩ := hP
        simp only [Bool.or_eq_true] at h
        rcases h with (h | h) | h <;>
        · obtain ⟨tail, rfl⟩ := begins_iff.mp h
          exact begins_iff.mpr ⟨_, rfl⟩
      obtain ⟨hadm, hwf, htext, htell, hagain⟩ := hother hbegins hinner
      refine ⟨hadm, hwf, htext, htell, fun other ho => ?_⟩
      dsimp only
      rw [hagain other ho]

theorem exact_content (outer : Nat) :
    Exact (Mode.Admits (.content outer)) (fun cs => cs ≠ []) (content outer) := by
  have hskip (text : List Char) := Mode.Admits.within outer text
  unfold content
  refine exact_ite (settles_begins (by decide))
    (exact_bracketed sealed_comment (by decide) And.right fun text _ => hskip text) ?_
  refine exact_ite (settles_begins (by decide))
    (exact_bracketed sealed_literalSection (by decide) And.right fun text _ => hskip text) ?_
  refine exact_ite (settles_begins (by decide)) (exact_error _) ?_
  refine exact_ite (settles_begins (by decide)) (exact_error _) ?_
  refine exact_ite (settles_begins (by decide))
    (exact_bracketed sealed_instruction (by decide) And.right fun text _ => hskip text) ?_
  refine exact_ite (settles_begins (by decide))
    (exact_closeTag And.right (Mode.Admits.closeTag outer)) ?_
  refine exact_ite settles_lone (exact_error _) ?_
  refine exact_ite (settles_begins (by decide))
    (exact_element (outer + 1) And.right (Mode.Admits.child outer)) ?_
  refine exact_characterData (fun h => ?_) And.right hskip
  exact h.1.1.1.1.1.1.1.1

/-- In a start tag there is nothing to tell apart: the grammar of its parts is enough. -/
theorem tag_eq_ok {depth : Nat} {cs : List Char} {step : Step} (h : tag depth cs = .ok step) :
    Mode.Admits (.tag depth) step.token step.mode ∧ step.token.WellFormed ∧
      cs = step.token.text ++ step.rest ∧
      ∀ other, tag depth (step.token.text ++ other) = .ok ⟨step.token, step.mode, other⟩ := by
  unfold tag read at h
  rw [List.drop_zero] at h
  split at h
  · simp at h
  · next token rest hpart =>
    rw [Except.ok.injEq] at h
    subst h
    obtain ⟨hkind, hwf, rfl⟩ := tagPart_eq_ok.mp hpart
    refine ⟨?_, hwf, rfl, fun other => ?_⟩
    · rcases token with _ | _ | ⟨lead, name, equals, q, value⟩ | ⟨lead, selfClosing⟩ | _
      · simp [Token.isTagPart] at hkind
      · simp [Token.isTagPart] at hkind
      · exact .part depth lead name equals q value
      · cases selfClosing with
        | false => exact .tagEnd depth lead
        | true => exact .selfClosing depth lead
      · simp [Token.isTagPart] at hkind
    · unfold tag read
      rw [List.drop_zero, tagPart_eq_ok.mpr ⟨hkind, hwf, rfl⟩]

/-- What one successful step does, and how little it depends on what stands behind. -/
theorem next_spec {m : Mode} {cs : List Char} {step : Step} (hne : cs ≠ [])
    (h : next m cs = .ok step) :
    m.Admits step.token step.mode ∧ step.token.WellFormed ∧ cs = step.token.text ++ step.rest ∧
      ∀ other, step.rest.head? = other.head? →
        next m (step.token.text ++ other) = .ok ⟨step.token, step.mode, other⟩ := by
  have hskip (text : List Char) (n : Mode) (hm : m.isBefore = true) (hn : n.isBefore = true) :
      m.Admits (.skipped text) n := .before text hm hn
  have of_exact {f : List Char → Except Failure Step}
      (hf : Exact m.Admits (fun cs => cs ≠ []) f) (hnext : next m = f) :
      m.Admits step.token step.mode ∧ step.token.WellFormed ∧ cs = step.token.text ++ step.rest ∧
        ∀ other, step.rest.head? = other.head? →
          next m (step.token.text ++ other) = .ok ⟨step.token, step.mode, other⟩ := by
    rw [hnext] at h ⊢
    obtain ⟨hadm, hwf, htext, -, hagain⟩ := hf hne h
    exact ⟨hadm, hwf, htext, hagain⟩
  cases m with
  | start =>
    refine of_exact (exact_ite (settles_begins (by decide))
      (exact_bracketed sealed_declaration (by decide) And.right
        fun text _ => hskip text _ rfl rfl)
      (exact_prolog (fun text n => hskip text n rfl) fun name => .root name rfl)) rfl
  | prolog =>
    exact of_exact (exact_prolog (fun text n => hskip text n rfl) fun name => .root name rfl) rfl
  | subset => exact of_exact (exact_subset fun text n => hskip text n rfl) rfl
  | beforeRoot =>
    exact of_exact (exact_beforeRoot (fun text => hskip text _ rfl rfl)
      fun name => .root name rfl) rfl
  | content outer => exact of_exact (exact_content outer) rfl
  | tag depth =>
    -- nothing that follows has an influence here
    obtain ⟨hadm, hwf, htext, hagain⟩ := tag_eq_ok h
    exact ⟨hadm, hwf, htext, fun other _ => hagain other⟩
  | epilog => exact of_exact (exact_misc Mode.Admits.behind (exact_error _)) rfl

end Lexer

end LayoutCompletion.Markup
