import LayoutCompletion.Proofs.Markup.StartTag

/-!
# Where a start tag begins

Behind the bracket of a start tag stands a word in the place of its name, and then the rest of the
tag. If the rest decides how reading goes on there, so does the whole tag, whatever follows it
(`Opening.outcome`): the reader comes to the end of the tag, it stops in the tag, or the word is no
name and the bracket is the last that the reader comes to.
-/

namespace LayoutCompletion.Markup

open Scan QualifiedName

/-! ## Names that are none -/

/-- There is only one cause for which the scan stops. -/
def StopsOnly {α : Type} (cause : Cause) (p : Scan α) : Prop :=
  ∀ ⦃cs stop⦄, p cs = .error stop → stop.cause = cause

section
variable {α β : Type} {cause : Cause}

theorem stopsOnly_pure (a : α) : StopsOnly cause (pure a : Scan α) := by
  intro cs stop h
  cases h

theorem stopsOnly_fail : StopsOnly cause (fail cause : Scan α) := by
  intro cs stop h
  cases h
  rfl

theorem stopsOnly_takeWhile (p : Char → Bool) : StopsOnly cause (Scan.takeWhile p) := by
  intro cs stop h
  cases h

theorem stopsOnly_peek : StopsOnly cause peek := by
  intro cs stop h
  cases h

theorem stopsOnly_advance (n : Nat) : StopsOnly cause (advance n) := by
  intro cs stop h
  cases h

theorem stopsOnly_bind {p : Scan α} {f : α → Scan β} (hp : StopsOnly cause p)
    (hf : ∀ a, StopsOnly cause (f a)) : StopsOnly cause (p >>= f) := by
  intro cs stop h
  cases hcs : p cs with
  | error e =>
    simp only [bind, StateT.bind, hcs, Except.bind, Except.error.injEq] at h
    rw [← h]
    exact hp hcs
  | ok v =>
    simp only [bind, StateT.bind, hcs, Except.bind] at h
    exact hf v.1 h

theorem map_of_error {p : Scan α} {f : α → β} {cs : List Char} {stop : Stop}
    (h : p cs = .error stop) : (f <$> p) cs = .error stop := by
  simp [Functor.map, StateT.map, h, bind, Except.bind]

end

/-- A name is not read only if there is none. -/
theorem stopsOnly_scan : StopsOnly .noName QualifiedName.scan := by
  have hbase (qualifier : List Char) : StopsOnly .noName (scanBase qualifier) := by
    refine stopsOnly_bind (stopsOnly_advance 1) fun _ =>
      stopsOnly_bind (stopsOnly_takeWhile _) fun _ => stopsOnly_bind stopsOnly_peek fun _ => ?_
    split
    · exact stopsOnly_fail
    · exact stopsOnly_pure _
  have hparts : StopsOnly .noName scanParts := by
    refine stopsOnly_bind (stopsOnly_takeWhile _) fun _ => stopsOnly_bind stopsOnly_peek fun _ => ?_
    split
    · exact hbase _
    · exact stopsOnly_pure _
  refine stopsOnly_bind hparts fun _ => ?_
  split
  · exact stopsOnly_pure _
  · exact stopsOnly_fail

/-! ## The mode before an element -/

/-- How many open elements surround an element that begins in the mode, if one can begin there. -/
def Mode.around? : Mode → Option Nat
  | .start | .prolog | .beforeRoot => some 0
  | .content outer => some (outer + 1)
  | .subset | .tag _ | .epilog => none

namespace Lexer

variable {c : Char} {tail : List Char}

/-- No other opening is a bracket with a character of a name behind it. -/
theorem not_begins_of_continues (hc : continues c = true) {w : String} (hw : w ∈ openings)
    (hne : w ≠ "<") : begins w ('<' :: c :: tail) = false := by
  have hall : ∀ w ∈ openings, w ≠ "<" → (w.toList.head?.any (· ≠ '<') ||
      (w.toList.drop 1).head?.any (fun d => !continues d)) = true := by decide
  have hopening := hall w hw hne
  rw [Bool.eq_false_iff]
  intro hbegins
  obtain ⟨rest, hrest⟩ := begins_iff.mp hbegins
  generalize w.toList = cs at hopening hrest
  rcases cs with _ | ⟨d, _ | ⟨e, ds⟩⟩
  · simp at hopening
  · simp [← (List.cons.inj hrest).1] at hopening
  · obtain ⟨rfl, htail⟩ := List.cons.inj hrest
    obtain ⟨rfl, -⟩ := List.cons.inj htail
    simp [hc] at hopening

/-- Before a bracket and a character of a name an element begins, if one can. -/
theorem next_of_continues {m : Mode} (hm : ∀ depth, m ≠ .tag depth) (hc : continues c = true)
    (tail : List Char) :
    next m ('<' :: c :: tail) = match m.around? with
      | some depth => element depth ('<' :: c :: tail)
      | none => .error (.unknown ('<' :: c :: tail)) := by
  have hnot {w : String} (hw : w ∈ openings) (hne : w ≠ "<") :
      begins w ('<' :: c :: tail) = false := not_begins_of_continues hc hw hne
  have hbracket : begins "<" ('<' :: c :: tail) = true := begins_iff.mpr ⟨_, rfl⟩
  have hmisc (mode : Mode) (otherwise : Except Failure Step) :
      misc mode ('<' :: c :: tail) otherwise = otherwise := by
    unfold misc
    rw [hnot (by decide) (by decide), hnot (by decide) (by decide),
      hnot (by decide) (by decide)]
    rfl
  have hroot : beforeRoot ('<' :: c :: tail) = element 0 ('<' :: c :: tail) := by
    unfold beforeRoot
    rw [hmisc, hbracket, hnot (by decide) (by decide)]
    rfl
  have hprolog : prolog ('<' :: c :: tail) = element 0 ('<' :: c :: tail) := by
    unfold prolog
    rw [hnot (by decide) (by decide), hmisc, hroot]
    rfl
  cases m with
  | start =>
    show ite _ _ _ = _
    rw [hnot (by decide) (by decide), hprolog]
    rfl
  | prolog => exact hprolog
  | subset =>
    show subset _ = _
    unfold subset
    rw [hnot (by decide) (by decide), hnot (by decide) (by decide), hmisc,
      hnot (by decide) (by decide), hnot (by decide) (by decide), hnot (by decide) (by decide)]
    rfl
  | beforeRoot => exact hroot
  | content outer =>
    show content outer _ = _
    unfold content
    rw [hnot (by decide) (by decide), hnot (by decide) (by decide), hnot (by decide) (by decide),
      hnot (by decide) (by decide), hnot (by decide) (by decide), hnot (by decide) (by decide),
      hbracket]
    rfl
  | tag depth => exact absurd rfl (hm depth)
  | epilog => exact hmisc _ _

end Lexer

/-- An element that was read began where one can. -/
theorem exists_around {m n : Mode} {name : QualifiedName} {c : Char} {tail rest : List Char}
    (h : Reads m ('<' :: c :: tail) [.openTag name] n rest) (hc : continues c = true) :
    ∃ depth, m.around? = some depth := by
  have hm : ∀ depth, m ≠ .tag depth := by
    rintro depth rfl
    cases h.runs with
    | cons hadm _ _ =>
      cases hadm with
      | root _ hbefore => cases hbefore
  cases hdepth : m.around? with
  | some depth => exact ⟨depth, rfl⟩
  | none =>
    have hnext := Lexer.next_of_continues hm hc tail
    rw [hdepth] at hnext
    generalize hts : [Token.openTag name] = ts at h
    cases h with
    | done => cases hts
    | step _ hok _ =>
      rw [hnext] at hok
      cases hok

/-! ## What becomes of a tag -/

theorem tokensFrom_of_error {m : Mode} {cs : List Char} {failure : Failure} (hne : cs ≠ [])
    (h : Lexer.next m cs = .error failure) : tokensFrom m cs = ⟨[], some failure⟩ := by
  rw [tokensFrom, dif_neg hne]
  split
  · next failure' hfail =>
    rw [h] at hfail
    cases hfail
    rfl
  · next step hok =>
    rw [h] at hok
    cases hok

/-- What stands behind the bracket of a start tag: a word in the place of the name, and a rest that
decides. -/
structure Opening (word rest : List Char) : Prop where
  allOf : AllOf continues word
  ne_nil : word ≠ []
  ends : ∀ behind, Ends continues (rest ++ behind)
  decided : ∀ depth, Decided depth rest

section
variable {m : Mode} {word rest : List Char} {depth : Nat}

theorem next_of_word (hne : word ≠ []) (hword : AllOf continues word) (hm : m.around? = some depth)
    (tail : List Char) :
    Lexer.next m ('<' :: word ++ tail) = Lexer.element depth ('<' :: word ++ tail) := by
  obtain ⟨c, word, rfl⟩ := List.exists_cons_of_ne_nil hne
  have htag : ∀ inner, m ≠ .tag inner := by
    rintro inner rfl
    cases hm
  have hnext := Lexer.next_of_continues htag (hword c (.head _)) (word ++ tail)
  rw [hm] at hnext
  exact hnext

/-- A start tag is opened wherever an element can begin, if its name ends where it is to. -/
theorem reads_openTag {name : QualifiedName} {tail : List Char} (hn : name.Valid)
    (hends : Ends continues tail) (hm : m.around? = some depth) :
    Reads m ('<' :: name.text ++ tail) [.openTag name] (.tag depth) tail := by
  have hscan : (Token.openTag <$> QualifiedName.scan) (name.text ++ tail) =
      .ok (.openTag name, tail) :=
    map_eq_ok.mpr ⟨name, scan_eq_ok.mpr ⟨rfl, hn, hends⟩, rfl⟩
  refine .of_next (List.cons_ne_nil _ _) ?_
  rw [next_of_word (text_ne_nil hn) (allOf_text hn) hm]
  unfold Lexer.element Lexer.read
  rw [List.cons_append, List.drop_succ_cons, List.drop_zero, hscan]

/-- A start tag that is closed is read in the same way, whatever follows it. -/
theorem reads_startTag {name : QualifiedName} (hn : name.Valid) (hrest : TagRest rest)
    (hm : m.around? = some depth) :
    ∃ ts n, (∀ inner, n ≠ .tag inner) ∧ ∀ behind,
      Reads m ('<' :: name.text ++ (rest ++ behind)) (.openTag name :: ts) n behind := by
  obtain ⟨ts, n, hn', hreads⟩ := hrest.closes depth
  exact ⟨ts, n, hn', fun behind => (reads_openTag hn (hrest.ends behind) hm).append (hreads behind)⟩

/-- If there is no name, reading stops at the bracket. -/
theorem Opening.tokensFrom_of_no_name (h : Opening word rest)
    (hname : ¬∃ name : QualifiedName, name.Valid ∧ name.text = word) (hm : m.around? = some depth)
    (behind : List Char) :
    ∃ left, tokensFrom m ('<' :: word ++ (rest ++ behind)) =
      ⟨[], some (.broken .element ('<' :: word ++ (rest ++ behind)) ⟨.noName, left⟩)⟩ := by
  cases hscan : QualifiedName.scan (word ++ (rest ++ behind)) with
  | ok found =>
    obtain ⟨name, left⟩ := found
    obtain ⟨hsplit, hn, hends⟩ := scan_eq_ok.mp hscan
    have htext := (append_inj_of_ends h.allOf (h.ends behind) (allOf_text hn) hends hsplit).1
    exact absurd ⟨name, hn, htext.symm⟩ hname
  | error stop =>
    obtain ⟨cause, left⟩ := stop
    obtain rfl : cause = .noName := stopsOnly_scan hscan
    have hnext : Lexer.next m ('<' :: word ++ (rest ++ behind)) =
        .error (.broken .element ('<' :: word ++ (rest ++ behind)) ⟨.noName, left⟩) := by
      rw [next_of_word h.ne_nil h.allOf hm, List.cons_append]
      unfold Lexer.element Lexer.read
      rw [List.drop_succ_cons, List.drop_zero, map_of_error hscan]
    exact ⟨left, tokensFrom_of_error (by simp) hnext⟩

/-- How reading goes on at a start tag does not depend on what follows the tag. -/
theorem Opening.outcome (h : Opening word rest) (hm : m.around? = some depth) :
    (∃ ts n, (∀ inner, n ≠ .tag inner) ∧ (∃ name, .openTag name ∈ ts) ∧
      ∀ behind, Reads m ('<' :: word ++ (rest ++ behind)) ts n behind) ∨
    (∃ ts, (∃ name, .openTag name ∈ ts) ∧
      ∀ behind, (tokensFrom m ('<' :: word ++ (rest ++ behind))).tokens = ts) ∨
    ∀ behind, ∃ left, tokensFrom m ('<' :: word ++ (rest ++ behind)) =
      ⟨[], some (.broken .element ('<' :: word ++ (rest ++ behind)) ⟨.noName, left⟩)⟩ := by
  by_cases hname : ∃ name : QualifiedName, name.Valid ∧ name.text = word
  · obtain ⟨name, hn, rfl⟩ := hname
    have hopen (behind : List Char) := reads_openTag hn (h.ends behind) hm
    rcases h.decided depth with ⟨ts, n, hn', hreads⟩ | ⟨ts, htokens⟩
    · refine Or.inl ⟨.openTag name :: ts, n, hn', ⟨name, .head _⟩, fun behind => ?_⟩
      exact (hopen behind).append (hreads behind)
    · refine Or.inr (Or.inl ⟨.openTag name :: ts, ⟨name, .head _⟩, fun behind => ?_⟩)
      rw [tokensFrom_of_reads (hopen behind), htokens behind]
      rfl
  · exact Or.inr (Or.inr (h.tokensFrom_of_no_name hname hm))

end

end LayoutCompletion.Markup
