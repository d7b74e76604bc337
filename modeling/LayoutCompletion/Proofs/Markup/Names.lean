import LayoutCompletion.Proofs.Markup.Success

/-!
# Qualified names

`QualifiedName.Valid` says which names there are, without a word on how they are read: both parts
consist of name characters and begin as names do, and only the qualifier may be empty. The scan
reads a valid name if nothing behind it could belong to it, and reads nothing else
(`scan_eq_ok`). So a name is read in the same way whatever stands further behind.
-/

namespace LayoutCompletion.Markup.QualifiedName

open Scan

/-- A name that can stand in markup. -/
structure Valid (n : QualifiedName) : Prop where
  space : AllOf isNameChar n.space
  base : AllOf isNameChar n.base
  wellFormed : n.wellFormed = true

/-- May the character continue a name that has no colon yet? -/
def continues (c : Char) : Bool :=
  isNameChar c || c = ':'

theorem isNameChar_colon : isNameChar ':' = false := by
  decide

theorem colon_not_mem {cs : List Char} (h : AllOf isNameChar cs) : ':' ∉ cs := by
  intro hc
  have := h ':' hc
  rw [isNameChar_colon] at this
  exact Bool.noConfusion this

theorem ends_of_continues {cs : List Char} (h : Ends continues cs) :
    Ends isNameChar cs ∧ cs.head? ≠ some ':' := by
  constructor
  · intro c hc
    have := h c hc
    simp only [continues, Bool.or_eq_false_iff] at this
    exact this.1
  · intro hc
    have := h ':' hc
    simp [continues] at this

theorem ends_continues {cs : List Char} (h : Ends isNameChar cs) (hc : cs.head? ≠ some ':') :
    Ends continues cs := by
  intro c hm
  simp only [continues, Bool.or_eq_false_iff, decide_eq_false_iff_not]
  refine ⟨h c hm, ?_⟩
  rintro rfl
  exact hc hm

/-! ## The parts of a valid name -/

theorem base_ne_nil {n : QualifiedName} (h : n.Valid) : n.base ≠ [] := by
  intro he
  have := h.wellFormed
  simp [wellFormed, he] at this

/-- A name begins with a character that begins names, or with a colon. -/
theorem head_text {n : QualifiedName} (h : n.Valid) :
    ∃ c cs, n.text = c :: cs ∧ (isNameStart c = true ∨ c = ':') := by
  obtain ⟨d, base, hbase⟩ := List.exists_cons_of_ne_nil (base_ne_nil h)
  have hw := h.wellFormed
  simp only [wellFormed, Bool.and_eq_true, hbase, List.head?_cons, Option.any_some] at hw
  unfold text
  cases hq : n.qualifier with
  | none => exact ⟨d, base, hbase, Or.inl hw.2⟩
  | some q =>
    cases q with
    | nil => exact ⟨':', n.base, rfl, Or.inr rfl⟩
    | cons c q =>
      have hc := hw.1
      simp only [space, hq, Option.getD_some, List.head?_cons, Option.all_some] at hc
      exact ⟨c, q ++ ':' :: n.base, rfl, Or.inl hc⟩

theorem allOf_text {n : QualifiedName} (h : n.Valid) : AllOf continues n.text := by
  have hname {cs : List Char} (hcs : AllOf isNameChar cs) : AllOf continues cs := fun c hc => by
    simp [continues, hcs c hc]
  unfold text
  split
  · exact hname h.base
  · next q hq =>
    have hspace := h.space
    rw [space, hq, Option.getD_some] at hspace
    exact allOf_append.mpr ⟨hname hspace, allOf_cons.mpr ⟨by decide, hname h.base⟩⟩

/-! ## What is shown of a name -/

/-- The colon that a name begins with if its qualifier is empty. -/
def leadingColon (n : QualifiedName) : List Char :=
  if n.qualifier = some [] then [':'] else []

/-- The name without such a colon. -/
def shown (n : QualifiedName) : List Char :=
  if n.qualifier = some [] then n.base else n.text

theorem text_eq (n : QualifiedName) : n.text = n.leadingColon ++ n.shown := by
  unfold leadingColon shown
  split
  · next h => simp [text, h]
  · rfl

/-- Only a colon that a name begins with is left out of what is shown. -/
theorem leadingColon_eq {n : QualifiedName} (h : n.Valid) :
    n.leadingColon = if n.text.head? = some ':' then [':'] else [] := by
  have hcolon : isNameStart ':' = false := by decide
  have hstarts := h.wellFormed
  rw [wellFormed, Bool.and_eq_true] at hstarts
  obtain ⟨hspace, hbase⟩ := hstarts
  obtain ⟨qualifier, base⟩ := n
  rcases qualifier with _ | _ | ⟨c, q⟩
  · -- the name is its base, which begins with no colon
    have hne : base.head? ≠ some ':' := by
      intro hhead
      rw [hhead, Option.any_some, hcolon] at hbase
      cases hbase
    simp [leadingColon, text, hne]
  · simp [leadingColon, text]
  · have hne : c ≠ ':' := by
      rintro rfl
      have hstart : isNameStart ':' = true := hspace
      rw [hcolon] at hstart
      cases hstart
    simp [leadingColon, text, hne]

/-! ## Reading a name -/

theorem scanBase_eq_ok {q : List Char} {n : QualifiedName} {cs rest : List Char} :
    scanBase q cs = .ok (n, rest) ↔
      ∃ base, n = ⟨some q, base⟩ ∧ cs.drop 1 = base ++ rest ∧ AllOf isNameChar base ∧
        Ends continues rest := by
  unfold scanBase
  simp only [bind_eq_ok, advance_eq_ok, takeWhile_eq_ok, peek_eq_ok]
  constructor
  · rintro ⟨_, _, rfl, base, mid, ⟨hcs, hbase, hend⟩, _, _, ⟨rfl, rfl⟩, h⟩
    split at h
    · simp at h
    · next hcolon =>
      rw [pure_eq_ok] at h
      obtain ⟨rfl, rfl⟩ := h
      exact ⟨base, rfl, hcs, hbase, ends_continues hend hcolon⟩
  · rintro ⟨base, rfl, hcs, hbase, hend⟩
    obtain ⟨hname, hcolon⟩ := ends_of_continues hend
    refine ⟨(), _, rfl, base, rest, ⟨hcs, hbase, hname⟩, _, _, ⟨rfl, rfl⟩, ?_⟩
    rw [if_neg hcolon]
    simp

theorem scanParts_eq_ok {n : QualifiedName} {cs rest : List Char} :
    scanParts cs = .ok (n, rest) ↔
      cs = n.text ++ rest ∧ AllOf isNameChar n.space ∧ AllOf isNameChar n.base ∧
        Ends continues rest := by
  unfold scanParts
  simp only [bind_eq_ok, takeWhile_eq_ok, peek_eq_ok]
  constructor
  · rintro ⟨first, mid, ⟨rfl, hfirst, hend⟩, _, _, ⟨rfl, rfl⟩, h⟩
    split at h
    · next hcolon =>
      -- what has been read is the qualifier, and the base is behind the colon
      obtain ⟨base, rfl, hdrop, hbase, hrest⟩ := scanBase_eq_ok.mp h
      obtain ⟨tail, rfl⟩ := List.head?_eq_some_iff.mp hcolon
      obtain rfl : tail = base ++ rest := hdrop
      exact ⟨by simp [text], hfirst, hbase, hrest⟩
    · next hcolon =>
      rw [pure_eq_ok] at h
      obtain ⟨rfl, rfl⟩ := h
      exact ⟨rfl, by simp [AllOf, space], hfirst, ends_continues hend hcolon⟩
  · rintro ⟨rfl, hspace, hbase, hrest⟩
    obtain ⟨hname, hcolon⟩ := ends_of_continues hrest
    obtain ⟨q, base⟩ := n
    cases q with
    | none =>
      refine ⟨base, rest, ⟨rfl, hbase, hname⟩, _, _, ⟨rfl, rfl⟩, ?_⟩
      rw [if_neg hcolon]
      simp
    | some q =>
      refine ⟨q, ':' :: (base ++ rest), ⟨by simp [text], hspace, ?_⟩, _, _, ⟨rfl, rfl⟩, ?_⟩
      · exact ends_cons.mpr isNameChar_colon
      · rw [if_pos (List.head?_cons), scanBase_eq_ok]
        exact ⟨base, rfl, rfl, hbase, hrest⟩

/-- A name is read if it is valid and what follows does not continue it. -/
theorem scan_eq_ok {n : QualifiedName} {cs rest : List Char} :
    scan cs = .ok (n, rest) ↔ cs = n.text ++ rest ∧ n.Valid ∧ Ends continues rest := by
  unfold scan
  simp only [bind_eq_ok, scanParts_eq_ok]
  constructor
  · rintro ⟨m, mid, ⟨rfl, hspace, hbase, hrest⟩, h⟩
    split at h
    · next hw =>
      rw [pure_eq_ok] at h
      obtain ⟨rfl, rfl⟩ := h
      exact ⟨rfl, ⟨hspace, hbase, hw⟩, hrest⟩
    · simp at h
  · rintro ⟨rfl, hn, hrest⟩
    refine ⟨n, rest, ⟨rfl, hn.space, hn.base, hrest⟩, ?_⟩
    rw [if_pos hn.wellFormed]
    simp

/-- A plain name is taken as long as it goes on; it may hold colons and begin with one. -/
theorem name_eq_ok {word cs rest : List Char} :
    name cs = .ok (word, rest) ↔
      cs = word ++ rest ∧ AllOf continues word ∧ Ends continues rest ∧
        ∃ c ∈ word.head?, isNameStart c = true ∨ c = ':' := by
  cases cs with
  | nil =>
    simp only [name, reduceCtorEq, false_iff, not_and]
    intro hcs _ _ hstart
    rw [(List.append_eq_nil_iff.mp hcs.symm).1] at hstart
    simp at hstart
  | cons c cs =>
    have htaken : takeWhile continues (c :: cs) = .ok (word, rest) ↔ _ := takeWhile_eq_ok
    rw [takeWhile] at htaken
    by_cases hc : isNameStart c = true ∨ c = ':'
    · have hname : name (c :: cs) =
          .ok ((c :: cs).takeWhile continues, (c :: cs).dropWhile continues) := by
        rw [name, if_pos (by simpa using hc)]
        rfl
      rw [hname, htaken]
      constructor
      · rintro ⟨hcs, hw, hr⟩
        refine ⟨hcs, hw, hr, c, ?_, hc⟩
        -- the first character continues names, so the word does not end before it
        cases word with
        | nil =>
          rw [List.nil_append] at hcs
          rw [← hcs, ends_cons] at hr
          rcases hc with hc | rfl
          · simp [continues, isNameChar_of_isNameStart hc] at hr
          · simp [continues] at hr
        | cons d tail => simp [(List.cons.inj hcs).1]
      · rintro ⟨hcs, hw, hr, -⟩
        exact ⟨hcs, hw, hr⟩
    · rw [name, if_neg (by simpa using hc)]
      simp only [reduceCtorEq, false_iff, not_and]
      rintro hcs - - ⟨d, hd, hstart⟩
      cases word with
      | nil => simp at hd
      | cons e tail =>
        obtain rfl : e = d := by simpa using hd
        rw [← (List.cons.inj hcs).1] at hstart
        exact hc hstart

end LayoutCompletion.Markup.QualifiedName
