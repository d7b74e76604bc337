import LayoutCompletion.Proofs.Markup.Tags

/-!
# Scans that do not look far ahead

What a scan reads can depend on what stands behind it: a word goes on as long as it can. How far
the dependence goes is said in two ways.

* `Stable A p` — if what follows is replaced by a text that agrees with it in the sense of `A`,
  the scan reads the same.
* `Sealed marks p` — the scan ends with a mark of its own, so that anything may follow.

A construct that ends with a mark is sealed if all before the mark is stable under every change
behind the mark (`sealed_bind`). The constructs that end with a bracket are treated here; parts of
tags have a grammar of their own in `Tags`.
-/

namespace LayoutCompletion.Markup.Scan

/--
A way in which two texts that may follow a scan agree.

They agree still if the same is put before both, and they begin alike.
-/
structure Agreement where
  holds : List Char → List Char → Prop
  append : ∀ (t : List Char) {r s : List Char}, holds r s → holds (t ++ r) (t ++ s)
  head : ∀ {r s : List Char}, holds r s → r.head? = s.head?

namespace Agreement

/-- Both texts begin alike, and nothing else is known of them. -/
def onHead : Agreement where
  holds r s := r.head? = s.head?
  append t r s h := by cases t <;> simp [h]
  head h := h

/-- The texts are the same up to an occurrence of the mark. -/
def through (mark : Char) : Agreement where
  holds r s := ∃ u x y, r = u ++ mark :: x ∧ s = u ++ mark :: y
  append t r s h := by
    obtain ⟨u, x, y, rfl, rfl⟩ := h
    exact ⟨t ++ u, x, y, by simp, by simp⟩
  head h := by
    obtain ⟨u, x, y, rfl, rfl⟩ := h
    cases u <;> simp

/-- Texts that agree begin both with the opening or both not. -/
def Decides (A : Agreement) (opening : String) : Prop :=
  ∀ ⦃r s : List Char⦄, A.holds r s → begins opening r = begins opening s

end Agreement

variable {α β : Type} {A : Agreement}

/-- The scan reads the same before every text that agrees with what it left. -/
def Stable (A : Agreement) (p : Scan α) : Prop :=
  ∀ ⦃cs a rest⦄, p cs = .ok (a, rest) →
    ∃ t, cs = t ++ rest ∧ ∀ ⦃other⦄, A.holds rest other → p (t ++ other) = .ok (a, other)

/-- The scan ends with one of the marks and reads the same whatever follows. -/
def Sealed (marks : List Char) (p : Scan α) : Prop :=
  ∀ ⦃cs a rest⦄, p cs = .ok (a, rest) →
    ∃ t, ∃ mark ∈ marks, cs = t ++ mark :: rest ∧
      ∀ other, p (t ++ mark :: other) = .ok (a, other)

/-- The scan reads nothing and looks at nothing. -/
def Still (p : Scan α) : Prop :=
  ∀ ⦃cs a rest⦄, p cs = .ok (a, rest) → cs = rest ∧ ∀ other, p other = .ok (a, other)

/-! ## What an opening depends on -/

/-- An opening in which the mark can only come last is decided by what goes up to the mark. -/
theorem isPrefixOf_through {mark : Char} :
    ∀ (w u x y : List Char), mark ∉ w.dropLast →
      w.isPrefixOf (u ++ mark :: x) = w.isPrefixOf (u ++ mark :: y)
  | [], _, _, _, _ => by simp
  | [c], u, x, y, _ => by cases u <;> simp [List.isPrefixOf]
  | c :: d :: w, [], x, y, h => by
    -- the mark stands where the opening has a character that is not its last
    have hc : c ≠ mark := by
      rintro rfl
      simp at h
    have hfalse : (c == mark) = false := beq_eq_false_iff_ne.mpr hc
    simp only [List.nil_append, List.isPrefixOf_cons_cons, hfalse, Bool.false_and]
  | c :: d :: w, e :: u, x, y, h => by
    have hd : mark ∉ (d :: w).dropLast := fun hm => h (by simp [hm])
    have ih := isPrefixOf_through (d :: w) u x y hd
    simp only [List.cons_append, List.isPrefixOf_cons_cons, ih]

theorem begins_through {mark : Char} {opening : String} (h : mark ∉ opening.toList.dropLast)
    (u x y : List Char) : begins opening (u ++ mark :: x) = begins opening (u ++ mark :: y) :=
  isPrefixOf_through _ u x y h

theorem decides_through {mark : Char} {opening : String} (h : mark ∉ opening.toList.dropLast) :
    (Agreement.through mark).Decides opening := by
  rintro r s ⟨u, x, y, rfl, rfl⟩
  exact begins_through h u x y

/-- An opening of one character is decided by the first character. -/
theorem decides_of_singleton {c : Char} {opening : String} (h : opening.toList = [c]) :
    A.Decides opening := by
  intro r s hrs
  have hhead := A.head hrs
  unfold begins
  rw [h]
  cases r <;> cases s <;> simp_all [List.isPrefixOf]

/-! ## Stable scans -/

theorem stable_pure (a : α) : Stable A (pure a : Scan α) := by
  intro cs b rest h
  rw [pure_eq_ok] at h
  obtain ⟨rfl, rfl⟩ := h
  exact ⟨[], rfl, fun _ _ => by simp⟩

theorem stable_bind {p : Scan α} {f : α → Scan β} (hp : Stable A p) (hf : ∀ a, Stable A (f a)) :
    Stable A (p >>= f) := by
  intro cs b rest h
  obtain ⟨a, mid, hcs, hmid⟩ := bind_eq_ok.mp h
  obtain ⟨t, rfl, ht⟩ := hp hcs
  obtain ⟨u, rfl, hu⟩ := hf a hmid
  refine ⟨t ++ u, by simp, fun other ho => ?_⟩
  rw [List.append_assoc]
  exact bind_eq_ok.mpr ⟨a, u ++ other, ht (A.append u ho), hu ho⟩

theorem stable_fail (cause : Cause) : Stable A (fail cause : Scan α) := by
  intro cs a rest h
  exact absurd h fail_ne_ok

theorem stable_failIf (condition : Bool) (cause : Cause) : Stable A (failIf condition cause) := by
  cases condition
  · exact stable_pure ()
  · exact stable_fail cause

theorem stable_peek : Stable A peek := by
  intro cs a rest h
  rw [peek_eq_ok] at h
  obtain ⟨rfl, rfl⟩ := h
  exact ⟨[], rfl, fun _ ho => by simp [A.head ho]⟩

theorem stable_sees {opening : String} (h : A.Decides opening) : Stable A (sees opening) := by
  intro cs a rest hcs
  rw [sees_eq_ok] at hcs
  obtain ⟨rfl, rfl⟩ := hcs
  exact ⟨[], rfl, fun _ ho => by simp [h ho]⟩

theorem stable_advance (n : Nat) : Stable A (advance n) := by
  intro cs a rest h
  rw [advance_eq_ok] at h
  subst h
  refine ⟨cs.take n, (List.take_append_drop n cs).symm, fun other ho => ?_⟩
  rw [advance_eq_ok]
  by_cases hn : n ≤ cs.length
  · simp [hn]
  · -- nothing is left, so nothing may follow
    have hnil : cs.drop n = [] := List.drop_of_length_le (by omega)
    have hother := A.head ho
    rw [hnil, List.head?_nil, eq_comm, List.head?_eq_none_iff] at hother
    subst hother
    simp

theorem stable_takeWhile (p : Char → Bool) : Stable A (takeWhile p) := by
  intro cs word rest h
  obtain ⟨rfl, hw, hr⟩ := takeWhile_eq_ok.mp h
  exact ⟨word, rfl, fun _ ho => takeWhile_eq_ok.mpr ⟨rfl, hw, hr.of_head? (A.head ho)⟩⟩

theorem stable_spaces : Stable A spaces :=
  stable_takeWhile isSpace

theorem stable_char (want : Char) : Stable A (char want) := by
  intro cs a rest h
  rw [char_eq_ok] at h
  exact ⟨[want], h, fun _ _ => by simp⟩

theorem stable_text (want : String) : Stable A (text want) := by
  intro cs a rest h
  rw [text_eq_ok] at h
  exact ⟨want.toList, h, fun _ _ => by simp⟩

theorem stable_quote : Stable A quote := by
  intro cs q rest h
  obtain ⟨rfl, hq⟩ := quote_eq_ok.mp h
  exact ⟨[q], rfl, fun _ _ => by simp [hq]⟩

theorem stable_someSpace : Stable A someSpace := by
  intro cs word rest h
  obtain ⟨hne, rfl, hw, hr⟩ := someSpace_eq_ok.mp h
  exact ⟨word, rfl, fun _ ho => someSpace_eq_ok.mpr ⟨hne, rfl, hw, hr.of_head? (A.head ho)⟩⟩

theorem stable_name : Stable A name := by
  intro cs word rest h
  obtain ⟨rfl, hw, hr, hstart⟩ := QualifiedName.name_eq_ok.mp h
  exact ⟨word, rfl, fun _ ho =>
    QualifiedName.name_eq_ok.mpr ⟨rfl, hw, hr.of_head? (A.head ho), hstart⟩⟩

theorem stable_optionally {opening : String} {p : Scan Unit} (h : A.Decides opening)
    (hp : Stable A p) : Stable A (optionally opening p) := by
  intro cs a rest hcs
  unfold optionally at hcs
  split at hcs
  · next hb =>
    obtain ⟨tail, rfl⟩ := begins_iff.mp hb
    rw [List.drop_left] at hcs
    obtain ⟨t, rfl, ht⟩ := hp hcs
    refine ⟨opening.toList ++ t, by simp, fun other ho => ?_⟩
    rw [optionally, if_pos (begins_iff.mpr ⟨t ++ other, by simp⟩), List.append_assoc,
      List.drop_left]
    exact ht ho
  · next hb =>
    simp only [Except.ok.injEq, Prod.mk.injEq, true_and] at hcs
    subst hcs
    refine ⟨[], rfl, fun other ho => ?_⟩
    rw [List.nil_append, optionally, if_neg (by rw [← h ho]; exact hb)]

theorem stable_upTo {stop : List Char → Bool}
    (h : ∀ ⦃r s : List Char⦄, A.holds r s → stop r = stop s) : Stable A (upTo stop) := by
  intro cs body rest hcs
  obtain ⟨rfl, hall, hbefore, hrest⟩ := upTo_eq_ok.mp hcs
  refine ⟨body, rfl, fun other ho => upTo_eq_ok.mpr ⟨rfl, hall, ?_, ?_⟩⟩
  · intro u v huv hne
    rw [← h (A.append v ho)]
    exact hbefore u v huv hne
  · rw [← A.head ho, ← h ho]
    exact hrest

theorem still_failIf (condition : Bool) (cause : Cause) : Still (failIf condition cause) := by
  intro cs a rest h
  rw [failIf_eq_ok] at h
  exact ⟨h.2, fun other => by simp [h.1]⟩

theorem still_bind {p : Scan α} {f : α → Scan β} (hp : Still p) (hf : ∀ a, Still (f a)) :
    Still (p >>= f) := by
  intro cs b rest h
  obtain ⟨a, mid, hcs, hmid⟩ := bind_eq_ok.mp h
  obtain ⟨rfl, ha⟩ := hp hcs
  obtain ⟨rfl, hb⟩ := hf a hmid
  exact ⟨rfl, fun other => bind_eq_ok.mpr ⟨a, other, ha other, hb other⟩⟩

/-! ## Sealed scans -/

theorem sealed_char (want : Char) : Sealed [want] (char want) := by
  intro cs a rest h
  rw [char_eq_ok] at h
  exact ⟨[], want, by simp, h, fun _ => by simp⟩

theorem sealed_text {want : String} {w : List Char} {mark : Char} (h : want.toList = w ++ [mark]) :
    Sealed [mark] (text want) := by
  intro cs a rest hcs
  rw [text_eq_ok, h] at hcs
  exact ⟨w, mark, by simp, by simp [hcs], fun _ => by simp [h]⟩

/-- Whatever is read before the mark sees no further than the mark. -/
theorem sealed_bind {marks : List Char} {p : Scan α} {f : α → Scan β}
    (hp : ∀ mark ∈ marks, Stable (.through mark) p) (hf : ∀ a, Sealed marks (f a)) :
    Sealed marks (p >>= f) := by
  intro cs b rest h
  obtain ⟨a, mid, hcs, hmid⟩ := bind_eq_ok.mp h
  -- what the first scan left goes up to the mark, so a change behind the mark is one that it
  -- does not see
  obtain ⟨u, mark, hmark, rfl, hu⟩ := hf a hmid
  obtain ⟨t, rfl, ht⟩ := hp mark hmark hcs
  refine ⟨t ++ u, mark, hmark, by simp, fun other => ?_⟩
  rw [List.append_assoc]
  exact bind_eq_ok.mpr ⟨a, u ++ mark :: other, ht ⟨u, rest, other, rfl, rfl⟩, hu other⟩

/-- A check of what was read may follow the mark. -/
theorem sealed_check {marks : List Char} {p : Scan α} {f : α → Scan β} (hp : Sealed marks p)
    (hf : ∀ a, Still (f a)) : Sealed marks (p >>= f) := by
  intro cs b rest h
  obtain ⟨a, mid, hcs, hmid⟩ := bind_eq_ok.mp h
  obtain ⟨rfl, hb⟩ := hf a hmid
  obtain ⟨t, mark, hmark, rfl, ht⟩ := hp hcs
  exact ⟨t, mark, hmark, rfl, fun other => bind_eq_ok.mpr ⟨a, other, ht other, hb other⟩⟩

end LayoutCompletion.Markup.Scan
