/-!
# Where a word stands in a text

A word does not reach across a character that it has not (`infix_of_append_cons`). If its first
character is in it only once, no two places at which it stands overlap; so in a text that has the
word between two parts without it, the word stands nowhere else (`eq_of_append_word`).
-/

namespace LayoutCompletion.Text

variable {c : Char} {word front back head behind as bs : List Char}

theorem infix_of_append_cons (hc : c ∉ word) (h : word <:+: as ++ c :: bs) :
    word <:+: as ∨ word <:+: bs := by
  obtain ⟨front, back, h⟩ := h
  rw [List.append_assoc] at h
  rcases List.append_eq_append_iff.mp h with ⟨left, rfl, hrest⟩ | ⟨extra, rfl, hrest⟩
  · -- the word begins in front of the character
    rcases List.append_eq_append_iff.mp hrest with ⟨right, rfl, -⟩ | ⟨right, rfl, hcons⟩
    · exact Or.inl ⟨front, right, List.append_assoc _ _ _⟩
    · cases right with
      | nil => exact Or.inl ⟨front, [], by simp⟩
      | cons d right =>
        obtain ⟨rfl, -⟩ := List.cons.inj hcons
        simp at hc
  · cases extra with
    | nil =>
      cases word with
      | nil => exact Or.inl List.nil_infix
      | cons d word =>
        obtain ⟨rfl, -⟩ := List.cons.inj hrest
        simp at hc
    | cons d extra =>
      obtain ⟨-, rfl⟩ := List.cons.inj hrest
      exact Or.inr ⟨extra, back, List.append_assoc _ _ _⟩

/-- Nor does a word reach across a row of such characters. -/
theorem infix_of_append_append {gap : List Char} (hgap : ∀ c ∈ gap, c ∉ word) (hne : gap ≠ [])
    (h : word <:+: as ++ (gap ++ bs)) : word <:+: as ∨ word <:+: bs := by
  induction gap generalizing as with
  | nil => exact absurd rfl hne
  | cons c gap ih =>
    rcases infix_of_append_cons (hgap c List.mem_cons_self) h with has | hrest
    · exact Or.inl has
    · cases gap with
      | nil => exact Or.inr hrest
      | cons d gap =>
        have hgap' : ∀ c ∈ d :: gap, c ∉ word := fun c hc => hgap c (.tail _ hc)
        have hrest' : word <:+: [] ++ (d :: gap ++ bs) := hrest
        rcases ih hgap' (List.cons_ne_nil _ _) hrest' with hnil | hbs
        · rw [List.infix_nil.mp hnil]
          exact Or.inl List.nil_infix
        · exact Or.inr hbs

/-- A word that does not begin again in itself ends before it stands again. -/
theorem exists_of_append_eq_append (hc : c ∉ word) {extra : List Char} (hne : extra ≠ [])
    (h : c :: word ++ as = extra ++ (c :: word ++ bs)) :
    ∃ more, extra = c :: word ++ more ∧ as = more ++ (c :: word ++ bs) := by
  obtain ⟨d, extra, rfl⟩ := List.exists_cons_of_ne_nil hne
  obtain rfl : c = d := (List.cons.inj h).1
  have htail : word ++ as = extra ++ (c :: word ++ bs) := (List.cons.inj h).2
  rcases List.append_eq_append_iff.mp htail with ⟨more, rfl, has⟩ | ⟨right, rfl, hright⟩
  · exact ⟨more, rfl, has⟩
  · cases right with
    | nil => exact ⟨[], by simp, hright.symm⟩
    | cons d right =>
      obtain ⟨rfl, -⟩ := List.cons.inj hright
      simp at hc

/-- The word stands only where it was put between two parts that have it not. -/
theorem eq_of_append_word (hc : c ∉ word) (hhead : ¬(c :: word) <:+: head)
    (hbehind : ¬(c :: word) <:+: behind)
    (h : front ++ (c :: word ++ back) = head ++ (c :: word ++ behind)) : front = head := by
  refine Decidable.byContradiction fun hne => ?_
  rcases List.append_eq_append_iff.mp h with ⟨extra, rfl, hrest⟩ | ⟨extra, rfl, hrest⟩
  · have hextra : extra ≠ [] := fun hnil => hne (by rw [hnil, List.append_nil])
    obtain ⟨more, rfl, -⟩ := exists_of_append_eq_append hc hextra hrest
    exact hhead ⟨front, more, List.append_assoc _ _ _⟩
  · have hextra : extra ≠ [] := fun hnil => hne (by rw [hnil, List.append_nil])
    obtain ⟨more, -, rfl⟩ := exists_of_append_eq_append hc hextra hrest
    exact hbehind ⟨more, back, List.append_assoc _ _ _⟩

end LayoutCompletion.Text
