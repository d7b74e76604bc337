import LayoutCompletion.Matching
import LayoutCompletion.Proofs.Text.Humps
import Mathlib.Data.List.Forall2

/-!
# Matching less of what was typed

A candidate that matches a typed text matches every beginning of it (`matches_of_append`). For the
humps this rests on where a name is cut (`exists_humps_append`), and on the search for words: it
finds some whenever there are any (`matchHumps_iff_sublistForall₂`), and fewer and shorter humps
leave more of them. A candidate that begins with the typed text, or is the typed text, begins with
less of it as well (`camelHumps_classify_append`).
-/

namespace LayoutCompletion

namespace Text

theorem utf8Size_toLower (c : Char) : c.toLower.utf8Size = c.utf8Size := by
  unfold Char.toLower
  split
  · next h =>
    obtain ⟨hlow, hhigh⟩ := h
    simp only [Char.utf8Size]
    grind
  · rfl

/-- Texts that are equal if case is ignored have the same number of bytes. -/
theorem utf8Length_of_map_toLower {as bs : List Char}
    (h : as.map Char.toLower = bs.map Char.toLower) : utf8Length as = utf8Length bs := by
  have hmap : ∀ cs : List Char, utf8Length (cs.map Char.toLower) = utf8Length cs := by
    intro cs
    induction cs with
    | nil => rfl
    | cons c cs ih => rw [List.map_cons, utf8Length_cons, utf8Length_cons, utf8Size_toLower, ih]
  rw [← hmap as, h, hmap]

theorem toLower_eq_colon {c : Char} : c.toLower = ':' ↔ c = ':' := by
  unfold Char.toLower
  split
  · next h =>
    obtain ⟨hlow, hhigh⟩ := h
    simp only [Char.ext_iff]
    grind
  · rfl

theorem colon_mem_map_toLower {cs : List Char} : ':' ∈ cs.map Char.toLower ↔ ':' ∈ cs := by
  simp [List.mem_map, toLower_eq_colon]

end Text

namespace Matching

open Text

variable {candidate typed more : List Char}

theorem beginsIgnoringCase_iff :
    beginsIgnoringCase candidate typed = true ↔
      ∃ head tail, candidate = head ++ tail ∧
        head.map Char.toLower = typed.map Char.toLower := by
  unfold beginsIgnoringCase
  constructor
  · intro h
    split at h
    · simp at h
    · next head tail hsplit =>
      exact ⟨head, tail, (append_of_splitAtByte? hsplit).1, of_decide_eq_true h⟩
  · rintro ⟨head, tail, rfl, hlower⟩
    rw [← utf8Length_of_map_toLower hlower, splitAtByte?_append]
    exact decide_eq_true hlower

theorem beginsIgnoringCase_of_append (h : beginsIgnoringCase candidate (typed ++ more) = true) :
    beginsIgnoringCase candidate typed = true := by
  obtain ⟨head, tail, rfl, hlower⟩ := beginsIgnoringCase_iff.mp h
  rw [List.map_append, List.map_eq_append_iff] at hlower
  obtain ⟨front, back, rfl, hfront, -⟩ := hlower
  exact beginsIgnoringCase_iff.mpr ⟨front, back ++ tail, List.append_assoc _ _ _, hfront⟩

/-! ## Rows of humps -/

theorem matchHumps_cons_cons (word hump : List Char) (words rest : List (List Char)) :
    matchHumps (word :: words) (hump :: rest) =
      if hump <+: word then matchHumps words rest else matchHumps words (hump :: rest) := by
  rw [matchHumps, List.dropWhile_cons]
  by_cases h : hump <+: word
  · rw [if_pos h, List.isPrefixOf_iff_prefix.mpr h]
    rfl
  · rw [if_neg h, Bool.eq_false_iff.mpr (mt List.isPrefixOf_iff_prefix.mp h), matchHumps]
    rfl

/-- Those behind the first are found where all of them are. -/
theorem sublistForall₂_of_cons {α β : Type} {R : α → β → Prop} {a : α} {as : List α} {bs : List β}
    (h : List.SublistForall₂ R (a :: as) bs) : List.SublistForall₂ R as bs := by
  generalize hall : a :: as = all at h
  induction h with
  | nil => cases hall
  | cons _ h _ =>
    obtain ⟨-, rfl⟩ := List.cons.inj hall
    exact h.cons_right
  | cons_right _ ih => exact (ih hall).cons_right

/-- Every hump may take the first word that it can: if some words in order are begun by the humps,
then so are words found in this way. -/
theorem matchHumps_iff_sublistForall₂ {words typed : List (List Char)} :
    matchHumps words typed = true ↔ List.SublistForall₂ (· <+: ·) typed words := by
  induction words generalizing typed with
  | nil =>
    cases typed with
    | nil => exact ⟨fun _ => .nil, fun _ => by rw [matchHumps]⟩
    | cons hump rest => exact ⟨fun h => by simp [matchHumps] at h, fun h => by cases h⟩
  | cons word words ih =>
    cases typed with
    | nil => exact ⟨fun _ => .nil, fun _ => by rw [matchHumps]⟩
    | cons hump rest =>
      rw [matchHumps_cons_cons]
      split
      · next hbegins =>
        rw [ih]
        constructor
        · exact List.SublistForall₂.cons hbegins
        · rintro (_ | ⟨-, hrest⟩ | hlater)
          · exact hrest
          · -- the word that was taken instead is free for none of the humps behind
            exact sublistForall₂_of_cons hlater
      · next hnot =>
        rw [ih]
        constructor
        · exact List.SublistForall₂.cons_right
        · rintro (_ | ⟨hbegins, -⟩ | hlater)
          · exact absurd hbegins hnot
          · exact hlater

/-- Humps are found if there were more of them, and the last one was longer. -/
theorem matchHumps_of_append {words front : List (List Char)} {hump longer : List Char}
    {rest : List (List Char)} (h : matchHumps words (front ++ (hump ++ longer) :: rest) = true) :
    matchHumps words (front ++ [hump]) = true := by
  rw [matchHumps_iff_sublistForall₂] at h ⊢
  have hless : List.SublistForall₂ (· <+: ·) (front ++ [hump])
      (front ++ (hump ++ longer) :: rest) := by
    refine List.sublistForall₂_iff.mpr ⟨front ++ [hump ++ longer], ?_, ?_⟩
    · exact List.rel_append (List.forall₂_same.mpr fun _ _ => List.prefix_rfl)
        (.cons (List.prefix_append hump longer) .nil)
    · exact (List.singleton_sublist.mpr List.mem_cons_self).append_left front
  have : IsTrans (List Char) (· <+: ·) := ⟨fun _ _ _ => List.IsPrefix.trans⟩
  exact List.SublistForall₂.is_trans.trans _ _ _ hless h

theorem humpsMatch_eq_true :
    humpsMatch candidate typed = true ↔ ∃ word words hump rest, humps candidate = word :: words ∧
      humps typed = hump :: rest ∧ hump <+: word ∧ matchHumps words rest = true := by
  unfold humpsMatch
  cases humps candidate with
  | nil => simp
  | cons word words =>
    cases humps typed with
    | nil => simp
    | cons hump rest =>
      simp only [List.cons.injEq, Bool.and_eq_true, List.isPrefixOf_iff_prefix]
      constructor
      · rintro ⟨hbegins, hmatch⟩
        exact ⟨word, words, hump, rest, ⟨rfl, rfl⟩, ⟨rfl, rfl⟩, hbegins, hmatch⟩
      · rintro ⟨_, _, _, _, ⟨rfl, rfl⟩, ⟨rfl, rfl⟩, hbegins, hmatch⟩
        exact ⟨hbegins, hmatch⟩

theorem humpsMatch_of_append (hne : typed ≠ []) (h : humpsMatch candidate (typed ++ more) = true) :
    humpsMatch candidate typed = true := by
  obtain ⟨front, last, longer, after, hcut, hmore⟩ := exists_humps_append hne more
  obtain ⟨word, words, hump, rest, hwords, hhumps, hbegins, hmatch⟩ := humpsMatch_eq_true.mp h
  rw [hmore] at hhumps
  cases front with
  | nil =>
    obtain ⟨rfl, rfl⟩ := List.cons.inj hhumps
    exact humpsMatch_eq_true.mpr ⟨word, words, last, [], hwords, hcut,
      (List.prefix_append last longer).trans hbegins, by rw [matchHumps]⟩
  | cons first front =>
    obtain ⟨rfl, rfl⟩ := List.cons.inj hhumps
    exact humpsMatch_eq_true.mpr
      ⟨word, words, first, front ++ [last], hwords, hcut, hbegins, matchHumps_of_append hmatch⟩

/-! ## Qualities -/

/-- When a candidate matches. -/
theorem classifyChars_ne_unmatched :
    classifyChars candidate typed ≠ .unmatched ↔
      typed = [] ∨ typed <+: candidate ∨ beginsIgnoringCase candidate typed = true ∨
        humpsMatch candidate typed = true := by
  unfold classifyChars
  rw [← List.isPrefixOf_iff_prefix]
  repeat' split
  all_goals simp_all

/-- When a candidate begins with the typed text without being that text. -/
theorem classifyChars_eq_leading :
    classifyChars candidate typed = .leading ↔
      typed <+: candidate ∧ (typed = [] ∨ candidate ≠ typed) := by
  unfold classifyChars
  rw [← List.isPrefixOf_iff_prefix]
  repeat' split
  all_goals simp_all

/-- When a candidate is the typed text. -/
theorem classifyChars_eq_exact :
    classifyChars candidate typed = .exact ↔ typed ≠ [] ∧ candidate = typed := by
  unfold classifyChars
  repeat' split
  all_goals simp_all

/-- What matches begins, if case is ignored, with the first hump that was typed. -/
theorem hump_prefix_of_matches {hump : List Char} {rest : List (List Char)}
    (h : classifyChars candidate typed ≠ .unmatched) (hhumps : humps typed = hump :: rest) :
    hump.map Char.toLower <+: candidate.map Char.toLower := by
  have hbegins : hump <+: typed := by
    rw [← flatten_humps typed, hhumps, List.flatten_cons]
    exact List.prefix_append _ _
  rcases classifyChars_ne_unmatched.mp h with rfl | hprefix | hcase | hmatch
  · cases hhumps
  · exact (hbegins.trans hprefix).map _
  · obtain ⟨head, tail, rfl, hlower⟩ := beginsIgnoringCase_iff.mp hcase
    rw [List.map_append, hlower]
    exact (hbegins.map _).trans (List.prefix_append _ _)
  · obtain ⟨word, words, _, _, hwords, hsame, hword, -⟩ := humpsMatch_eq_true.mp hmatch
    obtain ⟨rfl, -⟩ := List.cons.inj (hhumps.symm.trans hsame)
    have hcandidate : word <+: candidate := by
      rw [← flatten_humps candidate, hwords, List.flatten_cons]
      exact List.prefix_append _ _
    exact (hword.trans hcandidate).map _

theorem classify_of_beginning {candidate typed : String} (h : typed.toList <+: candidate.toList) :
    classify candidate typed ≠ .unmatched :=
  classifyChars_ne_unmatched.mpr (Or.inr (Or.inl h))

theorem classifyChars_ne_unmatched_of_append
    (h : classifyChars candidate (typed ++ more) ≠ .unmatched) :
    classifyChars candidate typed ≠ .unmatched := by
  rw [classifyChars_ne_unmatched] at h ⊢
  by_cases hne : typed = []
  · exact Or.inl hne
  · rcases h with hnil | hprefix | hcase | hhumps
    · exact Or.inl (List.append_eq_nil_iff.mp hnil).1
    · exact Or.inr (Or.inl ((List.prefix_append _ _).trans hprefix))
    · exact Or.inr (Or.inr (Or.inl (beginsIgnoringCase_of_append hcase)))
    · exact Or.inr (Or.inr (Or.inr (humpsMatch_of_append hne hhumps)))

/-- A candidate that matches a typed text matches what was typed before. -/
theorem matches_of_append {candidate : String}
    (h : classify candidate (String.ofList (typed ++ more)) ≠ .unmatched) :
    classify candidate (String.ofList typed) ≠ .unmatched := by
  unfold classify at h ⊢
  rw [String.toList_ofList] at h ⊢
  exact classifyChars_ne_unmatched_of_append h

theorem camelHumps_classify (candidate typed : String) :
    Matcher.camelHumps.classify candidate typed =
      classifyChars candidate.toList typed.toList :=
  rfl

theorem classifyChars_leading_of_append
    (h : classifyChars candidate (typed ++ more) = .leading) :
    classifyChars candidate typed = .leading := by
  rw [classifyChars_eq_leading] at h ⊢
  obtain ⟨hbegins, hne⟩ := h
  refine ⟨(List.prefix_append _ _).trans hbegins, or_iff_not_imp_left.mpr fun htyped heq => ?_⟩
  -- the candidate would be the shorter text, so there would be nothing more
  subst heq
  obtain ⟨rest, hrest⟩ := hbegins
  rw [List.append_assoc, List.append_right_eq_self, List.append_eq_nil_iff] at hrest
  obtain ⟨rfl, -⟩ := hrest
  rw [List.append_nil] at hne
  exact hne.elim htyped fun h => h rfl

theorem classifyChars_leading_of_exact
    (h : classifyChars candidate (typed ++ more) = .exact) (hmore : more ≠ []) :
    classifyChars candidate typed = .leading := by
  rw [classifyChars_eq_exact] at h
  obtain ⟨-, rfl⟩ := h
  exact classifyChars_eq_leading.mpr
    ⟨List.prefix_append _ _, Or.inr fun heq => hmore (List.append_right_eq_self.mp heq)⟩

end Matching

/--
**Typing less keeps a match.**

What matches a typed text matches every beginning of it, and what begins with the text or is the
text begins with every part of it that is shorter.
-/
theorem camelHumps_classify_append (candidate typed more : String) :
    (Matcher.camelHumps.classify candidate (typed ++ more) ≠ .unmatched →
        Matcher.camelHumps.classify candidate typed ≠ .unmatched) ∧
      (Matcher.camelHumps.classify candidate (typed ++ more) = .leading →
        Matcher.camelHumps.classify candidate typed = .leading) ∧
      (Matcher.camelHumps.classify candidate (typed ++ more) = .exact → more ≠ "" →
        Matcher.camelHumps.classify candidate typed = .leading) := by
  rw [Matching.camelHumps_classify, Matching.camelHumps_classify, String.toList_append]
  refine ⟨Matching.classifyChars_ne_unmatched_of_append, Matching.classifyChars_leading_of_append,
    fun h hmore => Matching.classifyChars_leading_of_exact h ?_⟩
  exact mt String.toList_eq_nil_iff.mp hmore

/-- The text that matches by its humps is cut inside a hump and behind a separator; so is one that
the candidate begins with, and the candidate itself. -/
theorem camelHumps_classify_append_layout :
    Matcher.camelHumps.classify "layout_marginStart" ("layout_mS" ++ "ta") = .loose ∧
      Matcher.camelHumps.classify "layout_marginStart" "layout_mS" ≠ .unmatched ∧
      Matcher.camelHumps.classify "layout_marginStart" ("layout_" ++ "mar") = .leading ∧
      Matcher.camelHumps.classify "layout_marginStart" "layout_" = .leading ∧
      Matcher.camelHumps.classify "layout_marginStart" ("layout_m" ++ "arginStart") = .exact ∧
      Matcher.camelHumps.classify "layout_marginStart" "layout_m" = .leading := by
  have hloose :
      Matcher.camelHumps.classify "layout_marginStart" ("layout_mS" ++ "ta") = .loose := by
    decide +kernel
  have hleading : Matcher.camelHumps.classify "layout_marginStart" ("layout_" ++ "mar") =
      .leading := by
    decide +kernel
  have hexact : Matcher.camelHumps.classify "layout_marginStart" ("layout_m" ++ "arginStart") =
      .exact := by
    decide +kernel
  refine ⟨hloose, ?_, hleading, ?_, hexact, ?_⟩
  · exact (camelHumps_classify_append _ _ "ta").1 (by rw [hloose]; decide)
  · exact (camelHumps_classify_append _ _ "mar").2.1 hleading
  · exact (camelHumps_classify_append _ _ "arginStart").2.2 hexact (by decide)

end LayoutCompletion
