import LayoutCompletion.Proofs.Matching
import Mathlib.Data.List.NodupEquivFin
import Mathlib.Order.Fin.Tuple

/-!
# Humps and the words that they begin

`Assigns` says what a match by humps is, without a word on how it is found: each hump of the typed
text is sent to a hump of the candidate that it begins, later ones to later ones, the first to the
first. The search goes through the candidate once and never takes a word back, and still finds a
match whenever there is one (`humpsMatch_iff_assigns`).
-/

namespace LayoutCompletion.Matching

open Text

/-- Every piece is sent to a word that it begins, later pieces to later words and the first to the
first. -/
structure Assigns (typed words : List (List Char)) (place : Fin typed.length → Fin words.length) :
    Prop where
  increasing : StrictMono place
  first : ∀ i, i.val = 0 → (place i).val = 0
  begins : ∀ i, typed.get i <+: words.get (place i)

variable {candidate typed word hump : List Char} {words rest : List (List Char)}

/-- A row is sent to a part of another one by sending its places. -/
theorem sublistForall₂_iff_exists_strictMono {α β : Type} {R : α → β → Prop} {as : List α}
    {bs : List β} : List.SublistForall₂ R as bs ↔
      ∃ place : Fin as.length → Fin bs.length, StrictMono place ∧
        ∀ i, R (as.get i) (bs.get (place i)) := by
  rw [List.sublistForall₂_iff]
  constructor
  · rintro ⟨taken, hR, hsub⟩
    obtain ⟨f, hf⟩ := List.sublist_iff_exists_fin_orderEmbedding_get_eq.mp hsub
    refine ⟨fun i => f (i.cast hR.length_eq), fun i j hij => f.strictMono hij, fun i => ?_⟩
    rw [← hf]
    exact hR.get i.isLt (hR.length_eq ▸ i.isLt)
  · rintro ⟨place, hplace, hR⟩
    have hlength : (List.ofFn fun i => bs.get (place i)).length = as.length := List.length_ofFn
    refine ⟨List.ofFn fun i => bs.get (place i), ?_, ?_⟩
    · refine List.forall₂_iff_get.mpr ⟨hlength.symm, fun i hi _ => ?_⟩
      rw [List.get_ofFn]
      exact hR ⟨i, hi⟩
    · refine List.sublist_iff_exists_fin_orderEmbedding_get_eq.mpr
        ⟨.ofStrictMono (fun i => place (i.cast hlength)) fun i j hij => hplace hij, fun i => ?_⟩
      rw [List.get_ofFn]
      rfl

/-- The first piece begins the first word, and the others are sent to words behind it. -/
theorem exists_assigns_cons :
    (∃ place, Assigns (hump :: rest) (word :: words) place) ↔
      hump <+: word ∧ List.SublistForall₂ (· <+: ·) rest words := by
  rw [sublistForall₂_iff_exists_strictMono]
  constructor
  · rintro ⟨place, hplace, hfirst, hbegins⟩
    have hzero : place 0 = 0 := Fin.ext (hfirst 0 rfl)
    have hbehind (i : Fin rest.length) : ∃ j : Fin words.length, j.succ = place i.succ := by
      refine Fin.exists_succ_eq.mpr (Fin.pos_iff_ne_zero.mp ?_)
      rw [← hzero]
      exact hplace (Fin.succ_pos i)
    choose behind hbehind using hbehind
    refine ⟨?_, behind, fun i j hij => ?_, fun i => ?_⟩
    · have hfirst := hbegins 0
      rw [hzero] at hfirst
      exact hfirst
    · rw [← Fin.succ_lt_succ_iff, hbehind, hbehind]
      exact hplace (Fin.succ_lt_succ_iff.mpr hij)
    · have hlater := hbegins i.succ
      rw [← hbehind i] at hlater
      exact hlater
  · rintro ⟨hbegins, behind, hbehind, hrest⟩
    refine ⟨Fin.cons 0 fun i => (behind i).succ, ?_, ?_, Fin.cases hbegins hrest⟩
    · refine Fin.strictMono_cons.mpr ⟨fun i => Fin.succ_pos _, fun i j hij => ?_⟩
      exact Fin.succ_lt_succ_iff.mpr (hbehind hij)
    · rintro ⟨_, _⟩ rfl
      rfl

theorem humps_eq_nil {cs : List Char} : humps cs = [] ↔ cs = [] := by
  rw [eq_comm, ← cutsIntoHumps_iff]
  constructor
  · intro h
    exact h.flatten.symm
  · rintro rfl
    exact cutsIntoHumps_nil.mpr rfl

/--
**The search for humps misses no match.**

Every text is cut into humps in one way. A candidate matches a text that is not empty by its humps
exactly if the humps of the text can be sent to humps of the candidate.
-/
theorem humpsMatch_iff_assigns (text candidate typed : List Char) :
    (∀ pieces, CutsIntoHumps text pieces ↔ pieces = humps text) ∧
      (humpsMatch candidate typed = true ↔
        typed ≠ [] ∧ ∃ place, Assigns (humps typed) (humps candidate) place) := by
  refine ⟨fun _ => cutsIntoHumps_iff, ?_⟩
  rw [Ne, ← humps_eq_nil]
  unfold humpsMatch
  cases humps typed with
  | nil => cases humps candidate <;> simp
  | cons hump rest =>
    cases humps candidate with
    | nil =>
      refine ⟨Bool.noConfusion, ?_⟩
      rintro ⟨-, place, -⟩
      exact (place 0).elim0
    | cons word words =>
      rw [exists_assigns_cons, ← matchHumps_iff_sublistForall₂]
      simp [List.isPrefixOf_iff_prefix]

/-- A word is passed over, and of two that would do the first is taken. -/
example : humpsMatch "layout_marginStartSize".toList "layout_S".toList = true := by
  decide +kernel

end LayoutCompletion.Matching
