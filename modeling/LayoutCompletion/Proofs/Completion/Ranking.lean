import LayoutCompletion.Completion.Ranking

/-!
# The order of candidates

`Candidate.Before` says in words of its own which candidate stands before another: the better one,
then the one with the lesser label, then the one with the lesser package. The comparison that the
list is sorted with is a strict total order on these three (`order_eq_lt`, `order_eq_eq`).

The pass that drops repetitions looks at neighbours only. In a sorted list in which the same
attributes are exactly those that the order does not tell apart, this is enough: what is left
increases strictly (`pairwise_before_dropRepeats`).
-/

namespace LayoutCompletion

namespace Candidate

variable {a b c : Candidate}

/-- The candidate stands before the other one: it is better, or as good with a lesser label, or as
good with the same label and of a lesser package. -/
def Before (a b : Candidate) : Prop :=
  b.quality.rank < a.quality.rank ∨
    (a.quality = b.quality ∧
      (a.label < b.label ∨ (a.label = b.label ∧ a.package.text < b.package.text)))

/-- The order does not tell the candidates apart. -/
def Ties (a b : Candidate) : Prop :=
  a.quality = b.quality ∧ a.label = b.label ∧ a.package = b.package

theorem rank_inj {p q : Quality} : p.rank = q.rank ↔ p = q := by
  cases p <;> cases q <;> simp [Quality.rank]

theorem compare_eq_lt {s t : String} : compare s t = .lt ↔ s < t := by
  show compareOfLessAndEq s t = .lt ↔ s < t
  unfold compareOfLessAndEq
  split
  · next h => simp [h]
  · next h => split <;> simp [h]

theorem order_eq_lt : order a b = .lt ↔ Before a b := by
  simp only [order, Ordering.then_eq_lt, Nat.compare_eq_lt, rank_inj, compare_eq_lt,
    Std.LawfulEqOrd.compare_eq_iff_eq, Before, eq_comm (a := b.quality)]

theorem order_eq_eq : order a b = .eq ↔ Ties a b := by
  have htext : a.package.text = b.package.text ↔ a.package = b.package := by
    cases a.package
    cases b.package
    simp
  simp only [order, Ordering.then_eq_eq, rank_inj, Std.LawfulEqOrd.compare_eq_iff_eq, htext, Ties,
    eq_comm (a := b.quality)]

/-- The order is made of three orders, the first turned around. -/
instance transCmp_order : Std.TransCmp order :=
  inferInstanceAs (Std.TransCmp (compareLex
    (fun a b : Candidate => compareOn (fun c : Candidate => c.quality.rank) b a)
    (compareLex (compareOn Candidate.label) (compareOn fun c : Candidate => c.package.text))))

theorem precedes_iff : precedes a b = true ↔ ¬Before b a := by
  rw [precedes, ← order_eq_lt, ← Std.OrientedCmp.gt_iff_lt]
  cases order a b <;> simp

theorem precedes_trans (h : precedes a b = true) (h' : precedes b c = true) :
    precedes a c = true :=
  Std.TransCmp.isLE_trans h h'

theorem precedes_total (a b : Candidate) : (precedes a b || precedes b a) = true := by
  have hswap : order b a = (order a b).swap := Std.OrientedCmp.eq_swap
  rw [precedes, precedes, hswap]
  cases order a b <;> rfl

theorem Before.trans (h : Before a b) (h' : Before b c) : Before a c :=
  order_eq_lt.mp (Std.TransCmp.lt_trans (order_eq_lt.mpr h) (order_eq_lt.mpr h'))

theorem Ties.before (h : Ties a b) (h' : Before b c) : Before a c :=
  order_eq_lt.mp (Std.TransCmp.lt_of_eq_of_lt (order_eq_eq.mpr h) (order_eq_lt.mpr h'))

theorem Before.not_ties (h : Before a b) : ¬Ties a b := by
  intro htie
  have := order_eq_lt.mpr h
  rw [order_eq_eq.mpr htie] at this
  cases this

/-- Of two candidates that the order tells apart, the one that may stand before the other does. -/
theorem before_of_precedes (h : precedes a b = true) (hne : ¬Ties a b) : Before a b := by
  rw [← order_eq_eq] at hne
  rw [← order_eq_lt]
  unfold precedes at h
  cases horder : order a b with
  | lt => rfl
  | eq => exact absurd horder hne
  | gt =>
    rw [horder] at h
    cases h

theorem sameAttribute_iff :
    sameAttribute a b = true ↔ a.space = b.space ∧ a.name = b.name ∧ a.package = b.package := by
  simp [sameAttribute, and_assoc]

theorem sameAttribute_self (c : Candidate) : c.sameAttribute c = true :=
  sameAttribute_iff.mpr ⟨rfl, rfl, rfl⟩

end Candidate

open Candidate

/-! ## Dropping repetitions -/

theorem dropRepeats_sublist (l : List Candidate) : (dropRepeats l).Sublist l := by
  induction l with
  | nil => exact List.Sublist.refl _
  | cons c cs ih =>
    rw [dropRepeats]
    split
    · exact List.singleton_sublist.mpr List.mem_cons_self
    · next next rest heq =>
      rw [heq] at ih
      split
      · exact List.Sublist.cons_cons c ((List.sublist_cons_self next rest).trans ih)
      · exact List.Sublist.cons_cons c ih

/-- Whatever was dropped, one that inserts the same attribute is left. -/
theorem exists_mem_dropRepeats {l : List Candidate} {c : Candidate} (h : c ∈ l) :
    ∃ k ∈ dropRepeats l, k.sameAttribute c = true := by
  induction l with
  | nil => simp at h
  | cons d ds ih =>
    rw [dropRepeats]
    rcases List.mem_cons.mp h with rfl | h
    · split
      · exact ⟨c, List.mem_cons_self, sameAttribute_self c⟩
      · split <;> exact ⟨c, List.mem_cons_self, sameAttribute_self c⟩
    · obtain ⟨k, hk, hsame⟩ := ih h
      split
      · next heq =>
        rw [heq] at hk
        simp at hk
      · next next rest heq =>
        rw [heq] at hk
        split
        · next hnext =>
          -- the one that is dropped inserts the same as the one that stays in front of it
          rcases List.mem_cons.mp hk with rfl | hk
          · rw [sameAttribute_iff] at hnext hsame
            refine ⟨d, List.mem_cons_self, sameAttribute_iff.mpr ?_⟩
            rw [← hnext.1, ← hnext.2.1, ← hnext.2.2]
            exact hsame
          · exact ⟨k, List.mem_cons_of_mem _ hk, hsame⟩
        · exact ⟨k, List.mem_cons_of_mem _ hk, hsame⟩

/-- In a sorted list, dropping neighbours that repeat drops all repetitions. -/
theorem pairwise_before_dropRepeats {l : List Candidate}
    (hsorted : l.Pairwise fun a b => precedes a b = true)
    (hties : ∀ a ∈ l, ∀ b ∈ l, a.sameAttribute b = true ↔ Ties a b) :
    (dropRepeats l).Pairwise Before := by
  induction l with
  | nil => exact List.Pairwise.nil
  | cons c cs ih =>
    obtain ⟨hc, hcs⟩ := List.pairwise_cons.mp hsorted
    have htail := ih hcs fun a ha b hb =>
      hties a (List.mem_cons_of_mem _ ha) b (List.mem_cons_of_mem _ hb)
    have hsub := dropRepeats_sublist cs
    rw [dropRepeats]
    split
    · exact List.pairwise_singleton _ _
    · next next rest heq =>
      rw [heq] at htail hsub
      have hnext : next ∈ cs := hsub.subset List.mem_cons_self
      obtain ⟨hfirst, hrest⟩ := List.pairwise_cons.mp htail
      have htie := hties next (List.mem_cons_of_mem _ hnext) c List.mem_cons_self
      split
      · next hsame =>
        -- the new first one ties with the one it takes the place of
        obtain ⟨hq, hl, hp⟩ := htie.mp hsame
        exact List.pairwise_cons.mpr
          ⟨fun k hk => Ties.before ⟨hq.symm, hl.symm, hp.symm⟩ (hfirst k hk), hrest⟩
      · next hsame =>
        have hbefore : Before c next := by
          refine before_of_precedes (hc next hnext) fun ⟨hq, hl, hp⟩ => hsame ?_
          exact htie.mpr ⟨hq.symm, hl.symm, hp.symm⟩
        refine List.pairwise_cons.mpr ⟨fun k hk => ?_, htail⟩
        rcases List.mem_cons.mp hk with rfl | hk
        · exact hbefore
        · exact hbefore.trans (hfirst k hk)

/-! ## The list -/

theorem pairwise_precedes_sort (l : List Candidate) :
    (l.mergeSort precedes).Pairwise fun a b => precedes a b = true :=
  List.pairwise_mergeSort (fun a b c => precedes_trans (a := a) (b := b) (c := c)) precedes_total l

/-- The list is the beginning of the ranked candidates, and tells whether it is all of them. -/
theorem CompletionList.ofCandidates_eq (settings : CompletionSettings)
    (attributes : List Attribute) (current : Nat) (candidates : List Candidate) :
    CompletionList.ofCandidates settings attributes current candidates =
      ⟨(ranked settings (withoutPresent settings attributes current candidates)).take
          settings.limit,
        decide (settings.limit <
          (ranked settings (withoutPresent settings attributes current candidates)).length)⟩ := by
  unfold ofCandidates
  rw [BoundedList.extend_eq _ _ (Nat.zero_le _)]
  have hdropped (n : Nat) : 0 < 0 + (n - (settings.limit - 0)) ↔ settings.limit < n := by omega
  simp only [BoundedList.empty, BoundedList.overflowed, List.length_nil, List.nil_append,
    Nat.sub_zero] at hdropped ⊢
  simp only [hdropped]

end LayoutCompletion
