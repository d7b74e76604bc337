/-!
# Bounded lists

A list that takes items up to a limit and counts those that it had to refuse.
-/

namespace LayoutCompletion

/-- At most `limit` items, and the number of items that found no room. -/
structure BoundedList (α : Type) where
  items : List α
  limit : Nat
  dropped : Nat
deriving DecidableEq, Repr

namespace BoundedList

variable {α : Type}

/-- No items yet. -/
def empty (limit : Nat) : BoundedList α := ⟨[], limit, 0⟩

/-- Is there room for one more item? -/
def hasSpace (l : BoundedList α) : Bool := l.items.length < l.limit

/-- Did an item find no room? -/
def overflowed (l : BoundedList α) : Bool := 0 < l.dropped

/-- Takes an item, or counts it as dropped. -/
def push (l : BoundedList α) (a : α) : BoundedList α :=
  if l.hasSpace then { l with items := l.items ++ [a] } else { l with dropped := l.dropped + 1 }

/-- Takes items one after the other. -/
def extend (l : BoundedList α) (as : List α) : BoundedList α :=
  as.foldl push l

/-- Pushing onto an empty bounded list keeps the first `limit` items and counts the others. -/
theorem extend_eq (l : BoundedList α) (as : List α) (h : l.items.length ≤ l.limit) :
    l.extend as =
      ⟨l.items ++ as.take (l.limit - l.items.length), l.limit,
        l.dropped + (as.length - (l.limit - l.items.length))⟩ := by
  induction as generalizing l with
  | nil => simp [extend]
  | cons a as ih =>
    rw [extend, List.foldl_cons, ← extend]
    by_cases hs : l.items.length < l.limit
    · obtain ⟨room, hroom⟩ : ∃ k, l.limit - l.items.length = k + 1 :=
        ⟨l.limit - l.items.length - 1, by omega⟩
      have hpush : l.push a = { l with items := l.items ++ [a] } := by simp [push, hasSpace, hs]
      have hless : l.limit - (l.items.length + 1) = room := by omega
      rw [hpush, ih _ (by simp; omega)]
      simp [hroom, hless]
    · have hroom : l.limit - l.items.length = 0 := by omega
      have hpush : l.push a = { l with dropped := l.dropped + 1 } := by simp [push, hasSpace, hs]
      rw [hpush, ih { l with dropped := l.dropped + 1 } h]
      simp [hroom]
      omega

end BoundedList

end LayoutCompletion
