import LayoutCompletion.Dictionary
import Mathlib.Data.List.Basic
import Mathlib.Data.List.Induction

/-!
# Dictionaries of lists

A dictionary that is made of a list has each key of the list once, at its first place, and with its
last value.
-/

namespace LayoutCompletion.Dictionary

variable {κ α : Type} [DecidableEq κ]

/-- A dictionary is told by its keys and their values. -/
theorem entries_eq (d : Dictionary κ α) :
    d.entries = d.keys.filterMap fun key => (d.get? key).map fun a => (key, a) := by
  have hvalue : ∀ e ∈ d.entries, some e = (d.get? e.1).map fun a => (e.1, a) := by
    intro e he
    rw [get?_eq_some.mpr he]
    rfl
  rw [keys, List.filterMap_map]
  exact List.filterMap_some.symm.trans (List.filterMap_congr hvalue)

theorem ofList_append_singleton (l : List (κ × α)) (e : κ × α) :
    ofList (l ++ [e]) = (ofList l).insert e.1 e.2 := by
  rw [ofList, List.foldl_append]
  rfl

theorem keys_ofList (l : List (κ × α)) : (ofList l).keys = (l.map Prod.fst).eraseDups := by
  induction l using List.reverseRecOn with
  | nil => rfl
  | append_singleton l e ih =>
    rw [ofList_append_singleton, keys_insert, ih, List.map_append, List.eraseDups_append]
    by_cases hkey : e.1 ∈ l.map Prod.fst <;> simp [hkey, List.removeAll, List.eraseDups_cons]

theorem get?_ofList (l : List (κ × α)) (key : κ) :
    (ofList l).get? key = l.reverse.lookup key := by
  induction l using List.reverseRecOn with
  | nil => rfl
  | append_singleton l e ih =>
    rw [ofList_append_singleton, get?_insert, ih, List.reverse_append, List.reverse_singleton,
      List.singleton_append, List.lookup_cons]
    by_cases hkey : e.1 = key
    · simp [hkey]
    · rw [if_neg hkey, beq_eq_false_iff_ne.mpr (Ne.symm hkey)]

end LayoutCompletion.Dictionary
