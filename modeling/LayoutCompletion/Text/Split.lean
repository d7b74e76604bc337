/-!
# Splitting a text at a character
-/

namespace LayoutCompletion.Text

/-- What stands before and behind the first occurrence of a character. -/
def splitFirst? (at_ : Char) : List Char → Option (List Char × List Char)
  | [] => none
  | c :: cs =>
    if c = at_ then some ([], cs)
    else (splitFirst? at_ cs).map fun (head, tail) => (c :: head, tail)

/-- What stands before and behind the last occurrence of a character. -/
def splitLast? (at_ : Char) : List Char → Option (List Char × List Char)
  | [] => none
  | c :: cs =>
    match splitLast? at_ cs with
    | some (head, tail) => some (c :: head, tail)
    | none => if c = at_ then some ([], cs) else none

/-- The stretches between the occurrences of a character; one more than there are occurrences. -/
def splitAll (at_ : Char) : List Char → List (List Char)
  | [] => [[]]
  | c :: cs =>
    if c = at_ then [] :: splitAll at_ cs
    else
      match splitAll at_ cs with
      | [] => [[c]]
      | first :: rest => (c :: first) :: rest

theorem splitFirst?_eq_some {at_ : Char} {cs head tail : List Char} :
    splitFirst? at_ cs = some (head, tail) ↔ cs = head ++ at_ :: tail ∧ at_ ∉ head := by
  induction cs generalizing head tail with
  | nil => simp [splitFirst?]
  | cons c cs ih =>
    by_cases hc : c = at_
    · subst hc
      cases head with
      | nil => simp [splitFirst?]
      | cons d head =>
        simp only [splitFirst?, if_true, Option.some.injEq, Prod.mk.injEq, List.nil_eq,
          reduceCtorEq, false_and, List.cons_append, List.cons.injEq, List.mem_cons, not_or,
          false_iff, not_and]
        intro h
        exact fun hd => absurd h.1 hd
    · cases head with
      | nil =>
        simp only [splitFirst?, hc, if_false, Option.map_eq_some_iff, Prod.mk.injEq, reduceCtorEq,
          false_and, and_false, exists_false, List.nil_append, List.cons.injEq]
      | cons d head =>
        simp only [splitFirst?, hc, if_false, Option.map_eq_some_iff, Prod.exists, Prod.mk.injEq,
          List.cons.injEq, List.cons_append, List.mem_cons, not_or]
        constructor
        · rintro ⟨a, b, hs, ⟨rfl, rfl⟩, rfl⟩
          obtain ⟨rfl, hn⟩ := ih.1 hs
          exact ⟨⟨rfl, rfl⟩, fun h => hc h.symm, hn⟩
        · rintro ⟨⟨rfl, rfl⟩, _, hn⟩
          exact ⟨head, tail, ih.2 ⟨rfl, hn⟩, ⟨rfl, rfl⟩, rfl⟩

theorem splitFirst?_eq_none {at_ : Char} {cs : List Char} :
    splitFirst? at_ cs = none ↔ at_ ∉ cs := by
  induction cs with
  | nil => simp [splitFirst?]
  | cons c cs ih =>
    by_cases hc : c = at_
    · simp [splitFirst?, hc]
    · simp [splitFirst?, hc, ih, eq_comm (a := at_)]

/-- A text is cut at the end of the stretch that is free of the character. -/
theorem splitFirst?_of_mem {at_ : Char} {cs : List Char} (h : at_ ∈ cs) :
    splitFirst? at_ cs = some (cs.takeWhile (· ≠ at_), (cs.dropWhile (· ≠ at_)).tail) := by
  induction cs with
  | nil => cases h
  | cons c cs ih =>
    by_cases hc : c = at_
    · simp [splitFirst?, hc]
    · have hmem := (List.mem_cons.mp h).resolve_left (Ne.symm hc)
      simp [splitFirst?, hc, ih hmem]

theorem splitLast?_eq_none {at_ : Char} {cs : List Char} :
    splitLast? at_ cs = none ↔ at_ ∉ cs := by
  induction cs with
  | nil => simp [splitLast?]
  | cons c cs ih =>
    cases hcs : splitLast? at_ cs with
    | some cut => simp [splitLast?, hcs, mt ih.mpr (by simp [hcs])]
    | none => simp [splitLast?, hcs, ih.mp hcs, eq_comm (a := at_)]

theorem splitLast?_append {at_ : Char} (head : List Char) {tail : List Char} (h : at_ ∉ tail) :
    splitLast? at_ (head ++ at_ :: tail) = some (head, tail) := by
  induction head with
  | nil => simp [splitLast?, splitLast?_eq_none.mpr h]
  | cons c head ih => simp [splitLast?, ih]

theorem splitLast?_eq_some {at_ : Char} {cs head tail : List Char} :
    splitLast? at_ cs = some (head, tail) ↔ cs = head ++ at_ :: tail ∧ at_ ∉ tail := by
  constructor
  · intro h
    induction cs generalizing head with
    | nil => simp [splitLast?] at h
    | cons c cs ih =>
      cases hcs : splitLast? at_ cs with
      | some cut =>
        obtain ⟨left, right⟩ := cut
        simp only [splitLast?, hcs, Option.some.injEq, Prod.mk.injEq] at h
        obtain ⟨rfl, rfl⟩ := h
        obtain ⟨rfl, hnot⟩ := ih hcs
        exact ⟨rfl, hnot⟩
      | none =>
        simp only [splitLast?, hcs] at h
        split at h
        · next hc =>
          simp only [Option.some.injEq, Prod.mk.injEq] at h
          obtain ⟨rfl, rfl⟩ := h
          exact ⟨by rw [hc]; rfl, splitLast?_eq_none.mp hcs⟩
        · simp at h
  · rintro ⟨rfl, h⟩
    exact splitLast?_append head h

/-- What is left of a text that begins with a marker is what stands behind the marker. -/
theorem behindMarker_eq_some {marker text rest : String} :
    (if marker.toList.isPrefixOf text.toList then
        some (String.ofList (text.toList.drop marker.toList.length))
      else none) = some rest ↔ text = marker ++ rest := by
  constructor
  · intro h
    split at h
    · next hbegins =>
      obtain ⟨behind, hbehind⟩ := List.isPrefixOf_iff_prefix.mp hbegins
      obtain rfl := Option.some.inj h
      rw [← hbehind, List.drop_left, ← String.toList_inj, String.toList_append,
        String.toList_ofList, hbehind]
    · cases h
  · rintro rfl
    rw [String.toList_append, if_pos (List.isPrefixOf_iff_prefix.mpr (List.prefix_append _ _)),
      List.drop_left, String.ofList_toList]

end LayoutCompletion.Text
