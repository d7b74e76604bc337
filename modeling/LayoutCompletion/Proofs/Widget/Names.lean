import LayoutCompletion.Widget.Basic

/-!
# Simple names

The simple name of a dotted name is its last segment (`isLastSegment_iff`), and any other name is
its own simple name.
-/

namespace LayoutCompletion

/-- The text stands behind the last dot of the name. -/
def IsLastSegment (last name : String) : Prop :=
  ∃ front, name.toList = front ++ '.' :: last.toList ∧ '.' ∉ last.toList

variable {name last : String}

theorem isDotted_iff : isDotted name = true ↔ '.' ∈ name.toList := by
  simp [isDotted]

theorem IsLastSegment.isDotted (h : IsLastSegment last name) : isDotted name = true := by
  obtain ⟨front, hname, -⟩ := h
  rw [isDotted_iff, hname]
  simp

theorem IsLastSegment.simpleName_eq (h : IsLastSegment last name) : simpleName name = last := by
  obtain ⟨front, hname, hdot⟩ := h
  rw [simpleName, Text.splitLast?_eq_some.mpr ⟨hname, hdot⟩]
  exact String.ofList_toList

theorem isLastSegment_simpleName (h : isDotted name = true) :
    IsLastSegment (simpleName name) name := by
  unfold simpleName
  cases hsplit : Text.splitLast? '.' name.toList with
  | none => exact absurd (isDotted_iff.mp h) (Text.splitLast?_eq_none.mp hsplit)
  | some cut =>
    obtain ⟨front, tail⟩ := cut
    obtain ⟨hname, hdot⟩ := Text.splitLast?_eq_some.mp hsplit
    exact ⟨front, by simpa using hname, by simpa using hdot⟩

/-- A dotted name has one last segment, its simple name. -/
theorem isLastSegment_iff (h : isDotted name = true) :
    IsLastSegment last name ↔ simpleName name = last := by
  constructor
  · exact IsLastSegment.simpleName_eq
  · rintro rfl
    exact isLastSegment_simpleName h

end LayoutCompletion
