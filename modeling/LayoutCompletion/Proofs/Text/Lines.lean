import LayoutCompletion.Markup.Failure
import LayoutCompletion.Proofs.Text.Positions

/-!
# Lines and rows

Lines end at line breaks of all kinds, rows at line feeds only. So the row of the place behind a
text is never further down than the last line of the text, and if it is that line, the column is
behind the last character of it (`CutsInto`, `exists_cutsInto`).

If the row and the column of such a place are read as a line and a character, what stands behind
the place has no influence on the offset that they give (`toOffset?_advance`), be it that of the
place or not.
-/

namespace LayoutCompletion.Text

open Markup

/--
The text falls into lines that have ended and a last line.

* `append`: what is put behind the text makes the last line longer, or stands on lines of its own.
  It must not begin with a line feed, which would end the last line together with a carriage return.
* `row_le`, `column`: where the place behind the text is.
-/
structure CutsInto (text : List Char) (ended : List (List Char)) (last : List Char) : Prop where
  append : ∀ c rest, c ≠ '\n' →
    ∃ more later, lines (text ++ c :: rest) = ended ++ (last ++ more) :: later
  row_le : ∀ p, (Place.advance p text).row ≤ p.row + ended.length
  column : ∀ p, (Place.advance p text).row = p.row + ended.length →
    (Place.advance p text).column = (if ended = [] then p.column else 1) + last.length

theorem advance_cons (p : Place) (c : Char) (text : List Char) :
    Place.advance p (c :: text) =
      Place.advance (if c = '\n' then ⟨p.row + 1, 1⟩ else ⟨p.row, p.column + 1⟩) text := rfl

theorem advance_append (p : Place) (front behind : List Char) :
    Place.advance p (front ++ behind) = Place.advance (Place.advance p front) behind :=
  List.foldl_append

theorem le_row_advance (p : Place) (text : List Char) : p.row ≤ (Place.advance p text).row := by
  induction text generalizing p with
  | nil => exact Nat.le_refl _
  | cons c text ih =>
    rw [advance_cons]
    split
    · exact Nat.le_trans (Nat.le_succ p.row) (ih ⟨p.row + 1, 1⟩)
    · exact ih ⟨p.row, p.column + 1⟩

theorem before_append (cs rest : List Char) :
    Place.before (cs ++ rest) rest = Place.advance ⟨1, 1⟩ cs := by
  rw [Place.before, List.length_append, Nat.add_sub_cancel, List.take_left]

theorem cutsInto_nil : CutsInto [] [] [] where
  append c rest _ := List.exists_cons_of_ne_nil (lines_ne_nil (c :: rest))
  row_le _ := Nat.le_refl _
  column _ _ := rfl

variable {c : Char} {text last : List Char} {ended : List (List Char)}

/-- A line break ends a line of its own in front of the others. -/
theorem CutsInto.cons_break (h : CutsInto text ended last)
    (hcut : ∀ more, (∀ c ∈ more.head?, c ≠ '\n') →
      lines (c :: (text ++ more)) = [c] :: lines (text ++ more)) :
    CutsInto (c :: text) ([c] :: ended) last where
  append d rest hd := by
    obtain ⟨more, later, hlines⟩ := h.append d rest hd
    exact ⟨more, later, by rw [List.cons_append, hcut _ (by simpa using hd), hlines]; rfl⟩
  row_le p := by
    rw [advance_cons, List.length_cons]
    split
    · have := h.row_le ⟨p.row + 1, 1⟩
      dsimp only at this
      omega
    · have := h.row_le ⟨p.row, p.column + 1⟩
      dsimp only at this
      omega
  column p hp := by
    rw [if_neg (List.cons_ne_nil _ _)]
    rw [advance_cons, List.length_cons] at hp
    rw [advance_cons]
    split at hp
    · next hfeed =>
      rw [if_pos hfeed, h.column ⟨p.row + 1, 1⟩ (by dsimp only; omega)]
      simp
    · -- another break than a line feed ends a line but no row
      have := h.row_le ⟨p.row, p.column + 1⟩
      dsimp only at this
      omega

/-- Any other character stands at the beginning of the first line. -/
theorem CutsInto.cons_other (h : CutsInto text ended last) (hc : c ≠ '\n')
    (hcut : ∀ more, (∀ c ∈ more.head?, c ≠ '\n') →
      lines (c :: (text ++ more)) = consLine c (lines (text ++ more))) :
    ∃ ended last, CutsInto (c :: text) ended last := by
  have hstep : ∀ p : Place, Place.advance p (c :: text) =
      Place.advance ⟨p.row, p.column + 1⟩ text := fun p => by
    rw [advance_cons, if_neg hc]
  cases ended with
  | nil =>
    refine ⟨[], c :: last, ⟨fun d rest hd => ?_, fun p => ?_, fun p hp => ?_⟩⟩
    · obtain ⟨more, later, hlines⟩ := h.append d rest hd
      exact ⟨more, later, by rw [List.cons_append, hcut _ (by simpa using hd), hlines]; rfl⟩
    · rw [hstep]
      exact h.row_le ⟨p.row, p.column + 1⟩
    · rw [hstep] at hp ⊢
      rw [h.column ⟨p.row, p.column + 1⟩ hp, if_pos rfl, if_pos rfl, List.length_cons]
      dsimp only
      omega
  | cons first ended =>
    refine ⟨(c :: first) :: ended, last, ⟨fun d rest hd => ?_, fun p => ?_, fun p hp => ?_⟩⟩
    · obtain ⟨more, later, hlines⟩ := h.append d rest hd
      exact ⟨more, later, by rw [List.cons_append, hcut _ (by simpa using hd), hlines]; rfl⟩
    · rw [hstep]
      exact h.row_le ⟨p.row, p.column + 1⟩
    · rw [hstep] at hp ⊢
      rw [h.column ⟨p.row, p.column + 1⟩ hp, if_neg (List.cons_ne_nil _ _),
        if_neg (List.cons_ne_nil _ _)]

theorem exists_cutsInto (text : List Char) : ∃ ended last, CutsInto text ended last := by
  induction text with
  | nil => exact ⟨[], [], cutsInto_nil⟩
  | cons c text ih =>
    obtain ⟨ended, last, h⟩ := ih
    -- whether a line feed follows does not depend on what is put behind the text
    have hjoin : ∀ more : List Char, (∀ c ∈ more.head?, c ≠ '\n') →
        ((c = '\r' && (text ++ more).head? = some '\n') = true ↔
          c = '\r' ∧ text.head? = some '\n') := by
      intro more hmore
      rw [Bool.and_eq_true, decide_eq_true_eq, decide_eq_true_eq]
      cases text with
      | nil => exact and_congr_right fun _ => ⟨fun hfeed => absurd rfl (hmore _ hfeed), by simp⟩
      | cons d text => exact Iff.rfl
    by_cases hjoined : c = '\r' ∧ text.head? = some '\n'
    · refine h.cons_other (by rintro rfl; exact absurd hjoined.1 (by decide)) fun more hmore => ?_
      rw [lines, if_pos ((hjoin more hmore).mpr hjoined)]
    · have hcut (more : List Char) (hmore : ∀ c ∈ more.head?, c ≠ '\n') :
          lines (c :: (text ++ more)) =
            if isLineBreak c then [c] :: lines (text ++ more)
            else consLine c (lines (text ++ more)) := by
        rw [lines, if_neg (mt (hjoin more hmore).mp hjoined)]
      by_cases hbreak : isLineBreak c = true
      · exact ⟨_, _, h.cons_break fun more hmore => by rw [hcut more hmore, if_pos hbreak]⟩
      · refine h.cons_other (by rintro rfl; exact hbreak (by decide)) fun more hmore => ?_
        rw [hcut more hmore, if_neg hbreak]

/-! ## Places as positions -/

theorem toOffset?_of_lt {ended later : List (List Char)} {p : Position}
    (h : lines text = ended ++ later) (hp : p.line < ended.length) :
    p.toOffset? text = if p.character ≤ ended[p.line].length then
      some (utf8Length (ended.take p.line).flatten + utf8Length (ended[p.line].take p.character))
      else none := by
  have hline : (lines text)[p.line]? = some ended[p.line] := by
    rw [h, List.getElem?_append_left hp, List.getElem?_eq_getElem hp]
  rw [Position.toOffset?, hline, h, List.take_append_of_le_length (Nat.le_of_lt hp)]

theorem toOffset?_last {ended later : List (List Char)} {last more : List Char}
    (h : lines text = ended ++ (last ++ more) :: later) :
    Position.toOffset? text ⟨ended.length, last.length⟩ =
      some (utf8Length (ended.flatten ++ last)) := by
  rw [toOffset?_append h, if_pos (by simp), List.take_left]

/-- What stands behind a place has no influence on the offset that its row and column give if they
are taken for a line and a character. -/
theorem toOffset?_advance {c d : Char} (hc : c ≠ '\n') (hd : d ≠ '\n') (rest other : List Char) :
    Position.toOffset? (text ++ c :: rest)
        ⟨(Place.advance ⟨1, 1⟩ text).row - 1, (Place.advance ⟨1, 1⟩ text).column - 1⟩ =
      Position.toOffset? (text ++ d :: other)
        ⟨(Place.advance ⟨1, 1⟩ text).row - 1, (Place.advance ⟨1, 1⟩ text).column - 1⟩ := by
  obtain ⟨ended, last, h⟩ := exists_cutsInto text
  obtain ⟨more, later, hlines⟩ := h.append c rest hc
  obtain ⟨more', later', hlines'⟩ := h.append d other hd
  have hrow := h.row_le ⟨1, 1⟩
  dsimp only at hrow
  by_cases hlast : (Place.advance ⟨1, 1⟩ text).row = 1 + ended.length
  · have hcolumn := h.column ⟨1, 1⟩ hlast
    rw [ite_self] at hcolumn
    rw [hlast, hcolumn, Nat.add_sub_cancel_left, Nat.add_sub_cancel_left, toOffset?_last hlines,
      toOffset?_last hlines']
  · have hfirst := le_row_advance ⟨1, 1⟩ text
    dsimp only at hfirst
    have hended : (Place.advance ⟨1, 1⟩ text).row - 1 < ended.length := by omega
    rw [toOffset?_of_lt hlines hended, toOffset?_of_lt hlines' hended]

end LayoutCompletion.Text
