import LayoutCompletion.Proofs.Text.Lines

/-!
# Rows taken for lines

A place is told by its row and its column. Rows end at line feeds only, and lines end at breaks of
all kinds. If the row and the column are taken for a line and a character, this is the position of
the place as long as every break before it is a line feed or has one behind it (`RowsAreLines`,
`toOffset?_rowPosition`). A break right before the place does no harm, because one character behind
the end of a line is where the next line begins.

In all other cases the position lies before the place or is none (`lt_of_toOffset?_rowPosition`).
-/

namespace LayoutCompletion.Text

open Markup

/-- Every break ends a row, one right before the place apart. -/
def RowsAreLines (front : List Char) : Prop :=
  ∀ c behind, c :: behind <:+ front → isLineBreak c = true →
    behind = [] ∨ c = '\n' ∨ (c = '\r' ∧ behind.head? = some '\n')

/-- The row and the column behind a text, counted from zero. -/
def rowPosition (front : List Char) : Position :=
  ⟨(Place.advance ⟨1, 1⟩ front).row - 1, (Place.advance ⟨1, 1⟩ front).column - 1⟩

variable {front behind rest word body : List Char} {c : Char} {offset : Nat}

/-! ## Rows and columns -/

/-- A text without line feeds is part of one row. -/
theorem advance_of_not_mem (p : Place) (h : '\n' ∉ word) :
    Place.advance p word = ⟨p.row, p.column + word.length⟩ := by
  induction word generalizing p with
  | nil => rfl
  | cons c word ih =>
    rw [List.mem_cons, not_or] at h
    rw [advance_cons, if_neg (Ne.symm h.1), ih _ h.2, List.length_cons]
    simp only [Nat.add_assoc, Nat.add_comm 1]

theorem advance_succ_row (row column : Nat) (text : List Char) :
    Place.advance ⟨row + 1, column⟩ text =
      ⟨(Place.advance ⟨row, column⟩ text).row + 1, (Place.advance ⟨row, column⟩ text).column⟩ := by
  induction text generalizing row column with
  | nil => rfl
  | cons c text ih =>
    rw [advance_cons, advance_cons]
    split
    · exact ih (row + 1) 1
    · exact ih row (column + 1)

theorem rowPosition_of_not_mem (h : '\n' ∉ word) : rowPosition word = ⟨0, word.length⟩ := by
  rw [rowPosition, advance_of_not_mem _ h, Nat.sub_self, Nat.add_sub_cancel_left]

/-- Behind a row the columns are counted anew. -/
theorem rowPosition_feed (h : '\n' ∉ word) (behind : List Char) :
    rowPosition (word ++ ['\n'] ++ behind) =
      ⟨(rowPosition behind).line + 1, (rowPosition behind).character⟩ := by
  have hadvance : Place.advance ⟨1, 1⟩ (word ++ ['\n'] ++ behind) =
      Place.advance ⟨2, 1⟩ behind := by
    rw [advance_append, advance_append, advance_of_not_mem _ h]
    rfl
  have hrow := le_row_advance ⟨1, 1⟩ behind
  rw [rowPosition, hadvance, advance_succ_row, rowPosition]
  dsimp only at hrow ⊢
  rw [Nat.sub_add_cancel hrow, Nat.add_sub_cancel]

/-- What stands before the first line feed does not matter behind it. -/
theorem rowPosition_append (hword : '\n' ∉ word) (hmem : '\n' ∈ behind) :
    rowPosition (word ++ behind) = rowPosition behind ∧ 0 < (rowPosition behind).line := by
  obtain ⟨head, tail, rfl, hhead⟩ := List.eq_append_cons_of_mem hmem
  have hfront : '\n' ∉ word ++ head := by simp [hword, hhead]
  rw [List.append_cons, ← List.append_assoc word, ← List.append_assoc word,
    rowPosition_feed hfront, rowPosition_feed hhead]
  exact ⟨rfl, Nat.succ_pos _⟩

/-! ## Breaks that end rows -/

theorem rowsAreLines_cons :
    RowsAreLines (c :: front) ↔
      (isLineBreak c = true → front = [] ∨ c = '\n' ∨ (c = '\r' ∧ front.head? = some '\n')) ∧
        RowsAreLines front := by
  constructor
  · intro h
    exact ⟨h c front (List.suffix_refl _),
      fun d behind hsuffix => h d behind (hsuffix.trans (List.suffix_cons c front))⟩
  · rintro ⟨hc, h⟩ d behind hsuffix hbreak
    rcases List.suffix_cons_iff.mp hsuffix with heq | hsuffix
    · obtain ⟨rfl, rfl⟩ := List.cons.inj heq
      exact hc hbreak
    · exact h d behind hsuffix hbreak

theorem rowsAreLines_append (h : ∀ c ∈ body, isLineBreak c = false) :
    RowsAreLines (body ++ front) ↔ RowsAreLines front := by
  induction body with
  | nil => exact Iff.rfl
  | cons c body ih =>
    rw [List.forall_mem_cons] at h
    rw [List.cons_append, rowsAreLines_cons, ih h.2, h.1]
    simp

/-! ## Lines before a place -/

/--
How the front of a text falls into lines, being followed by the rest.

* `unended`: it is part of one line.
* `fed`: a line ends with a line feed, before which a carriage return may stand.
* `broken`: a line ends with another break.
-/
inductive FallsIntoLines (rest : List Char) : List Char → Prop
  | unended {front : List Char} (more : List Char) (later : List (List Char)) :
    (∀ c ∈ front, isLineBreak c = false) → lines (front ++ rest) = (front ++ more) :: later →
      FallsIntoLines rest front
  | fed (body word : List Char) {behind : List Char} :
    (∀ c ∈ body, isLineBreak c = false) → word = body ∨ word = body ++ ['\r'] →
      lines (word ++ ['\n'] ++ (behind ++ rest)) = (word ++ ['\n']) :: lines (behind ++ rest) →
      FallsIntoLines rest behind → FallsIntoLines rest (word ++ ['\n'] ++ behind)
  | broken (body : List Char) {behind : List Char} {c : Char} :
    (∀ c ∈ body, isLineBreak c = false) → isLineBreak c = true → c ≠ '\n' →
      ¬(c = '\r' ∧ (behind ++ rest).head? = some '\n') →
      lines (body ++ [c] ++ (behind ++ rest)) = (body ++ [c]) :: lines (behind ++ rest) →
      FallsIntoLines rest behind → FallsIntoLines rest (body ++ [c] ++ behind)

/-- A character that ends no line makes the first line longer. -/
theorem FallsIntoLines.cons (h : FallsIntoLines rest front) (hc : isLineBreak c = false)
    (hlines : lines (c :: (front ++ rest)) = consLine c (lines (front ++ rest))) :
    FallsIntoLines rest (c :: front) := by
  cases h with
  | unended more later hnone hrest =>
    rw [hrest] at hlines
    exact .unended more later (List.forall_mem_cons.mpr ⟨hc, hnone⟩) hlines
  | fed body word hnone hword hrest hbehind =>
    rw [List.append_assoc, hrest] at hlines
    refine .fed (c :: body) (c :: word) (List.forall_mem_cons.mpr ⟨hc, hnone⟩) ?_ hlines hbehind
    rcases hword with rfl | rfl
    · exact .inl rfl
    · exact .inr rfl
  | broken body hnone hd hne hlone hrest hbehind =>
    rw [List.append_assoc, hrest] at hlines
    exact .broken (c :: body) (List.forall_mem_cons.mpr ⟨hc, hnone⟩) hd hne hlone hlines hbehind

theorem fallsIntoLines (hfeed : rest.head? ≠ some '\n') (front : List Char) :
    FallsIntoLines rest front := by
  induction hlength : front.length using Nat.strongRecOn generalizing front with
  | ind n ih =>
    subst hlength
    cases front with
    | nil =>
      obtain ⟨first, later, hlines⟩ := List.exists_cons_of_ne_nil (lines_ne_nil rest)
      exact .unended first later (by simp) hlines
    | cons c front =>
      have hfront : FallsIntoLines rest front := ih _ (Nat.lt_succ_self _) front rfl
      have hlines := lines.eq_2 c (front ++ rest)
      by_cases hjoined : c = '\r' ∧ (front ++ rest).head? = some '\n'
      · obtain ⟨rfl, hhead⟩ := hjoined
        cases front with
        | nil => exact absurd hhead hfeed
        | cons d front =>
          obtain rfl : d = '\n' := Option.some.inj hhead
          exact .fed [] ['\r'] (by simp) (.inr rfl) rfl
            (ih _ (Nat.lt_succ_of_lt (Nat.lt_succ_self _)) front rfl)
      rw [if_neg (by simpa using hjoined)] at hlines
      by_cases hbreak : isLineBreak c = true
      · rw [if_pos hbreak] at hlines
        by_cases hc : c = '\n'
        · subst hc
          exact .fed [] [] (by simp) (.inl rfl) hlines hfront
        · exact .broken [] (by simp) hbreak hc hjoined hlines hfront
      · rw [if_neg hbreak] at hlines
        exact hfront.cons (Bool.not_eq_true _ ▸ hbreak) hlines

variable {text line : List Char}

theorem toOffset?_first {later : List (List Char)} (h : lines text = line :: later) (k : Nat) :
    Position.toOffset? text ⟨0, k⟩ =
      if k ≤ line.length then some (utf8Length (line.take k)) else none := by
  have hlines : lines text = [] ++ line :: later := h
  exact toOffset?_append hlines k

/-- A position on a later line is one in the text behind the first line. -/
theorem toOffset?_later (h : lines text = line :: lines behind) (n k : Nat) :
    Position.toOffset? text ⟨n + 1, k⟩ =
      (Position.toOffset? behind ⟨n, k⟩).map (utf8Length line + ·) := by
  unfold Position.toOffset?
  rw [h, List.getElem?_cons_succ, List.take_succ_cons, List.flatten_cons, utf8Length_append]
  cases (lines behind)[n]? with
  | none => rfl
  | some found =>
    dsimp only
    split
    · rw [Option.map_some, Nat.add_assoc]
    · rfl

/-! ## Rows as lines -/

theorem not_mem_of_forall (h : ∀ c ∈ body, isLineBreak c = false) : '\n' ∉ body := by
  intro hmem
  exact absurd (h '\n' hmem) (by decide)

theorem not_mem_of_fed (hbody : ∀ c ∈ body, isLineBreak c = false)
    (hword : word = body ∨ word = body ++ ['\r']) : '\n' ∉ word := by
  have hnot := not_mem_of_forall hbody
  rcases hword with rfl | rfl
  · exact hnot
  · simp [hnot]

theorem not_mem_of_broken (hbody : ∀ c ∈ body, isLineBreak c = false) (hne : c ≠ '\n') :
    '\n' ∉ body ++ [c] := by
  rw [List.mem_append, not_or, List.mem_singleton]
  exact ⟨not_mem_of_forall hbody, Ne.symm hne⟩

theorem utf8Length_pos (h : text ≠ []) : 0 < utf8Length text :=
  Nat.pos_of_ne_zero fun hzero => h (eq_nil_of_utf8Length hzero)

/-- A place on the first line is before every place that is further down. -/
theorem lt_of_toOffset?_first {later : List (List Char)} {k : Nat}
    (hlines : lines text = line :: later) (hne : line ≠ []) (hfar : behind ≠ [] ∨ k = 0)
    (h : Position.toOffset? text ⟨0, k⟩ = some offset) : offset < utf8Length (line ++ behind) := by
  rw [toOffset?_first hlines] at h
  split at h
  · obtain rfl := Option.some.inj h
    have hline := utf8Length_pos hne
    rw [utf8Length_append]
    rcases hfar with hbehind | rfl
    · have htake : utf8Length (line.take k) ≤ utf8Length line := by
        rw [← List.take_append_drop k line, utf8Length_append, List.take_append_drop]
        exact Nat.le_add_right _ _
      have := utf8Length_pos hbehind
      omega
    · rw [List.take_zero, utf8Length_nil]
      omega
  · cases h

/-- In a row above its own, the column of a place stands before the place. -/
theorem lt_of_toOffset?_above (hfront : FallsIntoLines rest front) {row : Nat}
    (hrow : row < (rowPosition front).line)
    (h : Position.toOffset? (front ++ rest) ⟨row, (rowPosition front).character⟩ = some offset) :
    offset < utf8Length front := by
  induction hfront generalizing row offset with
  | unended more later hnone hlines =>
    rw [rowPosition_of_not_mem (not_mem_of_forall hnone)] at hrow
    exact absurd hrow (Nat.not_lt_zero row)
  | @fed body word behind hbody hword hlines hbehind ih =>
    rw [rowPosition_feed (not_mem_of_fed hbody hword)] at hrow h
    rw [List.append_assoc] at h
    cases row with
    | zero =>
      refine lt_of_toOffset?_first hlines (by simp) ?_ h
      by_cases hnil : behind = []
      · exact .inr (by rw [hnil]; rfl)
      · exact .inl hnil
    | succ row =>
      rw [toOffset?_later hlines] at h
      obtain ⟨o, ho, rfl⟩ := Option.map_eq_some_iff.mp h
      rw [utf8Length_append (word ++ ['\n'])]
      exact Nat.add_lt_add_left (ih (Nat.lt_of_succ_lt_succ hrow) ho) _
  | @broken body behind c hbody hc hne hlone hlines hbehind ih =>
    have hnot : '\n' ∉ body ++ [c] := not_mem_of_broken hbody hne
    rw [List.append_assoc] at h
    by_cases hmem : '\n' ∈ behind
    · rw [(rowPosition_append hnot hmem).1] at hrow h
      cases row with
      | zero => exact lt_of_toOffset?_first hlines (by simp) (.inl (List.ne_nil_of_mem hmem)) h
      | succ row =>
        rw [toOffset?_later hlines] at h
        obtain ⟨o, ho, rfl⟩ := Option.map_eq_some_iff.mp h
        rw [utf8Length_append (body ++ [c])]
        exact Nat.add_lt_add_left (ih (Nat.lt_of_succ_lt hrow) ho) _
    · have hnone : '\n' ∉ (body ++ [c]) ++ behind := by
        rw [List.mem_append, not_or]
        exact ⟨hnot, hmem⟩
      rw [rowPosition_of_not_mem hnone] at hrow
      exact absurd hrow (Nat.not_lt_zero row)

theorem rowsAreLines_of_forall (h : ∀ c ∈ front, isLineBreak c = false) : RowsAreLines front := by
  intro c behind hsuffix hbreak
  rw [h c (hsuffix.subset List.mem_cons_self)] at hbreak
  cases hbreak

theorem rowsAreLines_fed (hbody : ∀ c ∈ body, isLineBreak c = false)
    (hword : word = body ∨ word = body ++ ['\r']) :
    RowsAreLines (word ++ ['\n'] ++ behind) ↔ RowsAreLines behind := by
  have hfeed : RowsAreLines ('\n' :: behind) ↔ RowsAreLines behind := by
    rw [rowsAreLines_cons]
    simp
  rw [← List.append_cons]
  rcases hword with rfl | rfl
  · rw [rowsAreLines_append hbody, hfeed]
  · rw [List.append_assoc, rowsAreLines_append hbody, List.singleton_append, rowsAreLines_cons,
      hfeed]
    simp

/-- A break that ends no row must stand right before the place. -/
theorem rowsAreLines_broken (hbody : ∀ c ∈ body, isLineBreak c = false)
    (hc : isLineBreak c = true) (hne : c ≠ '\n')
    (hlone : ¬(c = '\r' ∧ (behind ++ rest).head? = some '\n')) :
    RowsAreLines (body ++ [c] ++ behind) ↔ behind = [] := by
  rw [← List.append_cons, rowsAreLines_append hbody, rowsAreLines_cons]
  constructor
  · rintro ⟨hbreak, -⟩
    rcases hbreak hc with hnil | hfeed | ⟨hreturn, hhead⟩
    · exact hnil
    · exact absurd hfeed hne
    · refine absurd ⟨hreturn, ?_⟩ hlone
      rw [List.head?_append, hhead]
      rfl
  · rintro rfl
    exact ⟨fun _ => .inl rfl, fun d behind hsuffix => by simp at hsuffix⟩

/-- As long as rows are lines, the row and the column of a place give its offset. -/
theorem toOffset?_rowPosition (hfront : FallsIntoLines rest front) (h : RowsAreLines front) :
    (rowPosition front).toOffset? (front ++ rest) = some (utf8Length front) := by
  induction hfront with
  | unended more later hnone hlines =>
    rw [rowPosition_of_not_mem (not_mem_of_forall hnone), toOffset?_first hlines, if_pos (by simp),
      List.take_left]
  | fed body word hbody hword hlines hbehind ih =>
    rw [rowsAreLines_fed hbody hword] at h
    rw [rowPosition_feed (not_mem_of_fed hbody hword), List.append_assoc, toOffset?_later hlines,
      ih h, Option.map_some, ← utf8Length_append]
  | @broken body behind c hbody hc hne hlone hlines hbehind ih =>
    obtain rfl := (rowsAreLines_broken hbody hc hne hlone).mp h
    rw [List.nil_append] at hlines
    rw [List.append_nil, rowPosition_of_not_mem (not_mem_of_broken hbody hne),
      toOffset?_first hlines, if_pos (Nat.le_refl _), List.take_length]

/-- Otherwise they give the offset of a place before it, or none. -/
theorem lt_of_toOffset?_rowPosition (hfront : FallsIntoLines rest front)
    (hnot : ¬RowsAreLines front)
    (h : (rowPosition front).toOffset? (front ++ rest) = some offset) :
    offset < utf8Length front := by
  induction hfront generalizing offset with
  | unended more later hnone hlines => exact absurd (rowsAreLines_of_forall hnone) hnot
  | fed body word hbody hword hlines hbehind ih =>
    rw [rowsAreLines_fed hbody hword] at hnot
    rw [rowPosition_feed (not_mem_of_fed hbody hword), List.append_assoc,
      toOffset?_later hlines] at h
    obtain ⟨o, ho, rfl⟩ := Option.map_eq_some_iff.mp h
    rw [utf8Length_append (word ++ ['\n'])]
    exact Nat.add_lt_add_left (ih hnot ho) _
  | @broken body behind c hbody hc hne hlone hlines hbehind ih =>
    have hbody' : '\n' ∉ body ++ [c] := not_mem_of_broken hbody hne
    rw [rowsAreLines_broken hbody hc hne hlone] at hnot
    rw [List.append_assoc _ _ rest] at h
    by_cases hmem : '\n' ∈ behind
    · -- a row too few is counted, so the position is in a row above that of the place
      obtain ⟨hplace, hpos⟩ := rowPosition_append hbody' hmem
      rw [hplace] at h
      have hrow : rowPosition behind =
          ⟨(rowPosition behind).line - 1 + 1, (rowPosition behind).character⟩ := by
        rw [Nat.sub_add_cancel hpos]
      rw [hrow, toOffset?_later hlines] at h
      obtain ⟨o, ho, rfl⟩ := Option.map_eq_some_iff.mp h
      rw [utf8Length_append (body ++ [c])]
      exact Nat.add_lt_add_left
        (lt_of_toOffset?_above hbehind (Nat.sub_lt hpos Nat.one_pos) ho) _
    · -- the column is behind the end of the first line
      have hnone : '\n' ∉ (body ++ [c]) ++ behind := by
        rw [List.mem_append, not_or]
        exact ⟨hbody', hmem⟩
      have hpos := List.length_pos_iff.mpr hnot
      have hlength : ((body ++ [c]) ++ behind).length = (body ++ [c]).length + behind.length :=
        List.length_append
      rw [rowPosition_of_not_mem hnone, toOffset?_first hlines, if_neg] at h
      · cases h
      · omega

end LayoutCompletion.Text
