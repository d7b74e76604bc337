import LayoutCompletion.Proofs.Document.Recovery
import LayoutCompletion.Proofs.Text.Rows

/-!
# Where reading stopped

Before the root element, reading fails where a token begins. Its place counts rows, which end with
line feeds only. To tell the offset of the place, its row is taken for a line, but lines end with
seven other breaks as well. So the offset is right as long as each break before the place ends a
row (`Text.RowsAreLines`), and not otherwise.
-/

namespace LayoutCompletion

open Markup Text

namespace Markup

variable {m n : Mode} {cs : List Char} {failure : Failure} {ts : List Token}

namespace Lexer

/-- A failure is placed where the token begins that could not be read. -/
theorem rest_of_skip {α : Type} {construct : Construct} {k : Nat} {p : Scan α} {mode : α → Mode}
    (h : skip construct k p mode cs = .error failure) : failure.rest = cs := by
  unfold skip at h
  split at h
  · obtain rfl := Except.error.inj h
    rfl
  · cases h

theorem rest_of_element {depth : Nat} (h : element depth cs = .error failure) :
    failure.rest = cs := by
  unfold element read at h
  split at h
  · obtain rfl := Except.error.inj h
    rfl
  · cases h

theorem rest_of_misc {mode : Mode} {otherwise : Except Failure Step}
    (ho : otherwise = .error failure → failure.rest = cs)
    (h : misc mode cs otherwise = .error failure) : failure.rest = cs := by
  unfold misc at h
  split at h
  · exact rest_of_skip h
  split at h
  · obtain rfl := Except.error.inj h
    rfl
  split at h
  · exact rest_of_skip h
  split at h
  · cases h
  · exact ho h

theorem rest_of_beforeRoot (h : beforeRoot cs = .error failure) : failure.rest = cs := by
  refine rest_of_misc (fun ho => ?_) h
  split at ho
  · exact rest_of_element ho
  · obtain rfl := Except.error.inj ho
    rfl

theorem rest_of_prolog (h : prolog cs = .error failure) : failure.rest = cs := by
  unfold prolog at h
  split at h
  · exact rest_of_skip h
  · exact rest_of_misc rest_of_beforeRoot h

theorem rest_of_subset (h : subset cs = .error failure) : failure.rest = cs := by
  unfold subset at h
  split at h
  · exact rest_of_skip h
  split at h
  · exact rest_of_skip h
  refine rest_of_misc (fun ho => ?_) h
  split at ho
  · split at ho
    · obtain rfl := Except.error.inj ho
      rfl
    · cases ho
  · obtain rfl := Except.error.inj ho
    rfl

/-- Before the root element, a failure is placed where the token begins that could not be read. -/
theorem rest_of_next (hm : m.isBefore = true) (h : next m cs = .error failure) :
    failure.rest = cs := by
  cases m with
  | start =>
    unfold next at h
    dsimp only at h
    split at h
    · exact rest_of_skip h
    · exact rest_of_prolog h
  | prolog => exact rest_of_prolog h
  | subset => exact rest_of_subset h
  | beforeRoot => exact rest_of_beforeRoot h
  | content => cases hm
  | tag => cases hm
  | epilog => cases hm

/-- Before the root element, line feeds are read. -/
theorem head?_ne_feed_of_next (hm : m.isBefore = true) (h : next m cs = .error failure) :
    cs.head? ≠ some '\n' := by
  intro hfeed
  obtain ⟨tail, rfl⟩ := List.head?_eq_some_iff.mp hfeed
  cases m <;> cases hm <;> cases h

end Lexer

/-- As long as no element begins, the root element is still to come. -/
theorem Mode.Runs.isBefore (hruns : m.Runs ts n) (hm : m.isBefore = true)
    (hnone : ∀ t ∈ ts, ∀ name, t ≠ .openTag name) : n.isBefore = true := by
  induction hruns with
  | nil => exact hm
  | cons hadm _ _ ih =>
    rw [List.forall_mem_cons] at hnone
    refine ih ?_ hnone.2
    cases hadm with
    | before _ _ hk => exact hk
    | root name => exact absurd rfl (hnone.1 name)
    | _ => cases hm

end Markup

namespace Document

/-- If no element could be read, reading failed in front of a character that is no line feed. -/
theorem exists_failure {text : String} {m : Malformed} (h : parse text = .error m) :
    ∃ failure front rest, (tokens text.toList).failure = some failure ∧
      text.toList = front ++ rest ∧ failure.place text.toList = Place.advance ⟨1, 1⟩ front ∧
      rest ≠ [] ∧ rest.head? ≠ some '\n' ∧
      m = ⟨failure.message text.toList, offsetOfPlace text.toList (failure.place text.toList)⟩ := by
  have hall : ReadsAll text.toList (tokens text.toList).tokens (tokens text.toList).failure :=
    readsAll_iff.mpr rfl
  obtain ⟨hsome, hnone⟩ := (parse_of_readsAll hall).1.mp ⟨m, h⟩
  obtain ⟨failure, hfailure⟩ := Option.isSome_iff_exists.mp hsome
  obtain ⟨n, rest, hreads, ⟨-, hend⟩ | ⟨hne, reason, hnext, hreason⟩⟩ := hall
  · rw [hend] at hsome
    cases hsome
  obtain rfl := Option.some.inj (hfailure.symm.trans hreason)
  have hn : n.isBefore = true := hreads.runs.isBefore rfl hnone
  have hplace : failure.place text.toList =
      Place.advance ⟨1, 1⟩ (textOf (tokens text.toList).tokens) := by
    rw [Failure.place, Lexer.rest_of_next hn hnext]
    exact (congrArg (Place.before · rest) hreads.text).trans (before_append _ rest)
  refine ⟨failure, _, rest, hfailure, hreads.text, hplace, hne,
    Lexer.head?_ne_feed_of_next hn hnext, ?_⟩
  rw [parse, parseChars, hfailure] at h
  dsimp only at h
  rw [if_pos (isEmpty_ofTokens_iff.mpr hnone)] at h
  exact (Except.error.inj h).symm

end Document

/-! ## The offset of a place -/

namespace Markup.Place

/-- The place is one in the text, and this is its byte offset. -/
def HasOffset (text : List Char) (place : Place) (offset : Nat) : Prop :=
  ∃ front rest, text = front ++ rest ∧ Place.advance ⟨1, 1⟩ front = place ∧
    offset = utf8Length front

/-- Every text leads to another place. -/
theorem advance_ne (p : Place) {word : List Char} (hne : word ≠ []) : p.advance word ≠ p := by
  intro hsame
  by_cases hmem : '\n' ∈ word
  · obtain ⟨head, tail, rfl, hhead⟩ := List.eq_append_cons_of_mem hmem
    have hrow := le_row_advance ⟨p.row + 1, 1⟩ tail
    rw [advance_append, advance_of_not_mem p hhead, advance_cons, if_pos rfl] at hsame
    rw [hsame] at hrow
    exact Nat.lt_irrefl _ hrow
  · have hcolumn := congrArg Place.column ((advance_of_not_mem p hmem).symm.trans hsame)
    have hpos := List.length_pos_iff.mpr hne
    dsimp only at hcolumn
    omega

/-- No place has two offsets. -/
theorem HasOffset.unique {text : List Char} {place : Place} {a b : Nat}
    (ha : place.HasOffset text a) (hb : place.HasOffset text b) : a = b := by
  obtain ⟨front, rest, rfl, hfront, rfl⟩ := ha
  obtain ⟨front', rest', htext, hfront', rfl⟩ := hb
  have hsame {shorter longer : List Char} (hbegins : shorter <+: longer)
      (hshorter : advance ⟨1, 1⟩ shorter = place) (hlonger : advance ⟨1, 1⟩ longer = place) :
      shorter = longer := by
    obtain ⟨more, rfl⟩ := hbegins
    rw [advance_append, hshorter] at hlonger
    by_cases hmore : more = []
    · rw [hmore, List.append_nil]
    · exact absurd hlonger (advance_ne place hmore)
  have hfronts : front <+: front' ∨ front' <+: front :=
    List.prefix_or_prefix_of_prefix ⟨rest, rfl⟩ ⟨rest', htext.symm⟩
  rcases hfronts with hbegins | hbegins
  · rw [hsame hbegins hfront hfront']
  · rw [hsame hbegins hfront' hfront]

end Markup.Place

namespace Document

variable {front rest : List Char}

/-- As long as rows are lines, a place in front of no line feed has the right offset. -/
theorem offsetOfPlace_of_rowsAreLines (hfeed : rest.head? ≠ some '\n') (h : RowsAreLines front) :
    offsetOfPlace (front ++ rest) (Place.advance ⟨1, 1⟩ front) = utf8Length front := by
  have hoffset : (rowPosition front).toOffset? (front ++ rest) = some (utf8Length front) :=
    toOffset?_rowPosition (fallsIntoLines hfeed front) h
  exact congrArg (Option.getD · (utf8Length (front ++ rest))) hoffset

/-- Otherwise the offset is one before the place, or the end of the text. -/
theorem offsetOfPlace_of_not_rowsAreLines (hfeed : rest.head? ≠ some '\n')
    (h : ¬RowsAreLines front) :
    offsetOfPlace (front ++ rest) (Place.advance ⟨1, 1⟩ front) < utf8Length front ∨
      offsetOfPlace (front ++ rest) (Place.advance ⟨1, 1⟩ front) = utf8Length (front ++ rest) := by
  show ((rowPosition front).toOffset? (front ++ rest)).getD _ < _ ∨
    ((rowPosition front).toOffset? (front ++ rest)).getD _ = _
  cases hposition : (rowPosition front).toOffset? (front ++ rest) with
  | some offset =>
    exact .inl (lt_of_toOffset?_rowPosition (fallsIntoLines hfeed front) h hposition)
  | none => exact .inr rfl

/--
**Where reading stopped, and where it is said to have stopped.**

If there is no document, the reader failed at a place in the text, and the message tells the row and
the column of it. The offset is the one of this place if, and only if, each break before the place
ends a row, one right before it apart. Otherwise the offset is one before the place, or the end of
the text.
-/
theorem offset_of_malformed {text : String} {m : Malformed} (h : parse text = .error m) :
    ∃ failure front rest, (tokens text.toList).failure = some failure ∧
      text.toList = front ++ rest ∧ failure.place text.toList = Place.advance ⟨1, 1⟩ front ∧
      m.message = failure.message text.toList ∧
      ((failure.place text.toList).HasOffset text.toList m.offset ↔ RowsAreLines front) ∧
      (¬RowsAreLines front →
        m.offset < utf8Length front ∨ m.offset = utf8Length text.toList) := by
  obtain ⟨failure, front, rest, hfailure, htext, hplace, hne, hfeed, rfl⟩ := exists_failure h
  have hmiss : ¬RowsAreLines front →
      offsetOfPlace text.toList (failure.place text.toList) < utf8Length front ∨
        offsetOfPlace text.toList (failure.place text.toList) = utf8Length text.toList := by
    rw [hplace, htext]
    exact offsetOfPlace_of_not_rowsAreLines hfeed
  refine ⟨failure, front, rest, hfailure, htext, hplace, rfl, ⟨fun hhas => ?_, fun hrows => ?_⟩,
    hmiss⟩
  · have hsame : offsetOfPlace text.toList (failure.place text.toList) = utf8Length front :=
      hhas.unique ⟨front, rest, htext, hplace.symm, rfl⟩
    have hbehind : utf8Length front < utf8Length text.toList := by
      have hpos := utf8Length_pos hne
      rw [htext, utf8Length_append]
      omega
    by_cases hrows : RowsAreLines front
    · exact hrows
    · rcases hmiss hrows with hlt | hend
      · exact absurd hsame (Nat.ne_of_lt hlt)
      · exact absurd (hsame.symm.trans hend) (Nat.ne_of_lt hbehind)
  · refine ⟨front, rest, htext, hplace.symm, ?_⟩
    rw [hplace, htext]
    exact offsetOfPlace_of_rowsAreLines hfeed hrows

/-- A comment with a carriage return, and then what no document may hold. -/
def hiddenReturn : String := "<!--\r-->x"

theorem failure_hiddenReturn :
    (tokens hiddenReturn.toList).failure = some (.unknown ['x']) := by
  decide +kernel

theorem parse_hiddenReturn : parse hiddenReturn = .error ⟨"unknown token at 1:9", 9⟩ := by
  have hempty : (ofTokens (tokens hiddenReturn.toList).tokens).isEmpty = true := by decide +kernel
  have hmessage : (Failure.unknown ['x']).message hiddenReturn.toList = "unknown token at 1:9" := by
    decide +kernel
  have hoffset : offsetOfPlace hiddenReturn.toList
      ((Failure.unknown ['x']).place hiddenReturn.toList) = 9 := by decide +kernel
  rw [parse, parseChars, failure_hiddenReturn]
  dsimp only
  rw [if_pos hempty, hmessage, hoffset]

/-- The break in the comment ends no row, and the offset is the end of the text. -/
theorem offset_of_malformed_hiddenReturn :
    parse hiddenReturn = .error ⟨"unknown token at 1:9", 9⟩ ∧
      ∃ failure front rest, (tokens hiddenReturn.toList).failure = some failure ∧
        hiddenReturn.toList = front ++ rest ∧
        failure.place hiddenReturn.toList = Place.advance ⟨1, 1⟩ front ∧
        "unknown token at 1:9" = failure.message hiddenReturn.toList ∧
        ((failure.place hiddenReturn.toList).HasOffset hiddenReturn.toList 9 ↔
          RowsAreLines front) ∧
        (¬RowsAreLines front → 9 < utf8Length front ∨ 9 = utf8Length hiddenReturn.toList) :=
  ⟨parse_hiddenReturn, offset_of_malformed parse_hiddenReturn⟩

/-- Behind a carriage return, the offset need not be the one of the place. -/
theorem not_offset_of_malformed :
    ¬∀ (text : String) (m : Malformed) (failure : Failure), parse text = .error m →
      (tokens text.toList).failure = some failure →
        (failure.place text.toList).HasOffset text.toList m.offset := by
  intro hall
  have hhas := hall _ _ _ parse_hiddenReturn failure_hiddenReturn
  have hplace : (Failure.unknown ['x']).place hiddenReturn.toList =
      Place.advance ⟨1, 1⟩ "<!--\r-->".toList := by decide +kernel
  have hsplit : hiddenReturn.toList = "<!--\r-->".toList ++ ['x'] := by decide
  have hsame : 9 = utf8Length "<!--\r-->".toList := hhas.unique ⟨_, _, hsplit, hplace.symm, rfl⟩
  exact absurd hsame (by decide)

end Document

end LayoutCompletion
