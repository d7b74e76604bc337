import LayoutCompletion.Text.Position
import Mathlib.Order.Bounds.Defs

/-!
# Offsets and positions

Bytes, characters and lines count the places in a text in three ways. An offset becomes a position
in two steps: the characters that lie wholly before it are counted (`charsBefore`), and this many
characters are counted off from line to line (`Position.locate`). Both steps keep the order
(`charsBefore_lt`, `locate_lt`).

The position that comes out is on the line on which the place stands (`ofOffset?_on_line`), so that
it leads back (`Position.ofOffset?_roundtrip`). The other way round there is one more position than
there are places on a line that ends with a break: behind the break stands the beginning of the next
line (`ofOffset?_behind_break`, `Position.toOffset?_roundtrip`).
-/

namespace LayoutCompletion.Text

/-- A place between two characters of the text, or at one of its ends. -/
def IsBoundary (text : List Char) (offset : Nat) : Prop :=
  ∃ front back, text = front ++ back ∧ utf8Length front = offset

/-- Positions in the order of the text. -/
instance : LT Position where
  lt p q := p.line < q.line ∨ (p.line = q.line ∧ p.character < q.character)

variable {text : List Char} {p q : Position} {k n offset : Nat}
  {ended later ls : List (List Char)} {line : List Char}

/-! ## Characters before an offset -/

theorem charsBefore_append (front back : List Char) :
    charsBefore (front ++ back) (utf8Length front) = front.length := by
  induction front with
  | nil =>
    cases back with
    | nil => rfl
    | cons c back =>
      have := Char.utf8Size_pos c
      rw [List.nil_append, utf8Length_nil, charsBefore, if_neg (by omega)]
      rfl
  | cons c front ih =>
    rw [List.cons_append, charsBefore, utf8Length_cons, if_pos (Nat.le_add_right _ _),
      Nat.add_sub_cancel_left, ih, List.length_cons]

theorem utf8Length_take_charsBefore (text : List Char) (offset : Nat) :
    utf8Length (text.take (charsBefore text offset)) ≤ offset := by
  fun_induction charsBefore text offset with
  | case1 => exact Nat.zero_le _
  | case2 c cs offset hfits ih =>
    rw [List.take_succ_cons, utf8Length_cons]
    omega
  | case3 => exact Nat.zero_le _

theorem length_le_charsBefore {front back : List Char} (h : utf8Length front ≤ offset) :
    front.length ≤ charsBefore (front ++ back) offset := by
  induction front generalizing offset with
  | nil => exact Nat.zero_le _
  | cons c front ih =>
    rw [utf8Length_cons] at h
    rw [List.cons_append, charsBefore, if_pos (by omega), List.length_cons]
    exact Nat.succ_le_succ (ih (by omega))

/-- No place between two characters is nearer in front of an offset than the one behind the
characters that lie wholly before it. -/
theorem isGreatest_charsBefore (text : List Char) (offset : Nat) :
    IsGreatest {b | IsBoundary text b ∧ b ≤ offset}
      (utf8Length (text.take (charsBefore text offset))) := by
  refine ⟨⟨⟨_, _, (List.take_append_drop _ text).symm, rfl⟩,
    utf8Length_take_charsBefore text offset⟩, ?_⟩
  rintro _ ⟨⟨front, back, rfl, rfl⟩, hle⟩
  obtain ⟨more, hmore⟩ : front <+: (front ++ back).take (charsBefore (front ++ back) offset) :=
    List.prefix_take_iff.mpr ⟨List.prefix_append front back, length_le_charsBefore hle⟩
  rw [← hmore, utf8Length_append]
  exact Nat.le_add_right _ _

theorem charsBefore_lt {a b : Nat} (ha : IsBoundary text a) (hb : IsBoundary text b)
    (h : a < b) : charsBefore text a < charsBefore text b := by
  obtain ⟨front, back, rfl, rfl⟩ := ha
  obtain ⟨front', back', htext, rfl⟩ := hb
  obtain ⟨mid, rfl⟩ := exists_append_of_utf8Length_le htext (Nat.le_of_lt h)
  rw [charsBefore_append, htext, charsBefore_append, List.length_append]
  rw [utf8Length_append] at h
  have hmid : mid.length ≠ 0 := fun hzero => by
    rw [List.eq_nil_of_length_eq_zero hzero, utf8Length_nil] at h
    omega
  omega

/-! ## Lines -/

/-- A character begins a line of its own or stands at the beginning of the first line. -/
theorem exists_lines_cons (c : Char) (cs : List Char) :
    ∃ first rest, lines (c :: cs) = (c :: first) :: rest ∧
      (lines cs = rest ∨ lines cs = first :: rest) := by
  obtain ⟨first, rest, hlines⟩ := List.exists_cons_of_ne_nil (lines_ne_nil cs)
  have hcons : consLine c (lines cs) = (c :: first) :: rest := by
    rw [hlines]
    rfl
  rw [lines, hcons]
  split
  · exact ⟨first, rest, rfl, .inr hlines⟩
  · split
    · exact ⟨[], lines cs, rfl, .inl rfl⟩
    · exact ⟨first, rest, rfl, .inr hlines⟩

/-- Every line but the last has its break in it. -/
theorem ne_nil_of_lines (h : lines text = ended ++ line :: later) (hlater : later ≠ []) :
    line ≠ [] := by
  induction text generalizing ended with
  | nil =>
    have hlength := congrArg List.length h
    have hpos := List.length_pos_iff.mpr hlater
    simp only [lines, List.length_append, List.length_cons, List.length_nil] at hlength
    omega
  | cons c cs ih =>
    obtain ⟨first, rest, hcons, hrest⟩ := exists_lines_cons c cs
    rw [hcons] at h
    cases ended with
    | nil =>
      rw [← (List.cons.inj h).1]
      exact List.cons_ne_nil _ _
    | cons e ended =>
      obtain rfl := (List.cons.inj h).2
      rcases hrest with hrest | hrest
      · exact ih hrest
      · exact ih (show lines cs = (first :: ended) ++ line :: later from hrest)

theorem locate_append (h : k < line.length ∨ later = []) :
    Position.locate n (ended ++ line :: later) (ended.flatten.length + k) =
      ⟨n + ended.length, k⟩ := by
  induction ended generalizing n with
  | nil =>
    cases later with
    | nil => simp [Position.locate]
    | cons next later =>
      have hk : k < line.length := h.resolve_right (List.cons_ne_nil _ _)
      simp [Position.locate, hk]
  | cons first ended ih =>
    obtain ⟨next, rest, hnext⟩ : ∃ next rest, ended ++ line :: later = next :: rest :=
      List.exists_cons_of_ne_nil (by simp)
    have hout : ¬ first.length + ended.flatten.length + k < first.length := by omega
    have hin : first.length + ended.flatten.length + k - first.length =
      ended.flatten.length + k := by omega
    rw [List.cons_append, hnext, List.flatten_cons, List.length_append, Position.locate,
      if_neg hout, hin, ← hnext, ih, List.length_cons, Nat.add_assoc, Nat.add_comm 1]

/-- Every character stands on a line, and so does the end of the last one. -/
theorem exists_line (hne : ls ≠ []) (hk : k ≤ ls.flatten.length) :
    ∃ ended line later c, ls = ended ++ line :: later ∧ k = ended.flatten.length + c ∧
      c ≤ line.length ∧ (c < line.length ∨ later = []) := by
  induction ls generalizing k with
  | nil => exact absurd rfl hne
  | cons first ls ih =>
    -- the end of a line belongs to it only if no line is behind it
    by_cases hfirst : k < first.length ∨ ls = []
    · refine ⟨[], first, ls, k, rfl, (Nat.zero_add k).symm, ?_, hfirst⟩
      rcases hfirst with hlt | rfl
      · exact Nat.le_of_lt hlt
      · simpa using hk
    · rw [not_or] at hfirst
      rw [List.flatten_cons, List.length_append] at hk
      obtain ⟨ended, line, later, c, rfl, hc, hle, hlast⟩ :=
        ih (k := k - first.length) hfirst.2 (by omega)
      refine ⟨first :: ended, line, later, c, rfl, ?_, hle, hlast⟩
      rw [List.flatten_cons, List.length_append]
      omega

theorem le_line_locate (n : Nat) (ls : List (List Char)) (k : Nat) :
    n ≤ (Position.locate n ls k).line := by
  fun_induction Position.locate n ls k with
  | case1 => exact Nat.le_refl _
  | case2 => exact Nat.le_refl _
  | case3 => exact Nat.le_refl _
  | case4 n line next rest k hk ih => exact Nat.le_of_succ_le ih

theorem locate_lt {k' : Nat} (h : k < k') :
    Position.locate n ls k < Position.locate n ls k' := by
  fun_induction Position.locate n ls k generalizing k' with
  | case1 n k => exact .inr ⟨rfl, h⟩
  | case2 n line k => exact .inr ⟨rfl, h⟩
  | case3 n line next rest k hk =>
    rw [Position.locate]
    split
    · exact .inr ⟨rfl, h⟩
    · exact .inl (le_line_locate _ _ _)
  | case4 n line next rest k hk ih =>
    rw [Position.locate, if_neg (by omega)]
    exact ih (by omega)

/-! ## Positions of places -/

theorem toOffset?_append (h : lines text = ended ++ line :: later) (c : Nat) :
    Position.toOffset? text ⟨ended.length, c⟩ =
      if c ≤ line.length then some (utf8Length (ended.flatten ++ line.take c)) else none := by
  have hline : (lines text)[ended.length]? = some line := by simp [h]
  rw [Position.toOffset?, hline, h, List.take_left, utf8Length_append]

theorem exists_of_toOffset? (h : p.toOffset? text = some offset) :
    ∃ ended line later, lines text = ended ++ line :: later ∧ p.line = ended.length ∧
      p.character ≤ line.length ∧ offset = utf8Length (ended.flatten ++ line.take p.character) := by
  unfold Position.toOffset? at h
  split at h
  · cases h
  · next line hline =>
    split at h
    · next hfits =>
      obtain ⟨hlt, rfl⟩ := List.getElem?_eq_some_iff.mp hline
      refine ⟨(lines text).take p.line, (lines text)[p.line], (lines text).drop (p.line + 1),
        ?_, ?_, hfits, ?_⟩
      · rw [List.getElem_cons_drop, List.take_append_drop]
      · rw [List.length_take_of_le (Nat.le_of_lt hlt)]
      · rw [utf8Length_append]
        exact (Option.some.inj h).symm
    · cases h

/-- What stands before a place on a line. -/
theorem append_of_lines (h : lines text = ended ++ line :: later) (c : Nat) :
    text = (ended.flatten ++ line.take c) ++ (line.drop c ++ later.flatten) := by
  rw [← flatten_lines text, h, List.flatten_append, List.flatten_cons, List.append_assoc,
    ← List.append_assoc (line.take c), List.take_append_drop]

theorem charsBefore_on_line {c : Nat} (h : lines text = ended ++ line :: later)
    (hc : c ≤ line.length) :
    charsBefore text (utf8Length (ended.flatten ++ line.take c)) = ended.flatten.length + c := by
  have hbefore := charsBefore_append (ended.flatten ++ line.take c) (line.drop c ++ later.flatten)
  rw [← append_of_lines h] at hbefore
  rw [hbefore, List.length_append, List.length_take_of_le hc]

theorem ofOffset?_of_le (h : offset ≤ utf8Length text) :
    Position.ofOffset? text offset =
      some (Position.locate 0 (lines text) (charsBefore text offset)) :=
  if_pos h

/-- A place on a line has the position on that line, unless it is the one behind its break. -/
theorem ofOffset?_on_line {c : Nat} (h : lines text = ended ++ line :: later)
    (hc : c ≤ line.length) (hlast : c < line.length ∨ later = []) :
    Position.ofOffset? text (utf8Length (ended.flatten ++ line.take c)) =
      some ⟨ended.length, c⟩ := by
  have hle : utf8Length (ended.flatten ++ line.take c) ≤ utf8Length text := by
    have hlength := congrArg utf8Length (append_of_lines h c)
    rw [utf8Length_append (_ ++ _)] at hlength
    omega
  rw [ofOffset?_of_le hle, charsBefore_on_line h hc, h, locate_append hlast, Nat.zero_add]

/-- The place behind the break of a line is where the next line begins. -/
theorem ofOffset?_behind_break {next : List Char}
    (h : lines text = ended ++ line :: next :: later) :
    Position.ofOffset? text (utf8Length (ended.flatten ++ line)) =
      some ⟨ended.length + 1, 0⟩ := by
  have hnext : lines text = (ended ++ [line]) ++ next :: later := by
    rw [h, List.append_assoc, List.singleton_append]
  -- the next line has a break of its own unless it is the last one
  have hlast : 0 < next.length ∨ later = [] := by
    by_cases hlater : later = []
    · exact .inr hlater
    · exact .inl (List.length_pos_iff.mpr (ne_nil_of_lines hnext hlater))
  have hposition := ofOffset?_on_line hnext (Nat.zero_le _) hlast
  rw [List.take_zero, List.append_nil, List.flatten_append, List.flatten_singleton,
    List.length_append, List.length_singleton] at hposition
  exact hposition

/-- The position of an offset leads back to the nearest place between two characters that is not
behind the offset. -/
theorem toOffset?_of_ofOffset? (h : Position.ofOffset? text offset = some p) :
    p.toOffset? text = some (utf8Length (text.take (charsBefore text offset))) := by
  unfold Position.ofOffset? at h
  split at h
  · have hk := charsBefore_le_length text offset
    rw [← congrArg List.length (flatten_lines text)] at hk
    obtain ⟨ended, line, later, c, hlines, hbefore, hc, hlast⟩ :=
      exists_line (lines_ne_nil text) hk
    rw [hlines, hbefore, locate_append hlast, Nat.zero_add] at h
    -- the characters before the offset are the lines that have ended and the first ones of this one
    have hfront : (ended.flatten ++ line.take c).length = charsBefore text offset := by
      rw [List.length_append, List.length_take_of_le hc, hbefore]
    have htake := congrArg (List.take (charsBefore text offset)) (append_of_lines hlines c)
    rw [List.take_left' hfront] at htake
    rw [← Option.some.inj h, toOffset?_append hlines, if_pos hc, htake]
  · cases h

theorem le_of_isBoundary (h : IsBoundary text offset) : offset ≤ utf8Length text := by
  obtain ⟨front, back, rfl, rfl⟩ := h
  rw [utf8Length_append]
  exact Nat.le_add_right _ _

theorem ofOffset?_lt {a b : Nat} (ha : IsBoundary text a) (hb : IsBoundary text b) (h : a < b)
    (hp : Position.ofOffset? text a = some p) (hq : Position.ofOffset? text b = some q) :
    p < q := by
  rw [ofOffset?_of_le (le_of_isBoundary ha)] at hp
  rw [ofOffset?_of_le (le_of_isBoundary hb)] at hq
  rw [← Option.some.inj hp, ← Option.some.inj hq]
  exact locate_lt (charsBefore_lt ha hb h)

/--
**Offsets become positions and positions offsets again.**

Exactly the offsets up to the end of the text have a position. It leads back to the offset, or from
within a character to where that character begins. Later places have later positions, whatever
breaks stand between them.
-/
theorem Position.ofOffset?_roundtrip (text : List Char) :
    (∀ offset : Nat, (ofOffset? text offset).isSome ↔ offset ≤ utf8Length text) ∧
    (∀ (offset : Nat) (p : Position), ofOffset? text offset = some p →
      ∃ b, p.toOffset? text = some b ∧ IsGreatest {b | IsBoundary text b ∧ b ≤ offset} b) ∧
    (∀ (a b : Nat) (p q : Position), IsBoundary text a → IsBoundary text b → a < b →
      ofOffset? text a = some p → ofOffset? text b = some q → p < q) := by
  refine ⟨fun offset => ?_, fun offset p h => ?_, fun _ _ _ _ ha hb hlt => ofOffset?_lt ha hb hlt⟩
  · unfold ofOffset?
    split <;> simp [*]
  · exact ⟨_, toOffset?_of_ofOffset? h, isGreatest_charsBefore text offset⟩

/-! ## Positions that are accepted -/

/-- The place behind the break of a line that is not the last one. -/
def Position.IsBehindBreak (text : List Char) (p : Position) : Prop :=
  p.line + 1 < (lines text).length ∧ (lines text)[p.line]?.map List.length = some p.character

instance (text : List Char) (p : Position) : Decidable (p.IsBehindBreak text) :=
  inferInstanceAs (Decidable (_ ∧ _))

/-- The position of the same place on the line on which it stands: behind a break, the next line
begins. -/
def Position.canonical (text : List Char) (p : Position) : Position :=
  if p.IsBehindBreak text then ⟨p.line + 1, 0⟩ else p

theorem isBehindBreak_iff (h : lines text = ended ++ line :: later) {c : Nat} :
    Position.IsBehindBreak text ⟨ended.length, c⟩ ↔ later ≠ [] ∧ c = line.length := by
  have hline : (lines text)[ended.length]? = some line := by simp [h]
  have hlength : (lines text).length = ended.length + (later.length + 1) := by
    rw [h, List.length_append, List.length_cons]
  unfold Position.IsBehindBreak
  rw [hline, hlength, Option.map_some, Option.some.injEq, ← List.length_pos_iff]
  dsimp only
  omega

theorem ofOffset?_of_toOffset? (h : p.toOffset? text = some offset) :
    Position.ofOffset? text offset = some (p.canonical text) := by
  obtain ⟨ended, line, later, hlines, hline, hc, rfl⟩ := exists_of_toOffset? h
  obtain ⟨row, c⟩ := p
  obtain rfl : row = ended.length := hline
  unfold Position.canonical
  split
  · next hbreak =>
    obtain ⟨hlater, rfl⟩ := (isBehindBreak_iff hlines).mp hbreak
    obtain ⟨next, later, rfl⟩ := List.exists_cons_of_ne_nil hlater
    rw [List.take_length]
    exact ofOffset?_behind_break hlines
  · next hbreak =>
    rw [isBehindBreak_iff hlines, Classical.not_and_iff_not_or_not, Classical.not_not] at hbreak
    refine ofOffset?_on_line hlines hc ?_
    rcases hbreak with hlater | hne
    · exact .inr hlater
    · exact .inl (Nat.lt_of_le_of_ne hc hne)

theorem isBoundary_of_toOffset? (h : p.toOffset? text = some offset) : IsBoundary text offset := by
  obtain ⟨ended, line, later, hlines, -, -, rfl⟩ := exists_of_toOffset? h
  exact ⟨_, _, append_of_lines hlines p.character, rfl⟩

theorem Position.lt_irrefl (p : Position) : ¬p < p := fun h =>
  h.elim (Nat.lt_irrefl _) fun hsame => Nat.lt_irrefl _ hsame.2

/-- Different places have different positions. -/
theorem ofOffset?_inj {a b : Nat} (ha : IsBoundary text a) (hb : IsBoundary text b)
    (h : Position.ofOffset? text a = Position.ofOffset? text b) : a = b := by
  have hsome := ofOffset?_of_le (le_of_isBoundary ha)
  rcases Nat.lt_trichotomy a b with hlt | heq | hlt
  · exact absurd (ofOffset?_lt ha hb hlt hsome (h ▸ hsome)) (Position.lt_irrefl _)
  · exact heq
  · exact absurd (ofOffset?_lt hb ha hlt (h ▸ hsome) hsome) (Position.lt_irrefl _)

theorem toOffset?_eq_none :
    p.toOffset? text = none ↔
      ∀ line, (lines text)[p.line]? = some line → line.length < p.character := by
  unfold Position.toOffset?
  cases (lines text)[p.line]? with
  | none => simp
  | some line => simp

/--
**An accepted position denotes a place on its own line or the beginning of the next one.**

It is the position of its offset, except that the place behind a break counts to the next line. So
two accepted positions give the same offset only if this makes them the same. A column further out
than the break is rejected.
-/
theorem Position.toOffset?_roundtrip (text : List Char) :
    (∀ (p : Position) (offset : Nat), p.toOffset? text = some offset →
      ofOffset? text offset = some (p.canonical text)) ∧
    (∀ (p q : Position) (offset offset' : Nat),
      p.toOffset? text = some offset → q.toOffset? text = some offset' →
        (offset = offset' ↔ p.canonical text = q.canonical text)) ∧
    (∀ p : Position, p.toOffset? text = none ↔
      ∀ line : List Char, (lines text)[p.line]? = some line → line.length < p.character) := by
  refine ⟨fun _ _ => ofOffset?_of_toOffset?, fun p q offset offset' hp hq => ⟨?_, ?_⟩,
    fun _ => toOffset?_eq_none⟩
  · rintro rfl
    exact Option.some.inj ((ofOffset?_of_toOffset? hp).symm.trans (ofOffset?_of_toOffset? hq))
  · intro hsame
    refine ofOffset?_inj (isBoundary_of_toOffset? hp) (isBoundary_of_toOffset? hq) ?_
    rw [ofOffset?_of_toOffset? hp, ofOffset?_of_toOffset? hq, hsame]

/-- The fourth place of the first line is accepted, but it is the first one of the second line. -/
theorem Position.not_toOffset?_roundtrip :
    ¬ ∀ (text : List Char) (p : Position) (offset : Nat), p.toOffset? text = some offset →
      ofOffset? text offset = some p := by
  intro h
  exact absurd (h "ab\ncd".toList ⟨0, 3⟩ 3 (by decide)) (by decide)

end LayoutCompletion.Text
