import LayoutCompletion.Markup.Token

/-!
# When a scan succeeds

For every basic scan: what stood before it, what it gave and what it left, if it did not stop.
`bind_eq_ok` takes a scan that is put together from others apart. Nothing else in this library
unfolds the monad of scans.

Words of one class are described by `AllOf`, and where such a word ends by `Ends`; together they
say what reading as long as possible takes (`takeWhile_eq_ok`).
-/

namespace LayoutCompletion.Markup.Scan

/-- Every character of the text is in the class. -/
def AllOf (p : Char → Bool) (cs : List Char) : Prop :=
  ∀ c ∈ cs, p c = true

/-- The text does not go on with a character of the class. -/
def Ends (p : Char → Bool) (cs : List Char) : Prop :=
  ∀ c ∈ cs.head?, p c = false

instance (p : Char → Bool) (cs : List Char) : Decidable (AllOf p cs) :=
  decidable_of_iff (cs.all p = true) List.all_eq_true

instance (p : Char → Bool) (cs : List Char) : Decidable (Ends p cs) :=
  decidable_of_iff (cs.head?.all (fun c => !p c) = true) (by
    cases cs <;> simp [Ends])

theorem Ends.of_head? {p : Char → Bool} {cs ds : List Char} (h : Ends p cs)
    (he : cs.head? = ds.head?) : Ends p ds := by
  unfold Ends
  rw [← he]
  exact h

theorem ends_cons {p : Char → Bool} {c : Char} {cs : List Char} :
    Ends p (c :: cs) ↔ p c = false := by
  simp [Ends]

theorem allOf_cons {p : Char → Bool} {c : Char} {cs : List Char} :
    AllOf p (c :: cs) ↔ p c = true ∧ AllOf p cs :=
  List.forall_mem_cons

theorem ends_append {p : Char → Bool} {cs ds : List Char} (hcs : Ends p cs) (hds : Ends p ds) :
    Ends p (cs ++ ds) := by
  cases cs with
  | nil => exact hds
  | cons c cs => exact ends_cons.mpr (ends_cons.mp hcs)

theorem allOf_append {p : Char → Bool} {as bs : List Char} :
    AllOf p (as ++ bs) ↔ AllOf p as ∧ AllOf p bs :=
  List.forall_mem_append

theorem allOf_takeWhile (p : Char → Bool) (cs : List Char) : AllOf p (cs.takeWhile p) := by
  intro c hc
  have h : (cs.takeWhile p).all p = true := List.all_takeWhile
  exact List.all_eq_true.mp h c hc

theorem ends_dropWhile (p : Char → Bool) (cs : List Char) : Ends p (cs.dropWhile p) := by
  intro c hc
  have h := List.head?_dropWhile_not p cs
  rw [Option.mem_def.mp hc] at h
  exact h

/-- A word of a class that ends where the class ends is all that is taken. -/
theorem takeWhile_append_ends {p : Char → Bool} {word rest : List Char} (hw : AllOf p word)
    (hr : Ends p rest) : (word ++ rest).takeWhile p = word := by
  rw [List.takeWhile_append_of_pos hw]
  cases rest with
  | nil => simp
  | cons c rest => simp [ends_cons.mp hr]

theorem dropWhile_append_ends {p : Char → Bool} {word rest : List Char} (hw : AllOf p word)
    (hr : Ends p rest) : (word ++ rest).dropWhile p = rest := by
  rw [List.dropWhile_append_of_pos hw]
  cases rest with
  | nil => simp
  | cons c rest => simp [ends_cons.mp hr]

/-- A text falls in one way only into a word of a class and a rest that does not go on with it. -/
theorem append_inj_of_ends {p : Char → Bool} {word word' rest rest' : List Char}
    (hw : AllOf p word) (hr : Ends p rest) (hw' : AllOf p word') (hr' : Ends p rest')
    (h : word ++ rest = word' ++ rest') : word = word' ∧ rest = rest' := by
  constructor
  · rw [← takeWhile_append_ends hw hr, h, takeWhile_append_ends hw' hr']
  · rw [← dropWhile_append_ends hw hr, h, dropWhile_append_ends hw' hr']

theorem isSpace_iff {c : Char} :
    isSpace c = true ↔ c = ' ' ∨ c = '\t' ∨ c = '\n' ∨ c = '\r' := by
  simp only [isSpace, Bool.or_eq_true, decide_eq_true_eq, or_assoc]

/-! ## Scans -/

variable {α β : Type}

theorem bind_eq_ok {p : Scan α} {f : α → Scan β} {cs rest : List Char} {b : β} :
    (p >>= f) cs = .ok (b, rest) ↔ ∃ a mid, p cs = .ok (a, mid) ∧ f a mid = .ok (b, rest) := by
  cases h : p cs with
  | error e => simp [bind, StateT.bind, h, Except.bind]
  | ok v =>
    obtain ⟨a, mid⟩ := v
    simp only [bind, StateT.bind, h, Except.bind, Except.ok.injEq, Prod.mk.injEq]
    constructor
    · intro hf
      exact ⟨a, mid, ⟨rfl, rfl⟩, hf⟩
    · rintro ⟨_, _, ⟨rfl, rfl⟩, hf⟩
      exact hf

theorem exceptMap_eq_ok {ε : Type} {e : Except ε α} {f : α → β} {b : β} :
    e.map f = .ok b ↔ ∃ a, e = .ok a ∧ f a = b := by
  cases e <;> simp [Except.map]

theorem map_eq_ok {p : Scan α} {f : α → β} {cs rest : List Char} {b : β} :
    (f <$> p) cs = .ok (b, rest) ↔ ∃ a, p cs = .ok (a, rest) ∧ f a = b := by
  cases h : p cs with
  | error e => simp [Functor.map, StateT.map, h, bind, Except.bind]
  | ok v =>
    obtain ⟨a, mid⟩ := v
    simp only [Functor.map, StateT.map, h, bind, Except.bind, pure, Except.pure, Except.ok.injEq,
      Prod.mk.injEq]
    constructor
    · rintro ⟨rfl, rfl⟩
      exact ⟨a, ⟨rfl, rfl⟩, rfl⟩
    · rintro ⟨_, ⟨rfl, rfl⟩, rfl⟩
      exact ⟨rfl, rfl⟩

@[simp] theorem pure_eq_ok {a b : α} {cs rest : List Char} :
    (pure a : Scan α) cs = .ok (b, rest) ↔ a = b ∧ cs = rest := by
  show (Except.ok (a, cs) : Except Stop (α × List Char)) = .ok (b, rest) ↔ _
  rw [Except.ok.injEq, Prod.mk.injEq]

@[simp] theorem fail_ne_ok {cause : Cause} {a : α} {cs rest : List Char} :
    (fail cause : Scan α) cs ≠ .ok (a, rest) := by
  simp [fail]

@[simp] theorem failIf_eq_ok {condition : Bool} {cause : Cause} {cs rest : List Char} {u : Unit} :
    failIf condition cause cs = .ok (u, rest) ↔ condition = false ∧ cs = rest := by
  cases condition <;> simp [failIf]

@[simp] theorem peek_eq_ok {next : Option Char} {cs rest : List Char} :
    peek cs = .ok (next, rest) ↔ cs.head? = next ∧ cs = rest := by
  simp [peek]

@[simp] theorem sees_eq_ok {opening : String} {seen : Bool} {cs rest : List Char} :
    sees opening cs = .ok (seen, rest) ↔ begins opening cs = seen ∧ cs = rest := by
  simp [sees]

@[simp] theorem advance_eq_ok {n : Nat} {u : Unit} {cs rest : List Char} :
    advance n cs = .ok (u, rest) ↔ cs.drop n = rest := by
  simp [advance]

theorem takeWhile_eq_ok {p : Char → Bool} {word cs rest : List Char} :
    takeWhile p cs = .ok (word, rest) ↔ cs = word ++ rest ∧ AllOf p word ∧ Ends p rest := by
  simp only [takeWhile, Except.ok.injEq, Prod.mk.injEq]
  constructor
  · rintro ⟨rfl, rfl⟩
    exact ⟨List.takeWhile_append_dropWhile.symm, allOf_takeWhile p cs, ends_dropWhile p cs⟩
  · rintro ⟨rfl, hw, hr⟩
    exact ⟨takeWhile_append_ends hw hr, dropWhile_append_ends hw hr⟩

theorem spaces_eq_ok {word cs rest : List Char} :
    spaces cs = .ok (word, rest) ↔ cs = word ++ rest ∧ AllOf isSpace word ∧ Ends isSpace rest :=
  takeWhile_eq_ok

@[simp] theorem char_eq_ok {want : Char} {u : Unit} {cs rest : List Char} :
    char want cs = .ok (u, rest) ↔ cs = want :: rest := by
  cases cs with
  | nil => simp [char]
  | cons c cs =>
    by_cases h : c = want <;> simp [char, h]

theorem begins_iff {opening : String} {cs : List Char} :
    begins opening cs = true ↔ ∃ rest, cs = opening.toList ++ rest := by
  rw [begins, List.isPrefixOf_iff_prefix]
  constructor
  · rintro ⟨rest, h⟩
    exact ⟨rest, h.symm⟩
  · rintro ⟨rest, h⟩
    exact ⟨rest, h.symm⟩

@[simp] theorem text_eq_ok {want : String} {u : Unit} {cs rest : List Char} :
    text want cs = .ok (u, rest) ↔ cs = want.toList ++ rest := by
  unfold text
  constructor
  · intro h
    split at h
    · next hb =>
      obtain ⟨tail, rfl⟩ := begins_iff.mp hb
      simp only [List.drop_left, Except.ok.injEq, Prod.mk.injEq, true_and] at h
      rw [h]
    · simp at h
  · rintro rfl
    rw [if_pos (begins_iff.mpr ⟨rest, rfl⟩)]
    simp

/-- One of the two characters between which values and literals stand. -/
def IsQuote (c : Char) : Prop :=
  c = '\x22' ∨ c = '\x27'

@[simp] theorem quote_eq_ok {q : Char} {cs rest : List Char} :
    quote cs = .ok (q, rest) ↔ cs = q :: rest ∧ IsQuote q := by
  cases cs with
  | nil => simp [quote]
  | cons c cs =>
    simp only [quote, IsQuote, Bool.or_eq_true, decide_eq_true_eq, List.cons.injEq]
    split
    · next h =>
      simp only [Except.ok.injEq, Prod.mk.injEq]
      constructor
      · rintro ⟨rfl, rfl⟩
        exact ⟨⟨rfl, rfl⟩, h⟩
      · rintro ⟨⟨rfl, rfl⟩, _⟩
        exact ⟨rfl, rfl⟩
    · next h =>
      simp only [reduceCtorEq, false_iff, not_and]
      rintro ⟨rfl, _⟩
      exact h

theorem someSpace_eq_ok {word cs rest : List Char} :
    someSpace cs = .ok (word, rest) ↔
      word ≠ [] ∧ cs = word ++ rest ∧ AllOf isSpace word ∧ Ends isSpace rest := by
  cases cs with
  | nil =>
    simp only [someSpace, reduceCtorEq, false_iff, not_and]
    intro hne he
    exact absurd (List.append_eq_nil_iff.mp he.symm).1 hne
  | cons c cs =>
    simp only [someSpace]
    split
    · next hc =>
      have hspaces : spaces (c :: cs) = .ok (word, rest) ↔ _ := spaces_eq_ok
      simp only [spaces, takeWhile] at hspaces
      rw [hspaces]
      constructor
      · rintro ⟨hcs, hw, hr⟩
        -- the empty word would end before a space
        refine ⟨?_, hcs, hw, hr⟩
        rintro rfl
        rw [List.nil_append] at hcs
        rw [← hcs, ends_cons] at hr
        simp [hc] at hr
      · exact fun h => h.2
    · next hc =>
      simp only [reduceCtorEq, false_iff, not_and]
      intro hne hcs hw
      obtain ⟨d, word, rfl⟩ := List.exists_cons_of_ne_nil hne
      rw [List.cons_append, List.cons.injEq] at hcs
      have := hw d (by simp)
      rw [hcs.1] at hc
      exact absurd this hc

section
variable {stop : List Char → Bool} {c d : Char} {body tail cs rest : List Char}

theorem upTo_cons_eq_nil :
    upTo stop (c :: cs) = .ok ([], rest) ↔
      c :: cs = rest ∧ isLegal c = true ∧ stop (c :: cs) = true := by
  unfold upTo
  cases hlegal : isLegal c <;> cases hstop : stop (c :: cs) <;> simp [exceptMap_eq_ok]

theorem upTo_cons_eq_cons :
    upTo stop (c :: cs) = .ok (d :: tail, rest) ↔
      c = d ∧ isLegal c = true ∧ stop (c :: cs) = false ∧ upTo stop cs = .ok (tail, rest) := by
  rw [upTo]
  cases hlegal : isLegal c <;> cases hstop : stop (c :: cs) <;>
    simp only [Bool.not_true, Bool.not_false, if_true, if_false, Bool.false_eq_true, reduceCtorEq,
      Except.ok.injEq, Prod.mk.injEq, List.cons.injEq, false_and, and_false, true_and,
      exceptMap_eq_ok]
  constructor
  · rintro ⟨⟨_, _⟩, hv, ⟨rfl, rfl⟩, rfl⟩
    exact ⟨rfl, hv⟩
  · rintro ⟨rfl, hv⟩
    exact ⟨_, hv, ⟨rfl, rfl⟩, rfl⟩

/-- Reading does not stop in a text if it stops neither at its front nor behind. -/
theorem not_stop_cons :
    (∀ u v, c :: body = u ++ v → v ≠ [] → stop (v ++ rest) = false) ↔
      stop (c :: (body ++ rest)) = false ∧
        ∀ u v, body = u ++ v → v ≠ [] → stop (v ++ rest) = false := by
  constructor
  · intro h
    refine ⟨h [] (c :: body) rfl (List.cons_ne_nil c body), fun u v huv hne => ?_⟩
    exact h (c :: u) v (congrArg (c :: ·) huv) hne
  · rintro ⟨hhere, hlater⟩ u v huv hne
    cases u with
    | nil =>
      rw [List.nil_append] at huv
      rw [← huv]
      exact hhere
    | cons e u => exact hlater u v (List.cons.inj huv).2 hne

/-- Reading up to a place: only legal characters, no such place before, and one behind them unless
the text is at its end. -/
theorem upTo_eq_ok :
    upTo stop cs = .ok (body, rest) ↔
      cs = body ++ rest ∧ AllOf isLegal body ∧
        (∀ u v, body = u ++ v → v ≠ [] → stop (v ++ rest) = false) ∧
        ∀ c ∈ rest.head?, isLegal c = true ∧ stop rest = true := by
  induction cs generalizing body with
  | nil =>
    simp only [upTo, Except.ok.injEq, Prod.mk.injEq]
    constructor
    · rintro ⟨rfl, rfl⟩
      exact ⟨rfl, by simp [AllOf], by simp, by simp⟩
    · rintro ⟨h, -⟩
      exact ⟨(List.append_eq_nil_iff.mp h.symm).1.symm, (List.append_eq_nil_iff.mp h.symm).2.symm⟩
  | cons c cs ih =>
    cases body with
    | nil =>
      rw [upTo_cons_eq_nil]
      constructor
      · rintro ⟨rfl, hlegal, hstop⟩
        exact ⟨rfl, by simp [AllOf], by simp, by simp [hlegal, hstop]⟩
      · rintro ⟨hcs, -, -, hrest⟩
        obtain rfl : c :: cs = rest := hcs
        exact ⟨rfl, hrest c rfl⟩
    | cons d body =>
      rw [upTo_cons_eq_cons, ih, allOf_cons, not_stop_cons]
      constructor
      · rintro ⟨rfl, hlegal, hstop, rfl, hall, hbefore, hrest⟩
        exact ⟨rfl, ⟨hlegal, hall⟩, ⟨hstop, hbefore⟩, hrest⟩
      · rintro ⟨hcs, ⟨hlegal, hall⟩, ⟨hstop, hbefore⟩, hrest⟩
        obtain ⟨rfl, rfl⟩ := List.cons.inj hcs
        exact ⟨rfl, hlegal, hstop, rfl, hall, hbefore, hrest⟩

end

theorem lexeme_eq_ok {p : Scan α} (hp : Suffix p) {a : α} {word cs rest : List Char} :
    lexeme p cs = .ok ((a, word), rest) ↔ cs = word ++ rest ∧ p cs = .ok (a, rest) := by
  cases h : p cs with
  | error e => simp [lexeme, h, Except.map]
  | ok v =>
    obtain ⟨b, mid⟩ := v
    -- what was read is what stood before the rest
    obtain ⟨t, rfl⟩ := hp h
    simp only [lexeme, h, Except.map, List.length_append, Nat.add_sub_cancel, List.take_left,
      Except.ok.injEq, Prod.mk.injEq]
    constructor
    · rintro ⟨⟨rfl, rfl⟩, rfl⟩
      exact ⟨rfl, rfl, rfl⟩
    · rintro ⟨hcs, rfl, rfl⟩
      exact ⟨⟨rfl, List.append_cancel_right hcs⟩, rfl⟩

end LayoutCompletion.Markup.Scan
