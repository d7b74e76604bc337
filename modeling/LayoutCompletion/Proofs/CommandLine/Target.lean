import LayoutCompletion.CommandLine.Target

/-!
# Reading targets

A number is written on the command line in decimal digits, with or without a plus sign before them
(`WritesNumber`). Such texts are read, and no others (`number?_eq_some`). No colon stands in them,
so a target falls in no more than one way into a path, a line and a column, whatever colons the path
has (`parse?_eq_some`). A position that is shown behind a path is read back as long as its numbers
lie below the limit (`parse?_roundtrip`).
-/

namespace LayoutCompletion

/-! ## Decimal digits -/

namespace Text

variable {c : Char} {cs : List Char} {d n value : Nat}

theorem digit?_eq_some : digit? c = some d ↔ c.isDigit = true ∧ c.toNat - '0'.toNat = d := by
  have hdigit : ('0' ≤ c && c ≤ '9') = c.isDigit := rfl
  unfold digit?
  rw [hdigit]
  split
  · next h => simp [h]
  · next h => simp [h]

theorem decimalValue?_eq_some :
    decimalValue? value cs = some n ↔
      (∀ c ∈ cs, c.isDigit = true) ∧ Nat.ofDigitChars 10 cs value = n := by
  induction cs generalizing value with
  | nil => simp [decimalValue?]
  | cons c cs ih =>
    simp only [decimalValue?, Option.bind_eq_some_iff, digit?_eq_some, ih, List.forall_mem_cons,
      Nat.ofDigitChars_cons, Nat.mul_comm 10]
    constructor
    · rintro ⟨d, ⟨hc, rfl⟩, hcs, hvalue⟩
      exact ⟨⟨hc, hcs⟩, hvalue⟩
    · rintro ⟨⟨hc, hcs⟩, hvalue⟩
      exact ⟨_, ⟨hc, rfl⟩, hcs, hvalue⟩

end Text

namespace Target

/-! ## Numbers -/

/-- Decimal digits, of which there is at least one, whose value lies below the limit. -/
structure IsNumeral (n : Nat) (digits : List Char) : Prop where
  ne_nil : digits ≠ []
  isDigit : ∀ c ∈ digits, c.isDigit = true
  value : Nat.ofDigitChars 10 digits 0 = n
  lt_limit : n < numberLimit

/--
The ways in which a number is written on the command line.

* `plain`: in digits, of which the first ones may be zeros.
* `signed`: with a plus sign before the digits.
-/
inductive WritesNumber (n : Nat) : List Char → Prop
  | plain {digits : List Char} (h : IsNumeral n digits) : WritesNumber n digits
  | signed {digits : List Char} (h : IsNumeral n digits) : WritesNumber n ('+' :: digits)

variable {n : Nat} {text digits : List Char}

theorem IsNumeral.not_mem {c : Char} (h : IsNumeral n digits) (hc : c.isDigit = false) :
    c ∉ digits := by
  intro hmem
  rw [h.isDigit c hmem] at hc
  cases hc

/-- The digits that a number is shown in. -/
theorem isNumeral_toString (h : n < numberLimit) : IsNumeral n (toString n).toList := by
  rw [Nat.toString_eq_repr, Nat.toList_repr]
  exact ⟨Nat.toDigits_ne_nil,
    fun c hc => Nat.isDigit_of_mem_toDigits (by decide) (Nat.le_refl 10) hc,
    Nat.ofDigitChars_ten_toDigits, h⟩

theorem filter_decimalValue?_eq_some :
    (if digits.isEmpty then none
      else (Text.decimalValue? 0 digits).filter (· < numberLimit)) = some n ↔
      IsNumeral n digits := by
  cases digits with
  | nil => exact iff_of_false (by simp) fun h => h.ne_nil rfl
  | cons c cs =>
    rw [List.isEmpty_cons, if_neg (by decide), Option.filter_eq_some_iff,
      Text.decimalValue?_eq_some, decide_eq_true_iff]
    exact ⟨fun ⟨⟨hdigits, hvalue⟩, hlt⟩ => ⟨List.cons_ne_nil c cs, hdigits, hvalue, hlt⟩,
      fun h => ⟨⟨h.isDigit, h.value⟩, h.lt_limit⟩⟩

theorem number?_eq_some : number? text = some n ↔ WritesNumber n text := by
  unfold number?
  split
  · next digits =>
    rw [filter_decimalValue?_eq_some]
    constructor
    · exact .signed
    · intro h
      cases h with
      | plain h => exact absurd List.mem_cons_self (h.not_mem (by decide))
      | signed h => exact h
  · next hplus =>
    rw [filter_decimalValue?_eq_some]
    constructor
    · exact .plain
    · intro h
      cases h with
      | plain h => exact h
      | signed h => exact absurd rfl (hplus _)

theorem fromOne?_eq_some : fromOne? text = some n ↔ WritesNumber (n + 1) text := by
  rw [← number?_eq_some]
  unfold fromOne?
  split
  · next h => simp [h]
  · next h =>
    constructor
    · intro hn
      cases hn
    · exact fun hn => absurd hn (h n)

theorem WritesNumber.lt_limit (h : WritesNumber n text) : n < numberLimit := by
  cases h with
  | plain h => exact h.lt_limit
  | signed h => exact h.lt_limit

theorem WritesNumber.not_mem_colon (h : WritesNumber n text) : ':' ∉ text := by
  cases h with
  | plain h => exact h.not_mem (by decide)
  | signed h => exact List.not_mem_cons_of_ne_of_not_mem (by decide) (h.not_mem (by decide))

/-! ## Targets -/

variable {s : String} {t : Target}

/-- A target is a path, a line and a column. -/
theorem parse?_eq_some :
    parse? s = some t ↔
      ∃ line column : String, s = t.path ++ ":" ++ line ++ ":" ++ column ∧
        WritesNumber (t.position.line + 1) line.toList ∧
        WritesNumber (t.position.character + 1) column.toList := by
  unfold parse?
  simp only [Option.bind_eq_bind, Option.bind_eq_some_iff, Prod.exists, Text.splitLast?_eq_some,
    fromOne?_eq_some, Option.pure_def, Option.some.injEq]
  constructor
  · rintro ⟨rest, column, ⟨hs, -⟩, path, line, ⟨rfl, -⟩, row, hline, character, hcolumn, rfl⟩
    refine ⟨String.ofList line, String.ofList column, ?_, ?_, ?_⟩
    · rw [← String.toList_inj, hs]
      simp
    · rwa [String.toList_ofList]
    · rwa [String.toList_ofList]
  · rintro ⟨line, column, rfl, hline, hcolumn⟩
    refine ⟨t.path.toList ++ ':' :: line.toList, column.toList, ⟨by simp, hcolumn.not_mem_colon⟩,
      t.path.toList, line.toList, ⟨rfl, hline.not_mem_colon⟩, _, hline, _, hcolumn, ?_⟩
    rw [String.ofList_toList]

/--
**A target is read back, and nothing else is read.**

A position that is shown behind any path is read as this path and this position as long as its
numbers lie below the limit. What is read begins with the path and a colon. Two numbers follow, with
a colon between them, which count the line and the character from one; so neither can be zero.
-/
theorem parse?_roundtrip (path s : String) (p : Text.Position) (t : Target) :
    (parse? (path ++ ":" ++ p.display) = some ⟨path, p⟩ ↔
      p.line + 1 < numberLimit ∧ p.character + 1 < numberLimit) ∧
    (parse? s = some t ↔
      ∃ line column : String, s = t.path ++ ":" ++ line ++ ":" ++ column ∧
        WritesNumber (t.position.line + 1) line.toList ∧
        WritesNumber (t.position.character + 1) column.toList) := by
  refine ⟨?_, parse?_eq_some⟩
  rw [parse?_eq_some]
  constructor
  · rintro ⟨line, column, -, hline, hcolumn⟩
    exact ⟨hline.lt_limit, hcolumn.lt_limit⟩
  · rintro ⟨hline, hcharacter⟩
    refine ⟨toString (p.line + 1), toString (p.character + 1), ?_,
      .plain (isNumeral_toString hline), .plain (isNumeral_toString hcharacter)⟩
    simp only [Text.Position.display, String.append_assoc]

/-- Colons of the path, a plus sign and zeros before a number do no harm. -/
example : parse? "C:1:a.xml:+03:004" = some ⟨"C:1:a.xml", ⟨2, 3⟩⟩ := by decide

end Target

end LayoutCompletion
