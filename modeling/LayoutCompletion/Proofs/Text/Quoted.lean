import LayoutCompletion.Proofs.Markup.Success
import LayoutCompletion.Text.Quoted
import Mathlib.Data.List.Basic

/-!
# Reading quoted texts back

Where a text in quotes stands at the front of others, it can be told which text it is and where it
ends (`quotedChars_append_inj`), whatever stands in it. For no way of writing a character is the
beginning of another one (`escapeChar_append_inj`), and none begins with a quote.
-/

namespace LayoutCompletion.Text

open Markup.Scan

variable {c c' : Char} {cs cs' rest rest' : List Char} {m n : Nat}

/-! ## Hexadecimal digits -/

theorem digitChar_inj (hm : m < 16) (hn : n < 16) (h : m.digitChar = n.digitChar) : m = n := by
  have hall : ∀ m : Fin 16, ∀ n : Fin 16, m.val.digitChar = n.val.digitChar → m = n := by decide
  exact congrArg Fin.val (hall ⟨m, hm⟩ ⟨n, hn⟩ h)

/-- Digits tell the number that they write. -/
theorem toDigits_inj (h : Nat.toDigits 16 m = Nat.toDigits 16 n) : m = n := by
  have hlong {m : Nat} (hm : 16 ≤ m) : 1 < (Nat.toDigits 16 m).length := by
    have hpos := List.length_pos_iff.mpr (Nat.toDigits_ne_nil (n := m / 16) (b := 16))
    rw [Nat.toDigits_of_base_le (by decide) hm, List.length_append, List.length_singleton]
    omega
  induction m using Nat.strongRecOn generalizing n with
  | ind m ih =>
    by_cases hm : m < 16 <;> by_cases hn : n < 16
    · rw [Nat.toDigits_of_lt_base hm, Nat.toDigits_of_lt_base hn] at h
      exact digitChar_inj hm hn (List.singleton_inj.mp h)
    · have hlength := hlong (Nat.le_of_not_lt hn)
      rw [← h, Nat.toDigits_of_lt_base hm] at hlength
      exact absurd hlength (by simp)
    · have hlength := hlong (Nat.le_of_not_lt hm)
      rw [h, Nat.toDigits_of_lt_base hn] at hlength
      exact absurd hlength (by simp)
    · have hm := Nat.le_of_not_lt hm
      have hn := Nat.le_of_not_lt hn
      rw [Nat.toDigits_of_base_le (by decide) hm, Nat.toDigits_of_base_le (by decide) hn] at h
      obtain ⟨hfront, hlast⟩ := List.append_inj' h rfl
      have hdiv : m / 16 = n / 16 := ih (m / 16) (by omega) hfront
      have hmod : m % 16 = n % 16 :=
        digitChar_inj (Nat.mod_lt m (by decide)) (Nat.mod_lt n (by decide))
          (List.singleton_inj.mp hlast)
      omega

/-- The brace is no digit. -/
theorem allOf_toDigits (n : Nat) : AllOf (· ≠ '\x7d') (Nat.toDigits 16 n) := by
  have hdigit {n : Nat} (hn : n < 16) : AllOf (· ≠ '\x7d') [n.digitChar] := by
    have hall : ∀ n : Fin 16, AllOf (· ≠ '\x7d') [n.val.digitChar] := by decide
    exact hall ⟨n, hn⟩
  induction n using Nat.strongRecOn with
  | ind n ih =>
    by_cases hn : n < 16
    · rw [Nat.toDigits_of_lt_base hn]
      exact hdigit hn
    · rw [Nat.toDigits_of_base_le (by decide) (Nat.le_of_not_lt hn)]
      exact allOf_append.mpr ⟨ih (n / 16) (by omega), hdigit (Nat.mod_lt n (by decide))⟩

theorem escapeCodePoint_append_inj (h : escapeCodePoint c ++ rest = escapeCodePoint c' ++ rest') :
    c = c' ∧ rest = rest' := by
  have hinner : Nat.toDigits 16 c.toNat ++ '\x7d' :: rest =
      Nat.toDigits 16 c'.toNat ++ '\x7d' :: rest' := by
    simpa [escapeCodePoint] using h
  have hend (rest : List Char) : Ends (· ≠ '\x7d') ('\x7d' :: rest) := ends_cons.mpr (by decide)
  obtain ⟨hdigits, hrest⟩ := append_inj_of_ends (allOf_toDigits _) (hend rest) (allOf_toDigits _)
    (hend rest') hinner
  exact ⟨Char.toNat_inj.mp (toDigits_inj hdigits), (List.cons.inj hrest).2⟩

/-! ## Characters -/

/-- The characters that are written as a backslash and a letter, each with its letter. -/
def shortEscapes : List (Char × Char) :=
  [('\x00', '0'), ('\t', 't'), ('\r', 'r'), ('\n', 'n'), ('\\', '\\'), ('\x22', '\x22')]

/--
The ways in which a character is written between quotes.

* `plain`: as itself.
* `short`: as a backslash and a letter.
* `codePoint`: by its code point.
-/
inductive EscapedAs (c : Char) : List Char → Prop
  | plain (hslash : c ≠ '\\') (hquote : c ≠ '\x22') : EscapedAs c [c]
  | short {letter : Char} (hmem : (c, letter) ∈ shortEscapes) : EscapedAs c ['\\', letter]
  | codePoint : EscapedAs c (escapeCodePoint c)

theorem escapedAs_escapeChar (c : Char) : EscapedAs c (escapeChar c) := by
  unfold escapeChar
  split
  · next h =>
    subst h
    exact .short (by decide)
  split
  · next h =>
    subst h
    exact .short (by decide)
  split
  · next h =>
    subst h
    exact .short (by decide)
  split
  · next h =>
    subst h
    exact .short (by decide)
  split
  · next h =>
    subst h
    exact .short (by decide)
  next hslash =>
  split
  · next h =>
    subst h
    exact .short (by decide)
  next hquote =>
  split
  · exact .plain hslash hquote
  · exact .codePoint

/-- No way of writing a character is the beginning of another one. -/
theorem EscapedAs.append_inj {word word' : List Char} (h : EscapedAs c word)
    (h' : EscapedAs c' word') (heq : word ++ rest = word' ++ rest') : c = c' ∧ rest = rest' := by
  have hletters : ∀ e ∈ shortEscapes, e.2 ≠ 'u' ∧ ∀ e' ∈ shortEscapes, e.2 = e'.2 → e = e' := by
    decide
  cases h with
  | plain hslash hquote =>
    cases h' with
    | plain => exact List.cons.inj heq
    | short hmem => exact absurd (List.cons.inj heq).1 hslash
    | codePoint => exact absurd (List.cons.inj heq).1 hslash
  | short hmem =>
    have hmem := hletters _ hmem
    cases h' with
    | plain hslash => exact absurd (List.cons.inj heq).1.symm hslash
    | short hmem' =>
      obtain ⟨hletter, hrest⟩ := List.cons.inj (List.cons.inj heq).2
      exact ⟨congrArg Prod.fst (hmem.2 _ hmem' hletter), hrest⟩
    | codePoint => exact absurd (List.cons.inj (List.cons.inj heq).2).1 hmem.1
  | codePoint =>
    cases h' with
    | plain hslash => exact absurd (List.cons.inj heq).1.symm hslash
    | short hmem => exact absurd (List.cons.inj (List.cons.inj heq).2).1.symm (hletters _ hmem).1
    | codePoint => exact escapeCodePoint_append_inj heq

theorem escapeChar_append_inj (h : escapeChar c ++ rest = escapeChar c' ++ rest') :
    c = c' ∧ rest = rest' :=
  (escapedAs_escapeChar c).append_inj (escapedAs_escapeChar c') h

/-- No character is written like the quote that ends the text. -/
theorem escapeChar_append_ne (c : Char) (rest rest' : List Char) :
    escapeChar c ++ rest ≠ '\x22' :: rest' := by
  intro h
  generalize hword : escapeChar c = word at h
  cases hword ▸ escapedAs_escapeChar c with
  | plain hslash hquote => exact hquote (List.cons.inj h).1
  | short hmem => exact absurd (List.cons.inj h).1 (by decide)
  | codePoint => exact absurd (List.cons.inj h).1 (by decide)

/-! ## Texts -/

theorem flatMap_escapeChar_append_inj
    (h : cs.flatMap escapeChar ++ '\x22' :: rest = cs'.flatMap escapeChar ++ '\x22' :: rest') :
    cs = cs' ∧ rest = rest' := by
  induction cs generalizing cs' with
  | nil =>
    cases cs' with
    | nil => exact ⟨rfl, (List.cons.inj h).2⟩
    | cons c' cs' =>
      rw [List.flatMap_cons, List.append_assoc] at h
      exact absurd h.symm (escapeChar_append_ne c' _ _)
  | cons c cs ih =>
    rw [List.flatMap_cons, List.append_assoc] at h
    cases cs' with
    | nil => exact absurd h (escapeChar_append_ne c _ _)
    | cons c' cs' =>
      rw [List.flatMap_cons, List.append_assoc] at h
      obtain ⟨rfl, hlater⟩ := escapeChar_append_inj h
      obtain ⟨rfl, hrest⟩ := ih hlater
      exact ⟨rfl, hrest⟩

/-- A text in quotes tells what it says and where it ends. -/
theorem quotedChars_append_inj (h : quotedChars cs ++ rest = quotedChars cs' ++ rest') :
    cs = cs' ∧ rest = rest' := by
  simp only [quotedChars, List.cons_append, List.append_assoc, List.nil_append] at h
  exact flatMap_escapeChar_append_inj (List.cons.inj h).2

end LayoutCompletion.Text
