/-!
# Byte offsets in a text

Places in a text are counted in bytes of its UTF-8 form, while the text itself is a list of
characters. `utf8Length` is the offset behind a text; `splitAtByte?` cuts a text at an offset and
fails inside a character and past the end. Main statements: a text that was cut is the two parts
in a row (`append_of_splitAtByte?`), and every cut between two characters is found
(`splitAtByte?_append`).
-/

namespace LayoutCompletion.Text

/-- The number of bytes of the text. -/
def utf8Length : List Char → Nat
  | [] => 0
  | c :: cs => c.utf8Size + utf8Length cs

@[simp] theorem utf8Length_nil : utf8Length [] = 0 := rfl

@[simp] theorem utf8Length_cons (c : Char) (cs : List Char) :
    utf8Length (c :: cs) = c.utf8Size + utf8Length cs := rfl

@[simp] theorem utf8Length_append (as bs : List Char) :
    utf8Length (as ++ bs) = utf8Length as + utf8Length bs := by
  induction as with
  | nil => simp
  | cons c as ih => simp [ih, Nat.add_assoc]

theorem length_le_utf8Length (cs : List Char) : cs.length ≤ utf8Length cs := by
  induction cs with
  | nil => simp
  | cons c cs ih =>
    have := Char.utf8Size_pos c
    simp only [List.length_cons, utf8Length_cons]
    omega

theorem eq_nil_of_utf8Length {cs : List Char} (h : utf8Length cs = 0) : cs = [] := by
  have := length_le_utf8Length cs
  exact List.eq_nil_of_length_eq_zero (by omega)

/-- A beginning of a text that is not longer than another one is a beginning of that one. -/
theorem exists_append_of_utf8Length_le {as bs cs ds : List Char} (h : as ++ bs = cs ++ ds)
    (hle : utf8Length as ≤ utf8Length cs) : ∃ mid, cs = as ++ mid := by
  rcases List.append_eq_append_iff.mp h with ⟨mid, rfl, -⟩ | ⟨extra, rfl, -⟩
  · exact ⟨mid, rfl⟩
  · rw [utf8Length_append] at hle
    obtain rfl : extra = [] := eq_nil_of_utf8Length (by omega)
    exact ⟨[], by simp⟩

/-- Cuts a text at a byte offset. There is no cut inside a character or past the end. -/
def splitAtByte? : List Char → Nat → Option (List Char × List Char)
  | cs, 0 => some ([], cs)
  | [], _ + 1 => none
  | c :: cs, n + 1 =>
    if c.utf8Size ≤ n + 1 then
      (splitAtByte? cs (n + 1 - c.utf8Size)).map fun (head, tail) => (c :: head, tail)
    else none

@[simp] theorem splitAtByte?_zero (cs : List Char) : splitAtByte? cs 0 = some ([], cs) := by
  cases cs <;> rfl

theorem splitAtByte?_cons {c : Char} {cs : List Char} {n : Nat} (h : c.utf8Size ≤ n) :
    splitAtByte? (c :: cs) n =
      (splitAtByte? cs (n - c.utf8Size)).map fun (head, tail) => (c :: head, tail) := by
  have := Char.utf8Size_pos c
  obtain ⟨n, rfl⟩ : ∃ k, n = k + 1 := ⟨n - 1, by omega⟩
  simp [splitAtByte?, h]

theorem splitAtByte?_append (as bs : List Char) :
    splitAtByte? (as ++ bs) (utf8Length as) = some (as, bs) := by
  induction as with
  | nil => simp
  | cons c as ih =>
    rw [List.cons_append, splitAtByte?_cons (by simp)]
    simp [ih]

theorem append_of_splitAtByte? {cs as bs : List Char} {n : Nat}
    (h : splitAtByte? cs n = some (as, bs)) : cs = as ++ bs ∧ n = utf8Length as := by
  fun_induction splitAtByte? cs n generalizing as bs with
  | case1 => simp_all
  | case2 => simp at h
  | case3 c cs n hc ih =>
    obtain ⟨⟨as', bs'⟩, hs, he⟩ := Option.map_eq_some_iff.1 h
    obtain ⟨rfl, rfl⟩ := Prod.mk.inj he
    obtain ⟨rfl, hn⟩ := ih hs
    exact ⟨rfl, by simp; omega⟩
  | case4 => simp at h

/-- The number of characters that lie wholly before a byte offset. -/
def charsBefore : List Char → Nat → Nat
  | [], _ => 0
  | c :: cs, n => if c.utf8Size ≤ n then charsBefore cs (n - c.utf8Size) + 1 else 0

theorem charsBefore_le_length (cs : List Char) (n : Nat) : charsBefore cs n ≤ cs.length := by
  fun_induction charsBefore cs n with
  | case1 => simp
  | case2 c cs n h ih => simp only [List.length_cons]; omega
  | case3 => simp

/-- The first of the bytes that a character is written in, by itself a code point below 256. -/
def leadByte (c : Char) : Char :=
  let n := c.toNat
  if n < 0x80 then c
  else if n < 0x800 then Char.ofNat (0xC0 + n / 0x40)
  else if n < 0x10000 then Char.ofNat (0xE0 + n / 0x1000)
  else Char.ofNat (0xF0 + n / 0x40000)

end LayoutCompletion.Text
