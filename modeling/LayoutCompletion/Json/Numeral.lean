import LayoutCompletion.Json.Fault
import LayoutCompletion.Text.Digits

/-!
# Numbers of JSON

A numeral is read by its parts: a sign, the digits before the point, those behind it, and an
exponent. `Numeral.value` then finds the number. Digits are taken as long as they fit in 64 bits;
digits before the point that do not fit count as powers of ten, and digits behind it are dropped.
So a long numeral is rounded twice.

Numbers that are too large are faults for a reader that wants the number; a reader that skips it
does not mind.
-/

namespace LayoutCompletion.Json

/-- A numeral by its parts. -/
structure Numeral where
  negative : Bool
  /-- The digits before the point. -/
  whole : List Char
  /-- The digits behind the point, none if there is no point. -/
  fraction : List Char
  /-- The digits of the exponent, and whether it is negative. -/
  exponent : Option (Bool × List Char)
deriving DecidableEq, Repr

/-- Digits at the front of a text, and what is left behind them. -/
def takeDigits (cs : List Char) : List Char × List Char :=
  (cs.takeWhile Text.isDigit, cs.dropWhile Text.isDigit)

/-- What is wrong if no digit stands where one must. A reader that wants to know the number tells
the end of the text from other faults. -/
def noDigit (rest : List Char) : Broken :=
  ⟨.onNextOr .endInValue .badNumber rest, .onNext .badNumber rest⟩

/-- One digit or more. -/
def someDigits (cs : List Char) : Except Broken (List Char × List Char) :=
  if (takeDigits cs).1.isEmpty then .error (noDigit cs) else .ok (takeDigits cs)

/-- The digits before the point. No other digit may follow a leading zero. -/
def wholeDigits (cs : List Char) : Except Broken (List Char × List Char) :=
  match cs with
  | '0' :: rest =>
    if (takeDigits rest).1.isEmpty then .ok (['0'], rest)
    else .error (.same (.onNext .badNumber rest))
  | _ => someDigits cs

/-- The digits behind the point, if there is one. -/
def fractionDigits (cs : List Char) : Except Broken (List Char × List Char) :=
  match cs with
  | '.' :: rest => someDigits rest
  | _ => .ok ([], cs)

/-- Is an exponent negative by its sign, which may be left out? -/
def exponentSign (cs : List Char) : Bool × List Char :=
  match cs with
  | '-' :: rest => (true, rest)
  | '+' :: rest => (false, rest)
  | _ => (false, cs)

/-- The exponent, if there is one. -/
def exponentPart (cs : List Char) : Except Broken (Option (Bool × List Char) × List Char) :=
  match cs with
  | e :: rest =>
    if e = 'e' || e = 'E' then
      (someDigits (exponentSign rest).2).map fun (digits, behind) =>
        (some ((exponentSign rest).1, digits), behind)
    else .ok (none, cs)
  | [] => .ok (none, cs)

/-- The numeral without sign at the front of a text, and what is left behind it. -/
def unsignedNumeral (negative : Bool) (cs : List Char) : Except Broken (Numeral × List Char) := do
  let (whole, cs) ← wholeDigits cs
  let (fraction, cs) ← fractionDigits cs
  let (exponent, cs) ← exponentPart cs
  pure (⟨negative, whole, fraction, exponent⟩, cs)

theorem length_takeDigits (cs : List Char) : (takeDigits cs).2.length ≤ cs.length :=
  (List.dropWhile_sublist _).length_le

theorem length_someDigits {cs : List Char} {r : List Char × List Char}
    (h : someDigits cs = .ok r) : r.2.length < cs.length := by
  simp only [someDigits] at h
  split at h
  · exact absurd h (by simp)
  · next hne =>
    obtain rfl := Except.ok.inj h
    cases cs with
    | nil => simp [takeDigits] at hne
    | cons c cs =>
      by_cases hc : Text.isDigit c
      · have htail : (takeDigits (c :: cs)).2 = (takeDigits cs).2 := by simp [takeDigits, hc]
        have hle := length_takeDigits cs
        simp only [htail, List.length_cons]
        omega
      · simp [takeDigits, hc] at hne

theorem length_wholeDigits {cs : List Char} {r : List Char × List Char}
    (h : wholeDigits cs = .ok r) : r.2.length < cs.length := by
  simp only [wholeDigits] at h
  split at h
  · split at h
    · obtain rfl := Except.ok.inj h
      simp
    · exact absurd h (by simp)
  · exact length_someDigits h

theorem length_fractionDigits {cs : List Char} {r : List Char × List Char}
    (h : fractionDigits cs = .ok r) : r.2.length ≤ cs.length := by
  simp only [fractionDigits] at h
  split at h
  · have := length_someDigits h
    simp only [List.length_cons]
    omega
  · obtain rfl := Except.ok.inj h
    simp

theorem length_exponentSign (cs : List Char) : (exponentSign cs).2.length ≤ cs.length := by
  simp only [exponentSign]
  split <;> simp

theorem length_exponentPart {cs : List Char} {r : Option (Bool × List Char) × List Char}
    (h : exponentPart cs = .ok r) : r.2.length ≤ cs.length := by
  simp only [exponentPart] at h
  split at h
  · next e rest =>
    split at h
    · cases hd : someDigits (exponentSign rest).2 with
      | error => simp [hd, Except.map] at h
      | ok d =>
        have h1 := length_someDigits hd
        have h2 := length_exponentSign rest
        simp only [hd, Except.map] at h
        obtain rfl := Except.ok.inj h
        simp only [List.length_cons]
        omega
    · obtain rfl := Except.ok.inj h
      simp
  · obtain rfl := Except.ok.inj h
    simp

theorem length_unsignedNumeral {negative : Bool} {cs : List Char} {r : Numeral × List Char}
    (h : unsignedNumeral negative cs = .ok r) : r.2.length < cs.length := by
  simp only [unsignedNumeral, bind, Except.bind, pure, Except.pure] at h
  split at h
  · exact absurd h (by simp)
  · next whole hw =>
    split at h
    · exact absurd h (by simp)
    · next fraction hf =>
      split at h
      · exact absurd h (by simp)
      · next exponent he =>
        obtain rfl := Except.ok.inj h
        have h1 := length_wholeDigits hw
        have h2 := length_fractionDigits hf
        have h3 := length_exponentPart he
        simp only
        omega

namespace Numeral

/-- The numeral at the front of a text, and what is left behind it. -/
def read (cs : List Char) : Except Broken (Numeral × List Char) :=
  match cs with
  | '-' :: rest => unsignedNumeral true rest
  | _ => unsignedNumeral false cs

theorem length_read {cs : List Char} {r : Numeral × List Char} (h : read cs = .ok r) :
    r.2.length < cs.length := by
  simp only [read] at h
  split at h
  · have := length_unsignedNumeral h
    simp only [List.length_cons]
    omega
  · exact length_unsignedNumeral h

/-- The numbers of 64 bits lie below this. -/
def significandLimit : Nat := Nat.pow 2 64

/-- Negative whole numbers go down to the negative of this. -/
def negativeLimit : Nat := Nat.pow 2 63

/-- Exponents that are written with a number from here on are not counted. -/
def exponentLimit : Nat := Nat.pow 2 31

/-- Puts digits behind a number as long as it stays below the limit. Also gives the digits that
found no room. -/
def appendDigits (limit n : Nat) : List Char → Nat × List Char
  | [] => (n, [])
  | c :: cs =>
    let next := n * 10 + (Text.digit? c).getD 0
    if next < limit then appendDigits limit next cs else (n, c :: cs)

/-- The digits that fit, as one number, and the power of ten that it is multiplied by, an exponent
apart. -/
def significand (x : Numeral) : Nat × Int :=
  let (whole, unfit) := appendDigits significandLimit 0 x.whole
  let (n, dropped) := appendDigits significandLimit whole x.fraction
  (n, (unfit.length : Int) - (x.fraction.length - dropped.length : Nat))

/-- Is the number a whole number by its writing, and small enough to be kept as one? -/
def integer? (x : Numeral) : Option Int :=
  let (n, unfit) := appendDigits significandLimit 0 x.whole
  if !x.fraction.isEmpty || x.exponent.isSome || !unfit.isEmpty then none
  else if !x.negative then some n
  else if n = 0 || negativeLimit < n then none
  else some (-n)

/-- The number of a numeral that leaves `rest` behind. A number is found to be too large when it
has been read, or at the digit with which its exponent grows beyond all bounds. -/
def value (x : Numeral) (rest : List Char) : Except Fault Scalar :=
  match x.integer? with
  | some n => .ok (.integer n)
  | none =>
    let (n, scale) := x.significand
    let (sign, digits) := x.exponent.getD (false, [])
    let (exponent, unfit) := appendDigits exponentLimit 0 digits
    match unfit with
    | [] =>
      let power := if sign then scale - exponent else scale + exponent
      match Binary64.ofDecimal? x.negative n power with
      | some f => .ok (.float f)
      | none => .error (.here .numberTooLarge rest)
    | _ :: later =>
      if n = 0 || sign then .ok (.float ⟨x.negative, 0⟩)
      else .error (.here .numberTooLarge (later ++ rest))

end Numeral

end LayoutCompletion.Json
