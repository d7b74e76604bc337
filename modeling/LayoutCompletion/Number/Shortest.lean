import LayoutCompletion.Number.Binary64

/-!
# Shortest decimal text of a floating point number

Of all decimals that read back as a number, those with the fewest digits are sought, and of these
the one nearest to the number. A number reads back from every decimal in an interval around it,
whose ends lie half way to its neighbours and belong to it if its significand is even.

`Binary64.toText` writes the digits with a point if the number is neither very large nor very
small, and with an exponent otherwise.
-/

namespace LayoutCompletion

/-- A decimal: a whole number of the unit `10 ^ exponent`. -/
structure Decimal where
  digits : Nat
  exponent : Int
deriving DecidableEq, Repr

namespace Binary64

/-- Twice the units of the lower end of the interval that reads back. Below a power of two the
numbers of the format lie twice as close. -/
def lowerEnd (units : Nat) : Nat :=
  let step := spacing units
  if 1 < step && units = Nat.pow 2 units.log2 then 2 * units - step / 2 else 2 * units - step

/-- Twice the units of the upper end of the interval that reads back. -/
def upperEnd (units : Nat) : Nat :=
  2 * units + spacing units

/-- Is the last of the significant bits zero? -/
def isEven (units : Nat) : Bool :=
  units / spacing units % 2 = 0

/-- Twice a decimal, as a numerator over `10 ^ (-exponent)` or one, in units. -/
def twiceUnits (d : Decimal) : Nat :=
  2 * d.digits * Nat.pow 10 d.exponent.toNat * unitsOfOne

/-- Does the decimal read back as the number of units? -/
def readsBack (units : Nat) (d : Decimal) : Bool :=
  let scale := Nat.pow 10 (-d.exponent).toNat
  let low := lowerEnd units * scale
  let high := upperEnd units * scale
  if isEven units then low ≤ twiceUnits d && twiceUnits d ≤ high
  else low < twiceUnits d && twiceUnits d < high

/-- The exponent of the first decimal digit of a positive number of units. -/
def leadingExponent (units : Nat) : Int :=
  (Nat.toDigits 10 (units * Nat.pow 10 324 / unitsOfOne)).length - 1 - 324

/-- The decimals with `count` digits next to the number of units, first the one that is nearer,
or even if both are equally near. -/
def nearDecimals (units count : Nat) : List Decimal :=
  let exponent := leadingExponent units - (count - 1 : Nat)
  let num := units * Nat.pow 10 (-exponent).toNat
  let den := unitsOfOne * Nat.pow 10 exponent.toNat
  let down := num / den
  let near := roundQuotient num den
  [⟨near, exponent⟩, ⟨if near = down then down + 1 else down, exponent⟩]

/-- The number of units as a decimal without any loss. -/
def exactDecimal (units : Nat) : Decimal :=
  ⟨units * Nat.pow 5 1074, -1074⟩

/-- The shortest decimal that reads back as a positive number of units. Seventeen digits are
always enough. -/
def shortest (units : Nat) : Decimal :=
  let found := (List.range 17).findSome? fun k =>
    (nearDecimals units (k + 1)).find? (readsBack units)
  found.getD (exactDecimal units)

/-- The digits of a decimal without trailing zeros, and the exponent of the first of them. -/
def significantDigits (d : Decimal) : List Char × Int :=
  let digits := Nat.toDigits 10 d.digits
  ((digits.reverse.dropWhile (· = '0')).reverse, d.exponent + (digits.length - 1 : Nat))

/-- The digits with the point behind the place of the ones. The exponent is that of the first
digit. -/
def positional (digits : List Char) (exponent : Int) : List Char :=
  match exponent with
  | .ofNat e =>
    let whole := (digits ++ List.replicate (e + 1 - digits.length) '0').take (e + 1)
    let fraction := digits.drop (e + 1)
    whole ++ '.' :: (if fraction.isEmpty then ['0'] else fraction)
  | .negSucc e => '0' :: '.' :: (List.replicate e '0' ++ digits)

/-- The digits with the point behind the first of them, and the exponent with its sign. -/
def scientific (digits : List Char) (exponent : Int) : List Char :=
  let mantissa :=
    match digits with
    | first :: second :: rest => first :: '.' :: second :: rest
    | short => short
  let sign := if exponent < 0 then '-' else '+'
  mantissa ++ 'e' :: sign :: Nat.toDigits 10 exponent.natAbs

/-- The text of a number of units. From `10 ^ -5` up to `10 ^ 16` the point is written in its
place. -/
def magnitudeText (units : Nat) : List Char :=
  if units = 0 then "0.0".toList
  else
    let (digits, exponent) := significantDigits (shortest units)
    if -5 ≤ exponent && exponent < 16 then positional digits exponent
    else scientific digits exponent

/-- The text of a number. A zero keeps its sign. -/
def toText (x : Binary64) : String :=
  String.ofList (if x.negative then '-' :: magnitudeText x.units else magnitudeText x.units)

end Binary64

end LayoutCompletion
