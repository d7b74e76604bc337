/-!
# Binary floating point numbers

A finite number of the 64-bit binary format is a sign and a whole number of units, where the unit
is the smallest positive number of the format, `2 ^ -1074`. Not every number of units is a number
of the format: there are 53 significant bits. `roundUnits` takes a quotient to the nearest number
of units that is one, and halves go to the even side.
-/

namespace LayoutCompletion

/-- A finite number of the format. -/
structure Binary64 where
  negative : Bool
  /-- The magnitude in units of `2 ^ -1074`. -/
  units : Nat
deriving DecidableEq, Repr

namespace Binary64

/-- How many units make one. -/
def unitsOfOne : Nat := Nat.pow 2 1074

/-- The least number of units that is too large for the format. -/
def unitsLimit : Nat := Nat.pow 2 (1074 + 1024)

/-- The spacing of the numbers of the format around a number of units. -/
def spacing (units : Nat) : Nat := Nat.pow 2 (units.log2 - 52)

/-- The whole number nearest to `num / den`, the even one of two that are equally near. -/
def roundQuotient (num den : Nat) : Nat :=
  let down := num / den
  let twice := 2 * (num % den)
  if twice < den || (twice = den && down % 2 = 0) then down else down + 1

/-- The number of units, of 53 significant bits, that is nearest to `num / den`. -/
def roundUnits (num den : Nat) : Nat :=
  let step := spacing (num / den)
  roundQuotient num (den * step) * step

/-- The units of the number nearest to a whole number. -/
def unitsOfNat (n : Nat) : Nat := roundUnits (n * unitsOfOne) 1

/-- The units of the number nearest to a power of ten. -/
def unitsOfPowerOfTen (exponent : Nat) : Nat := unitsOfNat (Nat.pow 10 exponent)

/-- The largest exponent of a power of ten that is in the format. -/
def maxPowerOfTen : Nat := 308

/-- The units of the product with a power of ten, unless they are too many. -/
def multiply? (units exponent : Nat) : Option Nat :=
  let product := roundUnits (units * unitsOfPowerOfTen exponent) unitsOfOne
  if product < unitsLimit then some product else none

/-- The units of the quotient by a power of ten. The division is done in steps, each of them
rounded, if the power is not in the format. -/
def divide (units exponent : Nat) : Nat :=
  if exponent ≤ maxPowerOfTen then
    roundUnits (units * unitsOfOne) (unitsOfPowerOfTen exponent)
  else if units = 0 then 0
  else
    divide (roundUnits (units * unitsOfOne) (unitsOfPowerOfTen maxPowerOfTen))
      (exponent - maxPowerOfTen)
termination_by exponent
decreasing_by simp only [maxPowerOfTen] at *; omega

/-- The number read from decimal digits and a decimal exponent. The digits are rounded to the
format, and the product or quotient once more; a product that is too large is none. -/
def ofDecimal? (negative : Bool) (significand : Nat) (exponent : Int) : Option Binary64 :=
  let units := unitsOfNat significand
  match exponent with
  | .ofNat e =>
    if e ≤ maxPowerOfTen then (multiply? units e).map (⟨negative, ·⟩)
    else if units = 0 then some ⟨negative, 0⟩
    else none
  | .negSucc e => some ⟨negative, divide units (e + 1)⟩

end Binary64

end LayoutCompletion
