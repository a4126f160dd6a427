/-!
# Two Decimal Places

A measured quantity with two digits after the point.

A finite double is exactly an integer times a power of two, so its hundredth
part can be rounded without any error on the way: the exact value is compared
with the two neighbouring hundredths, the nearer one wins, and a value half-way
between them goes to the even one.

The quantities written here are never negative and never infinite, so the sign
is not looked at.

## Main definitions

* `roundQuotient`: A quotient rounded to the nearest integer.
* `Dyadic`, `Dyadic.ofFloat`: The exact value of a double.
* `Dyadic.hundredths`: That value in hundredths.
* `twoPlaces`: The text.
-/

namespace BoundedProbing

namespace Text

/-- The integer nearest to `numerator / denominator`; a quotient half-way
    between two goes to the even one. -/
def roundQuotient (numerator denominator : Nat) : Nat :=
  let whole := numerator / denominator
  let rest := numerator % denominator
  if 2 * rest < denominator then whole
  else if denominator < 2 * rest then whole + 1
  else if whole % 2 = 0 then whole
  else whole + 1

/-- A number that is an integer times a power of two, which is written as a
    shift to the left and one to the right. -/
structure Dyadic where
  mantissa : Nat
  /-- How far it is shifted left. -/
  left : Nat
  /-- How far it is shifted right. -/
  right : Nat
  deriving Repr, DecidableEq

/-- The magnitude of the finite double with these bits. The eleven bits above
    the fraction give the exponent, and every fraction but those of the least
    exponent has a hidden leading one. -/
def Dyadic.ofBits (bits : UInt64) : Dyadic :=
  let fraction := (bits &&& 0x000fffffffffffff).toNat
  let exponent := ((bits >>> 52) &&& 0x7ff).toNat
  if exponent = 0 then ⟨fraction, 0, 1074⟩
  else ⟨0x0010000000000000 + fraction, exponent - 1075, 1075 - exponent⟩

/-- The value in hundredths, rounded to the nearest integer. -/
def Dyadic.hundredths (value : Dyadic) : Nat :=
  roundQuotient ((100 * value.mantissa) <<< value.left) (1 <<< value.right)

/-- A number of hundredths with its decimal point. -/
def pointed (hundredths : Nat) : String :=
  let cents := hundredths % 100
  toString (hundredths / 100) ++ "." ++ (if cents < 10 then "0" else "") ++ toString cents

/-- A finite double that is not negative, with two decimal places. -/
def twoPlaces (value : Float) : String :=
  pointed (Dyadic.ofBits value.toBits).hundredths

end Text

end BoundedProbing
