import MathMarkup.Number.Shortest

/-!
# A fixed number of places

A binary fraction written with a given number of decimal places is rounded once, from its exact
value, and a tie goes to the even digit.
-/

namespace MathMarkup.Number

/-- The quotient of two natural numbers rounded to the nearest; a tie goes to the even one. -/
def roundDiv (n d : Nat) : Nat :=
  let q := n / d
  let r := n % d
  if 2 * r < d then q
  else if 2 * r > d then q + 1
  else if q % 2 = 0 then q
  else q + 1

/-- A natural number of units of `10^-places` in positional notation. -/
def placed (places : Nat) (units : Nat) : Text :=
  let ds := Text.ofNat units
  let ds := List.replicate (places + 1 - ds.length) (Text.byte '0') ++ ds
  if places = 0 then ds
  else ds.take (ds.length - places) ++ "." ++ ds.drop (ds.length - places)

/-- A number with a fixed number of decimal places. -/
def fixed (places : Nat) (x : Float) : Text :=
  if x.isNaN then "NaN"
  else if x.isInf then (if isNegative x then "-Inf" else "+Inf")
  else
    let (n, d) := (Binary.ofBits x.toBits.toNat).quarters 0
    Text.when (isNegative x) "-" ++ placed places (roundDiv (n * Nat.pow 10 places) d)

end MathMarkup.Number
