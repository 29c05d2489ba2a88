import MathMarkup.Number.Integer

/-!
# Shortest decimals

A binary fraction is written with the fewest digits that read back as the same number, and of those
with the nearest. The search runs over the grids of one, two, … seventeen digits in exact
arithmetic: on each grid only the two neighbours of the number can read back as it.
-/

namespace MathMarkup.Number

/-- A positive decimal: `digits · 10^exponent`. -/
structure Decimal where
  digits : Nat
  exponent : Int
deriving DecidableEq, Repr

/-- The number of decimal digits. -/
def digitCount (n : Nat) : Nat := (Nat.toDigits 10 n).length

/-- The numerator and denominator of `n · 10^e / d`. -/
def scaleTen (n d : Nat) (e : Int) : Nat × Nat :=
  if e ≥ 0 then (n * Nat.pow 10 e.toNat, d) else (n, d * Nat.pow 10 (-e).toNat)

/-- The exponent of the leading decimal digit of the fraction `n / d`. -/
def leadingExponent (n d : Nat) : Int :=
  let e : Int := digitCount n - digitCount d
  let (a, b) := scaleTen n d (-e)
  if a < b then e - 1 else e

/-- A positive binary fraction `mantissa · 2^exponent` and the open interval of the reals that are
read as it, in units of a quarter of the last place: `low` and `high` units below and above. The
ends belong to the interval if the mantissa is even. -/
structure Binary where
  mantissa : Nat
  exponent : Int
  low : Nat
  high : Nat := 2

namespace Binary

/-- The fraction whose bits are given, without its sign; zero if there is none. -/
def ofBits (bits : Nat) : Binary :=
  let fraction := bits % Nat.pow 2 52
  let biased : Nat := bits / Nat.pow 2 52 % Nat.pow 2 11
  if biased = 0 then { mantissa := fraction, exponent := -1074, low := 2 }
  else
    { mantissa := fraction + Nat.pow 2 52, exponent := (biased : Int) - 1075
      low := if fraction = 0 ∧ biased > 1 then 1 else 2 }

/-- Four times the fraction plus some units, as numerator and denominator. -/
def quarters (b : Binary) (units : Int) : Nat × Nat :=
  let n := (4 * (b.mantissa : Int) + units).toNat
  if b.exponent ≥ 0 then (n * Nat.pow 2 b.exponent.toNat, 4)
  else (n, 4 * Nat.pow 2 (-b.exponent).toNat)

/-- Whether the decimal `k · 10^e` is read as the fraction. -/
def reads (b : Binary) (k : Nat) (e : Int) : Bool :=
  let (kn, kd) := scaleTen k 1 e
  let (ln, ld) := b.quarters (-b.low)
  let (hn, hd) := b.quarters b.high
  let below := ln * kd
  let middle := kn * ld
  let above := hn * kd
  if b.mantissa % 2 = 0 then below ≤ middle && kn * hd ≤ above
  else below < middle && kn * hd < above

/-- Whether `k · 10^e` is no further from the fraction than `(k + 1) · 10^e`. -/
def nearer (b : Binary) (k : Nat) (e : Int) : Bool :=
  let (n, d) := b.quarters 0
  let (kn, kd) := scaleTen (2 * k + 1) 2 e
  -- compares the fraction with the middle of the two
  let left := n * kd
  let right := kn * d
  left < right || (left == right && k % 2 == 0)

/-- The neighbour of the fraction on the grid `10^e` that reads back as it. -/
def onGrid? (b : Binary) (e : Int) : Option Decimal :=
  let (n, d) := b.quarters 0
  let (a, c) := scaleTen n d (-e)
  let k := a / c
  match b.reads k e, b.reads (k + 1) e with
  | true, true => if b.nearer k e then some ⟨k, e⟩ else some ⟨k + 1, e⟩
  | true, false => some ⟨k, e⟩
  | false, true => some ⟨k + 1, e⟩
  | false, false => none

/-- The decimal on the coarsest of the grids from `e` on, `steps` of them, that reads back. -/
def searchGrids (b : Binary) : Nat → Int → Decimal
  | 0, e => ((b.onGrid? e).getD ⟨0, 0⟩)
  | steps + 1, e =>
    match b.onGrid? e with
    | some x => x
    | none => b.searchGrids steps (e - 1)

/-- The shortest decimal that reads back as the fraction. -/
def shortest (b : Binary) : Decimal :=
  if b.mantissa = 0 then ⟨0, 0⟩
  else
    let (n, d) := b.quarters 0
    b.searchGrids 17 (leadingExponent n d)

end Binary

namespace Decimal

/-- Drops trailing zeros of the digits, at most `bound` of them. -/
def trim : Nat → Decimal → Decimal
  | 0, x => x
  | bound + 1, x =>
    if x.digits ≠ 0 ∧ x.digits % 10 = 0 then trim bound ⟨x.digits / 10, x.exponent + 1⟩ else x

/-- Positional notation: no exponent, and a point only before a fraction. -/
def positional (x : Decimal) : Text :=
  let ds := Text.ofNat x.digits
  if x.digits = 0 then "0"
  else if x.exponent ≥ 0 then ds ++ List.replicate x.exponent.toNat (Text.byte '0')
  else
    let places := (-x.exponent).toNat
    if ds.length > places then
      ds.take (ds.length - places) ++ "." ++ ds.drop (ds.length - places)
    else "0." ++ List.replicate (places - ds.length) (Text.byte '0') ++ ds

/-- Scientific notation: one digit before the point, at least two digits of exponent. -/
def scientific (x : Decimal) : Text :=
  let ds := Text.ofNat x.digits
  let e : Int := x.exponent + (ds.length - 1 : Nat)
  let mark := e.natAbs
  ds.take 1 ++ Text.when (ds.length > 1) ("." ++ ds.drop 1) ++ "e" ++ (if e < 0 then "-" else "+")
    ++ Text.when (mark < 10) "0" ++ Text.ofNat mark

end Decimal

/-- The shortest decimal of a number without its sign. -/
def decimalOf (x : Float) : Decimal := ((Binary.ofBits x.toBits.toNat).shortest).trim 400

/-- Whether the sign bit of a number is set. -/
def isNegative (x : Float) : Bool := x.toBits.toNat / Nat.pow 2 63 == 1

/-- A number written by a notation for finite magnitudes. -/
def writeFloat (layout : Decimal → Text) (x : Float) : Text :=
  if x.isNaN then "NaN"
  else
    let sign : Text := if isNegative x then "-" else []
    if x.isInf then (if isNegative x then "-Inf" else "+Inf") else sign ++ layout (decimalOf x)

/-- A number in positional notation with the fewest digits. -/
def positional (x : Float) : Text := writeFloat Decimal.positional x

/-- A number with the fewest digits, in scientific notation if its leading digit stands for less
than `10^-4` or for `10^6` or more. -/
def general (x : Float) : Text :=
  writeFloat (fun d =>
    let e : Int := d.exponent + (digitCount d.digits - 1 : Nat)
    if d.digits ≠ 0 ∧ (e < -4 ∨ e ≥ 6) then d.scientific else d.positional) x

end MathMarkup.Number
