import MathMarkup.Number.Integer

/-!
# Reading fractions

A fraction is written with decimal digits and perhaps an exponent of ten, or behind `0x` with
hexadecimal digits and always an exponent of two. Underscores may separate its digits. It is read as
the nearest binary fraction of 64 bits, of two that are equally near as the even one.
-/

namespace MathMarkup.Number

/-- The decimal digits at the head of a text and what follows. -/
def spanDigits (t : Text) : Text × Text := (t.takeWhile Text.isDigit, t.dropWhile Text.isDigit)

/-- The value of decimal digits. -/
def valueOf (ds : Text) : Nat := ds.foldl (fun acc b => acc * 10 + (b.toNat - 48)) 0

/-- The digits that a fraction is written with. -/
inductive FractionBase where
  | decimal
  | hexadecimal
deriving DecidableEq, Repr

namespace FractionBase

/-- The number of digits. -/
def size : FractionBase → Nat
  | decimal => 10
  | hexadecimal => 16

/-- Whether a byte is a digit. -/
def isDigit (base : FractionBase) (b : UInt8) : Bool := (digitValue? b).any (· < base.size)

/-- The value of digits. -/
def value (base : FractionBase) (ds : Text) : Nat :=
  ds.foldl (fun acc b => acc * base.size + (digitValue? b).getD 0) 0

/-- The letter before an exponent. -/
def mark : FractionBase → UInt8
  | decimal => Text.byte 'e'
  | hexadecimal => Text.byte 'p'

/-- The nearest binary fraction to digits of which some stand behind the point, under an
exponent. -/
def nearest (base : FractionBase) (digits places : Nat) (e : Int) : Float :=
  match base with
  | decimal =>
    let e := e - places
    Float.ofScientific digits (e < 0) e.natAbs
  | hexadecimal =>
    let e := e - 4 * places
    -- a power of two that divides is one of five that multiplies, and a power of ten that divides
    if e < 0 then Float.ofScientific (digits * Nat.pow 5 e.natAbs) true e.natAbs
    else Float.ofScientific (digits * Nat.pow 2 e.toNat) false 0

/-- The base of a fraction without sign, and the fraction without its name. -/
def split (t : Text) : FractionBase × Text :=
  match t with
  | z :: x :: d :: r =>
    if z == Text.byte '0' && Text.lowerByte x == Text.byte 'x' then (hexadecimal, d :: r)
    else (decimal, t)
  | _ => (decimal, t)

/-- Whether each underscore stands between two digits. The second argument tells whether a digit, or
the name of the base, has just been passed. -/
def separates (base : FractionBase) (afterDigit : Bool) : Text → Bool
  | [] => true
  | b :: r =>
    if b == Text.byte '_' then afterDigit && r.head?.any base.isDigit && separates base false r
    else separates base (base.isDigit b) r

/-- The size of an exponent. Digits after those that bring it to ten thousand do not count. -/
def exponentSize (ds : Text) : Nat :=
  ds.foldl (fun e b => if e < 10000 then e * 10 + (b.toNat - 48) else e) 0

/-- The exponent of a fraction, which must end it. Only a decimal fraction can be without one. -/
def readExponent? (base : FractionBase) (t : Text) : Option Int :=
  match t with
  | [] => if base = decimal then some 0 else none
  | b :: r =>
    if Text.lowerByte b == base.mark then
      let (negative, ds) := splitSign r
      if ds.isEmpty || !ds.all Text.isDigit then none
      else some (if negative then -(exponentSize ds : Int) else exponentSize ds)
    else none

/-- Reads a fraction without sign, name and underscores. -/
def read? (base : FractionBase) (t : Text) : Option Float := do
  let (whole, r) := (t.takeWhile base.isDigit, t.dropWhile base.isDigit)
  let (places, r) :=
    match r with
    | b :: r' =>
      if b == Text.byte '.' then (r'.takeWhile base.isDigit, r'.dropWhile base.isDigit) else ([], r)
    | [] => ([], r)
  if whole.isEmpty && places.isEmpty then none
  else do
    let e ← base.readExponent? r
    pure (base.nearest (base.value (whole ++ places)) places.length e)

end FractionBase

/-- Reads a fraction without sign. -/
def readFraction? (t : Text) : Option Float :=
  let (base, body) := FractionBase.split t
  if base.separates (base == .hexadecimal) body then
    base.read? (body.filter (· != Text.byte '_'))
  else none

/-- Reads a number: a fraction, an infinity, or not a number. -/
def readFloat (t : Text) : Except ReadFault Float :=
  let (negative, body) := splitSign t
  let word := body.map Text.lowerByte
  if word == Text.ofString "inf" || word == Text.ofString "infinity" then
    .ok (if negative then -(1.0 / 0.0) else 1.0 / 0.0)
  else if t.map Text.lowerByte == Text.ofString "nan" then .ok (0.0 / 0.0)
  else
    match readFraction? body with
    | some x => if x.isInf then .error .outOfRange else .ok (if negative then -x else x)
    | none => .error .malformed

example : (readFloat "-0x1_8.8p-1").toOption.map Float.toBits = some (-12.25 : Float).toBits := by
  decide

end MathMarkup.Number
