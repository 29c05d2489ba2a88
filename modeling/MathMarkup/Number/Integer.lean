import MathMarkup.Text.Quoted

/-!
# Reading whole numbers and truth values

Settings, query parameters and options give whole numbers as text. A number is read into the range
of 64-bit signed integers; what is no number and what is too large are told apart.
-/

namespace MathMarkup.Number

/-- Why a text is not read as a number. -/
inductive ReadFault where
  | malformed
  | outOfRange
deriving DecidableEq, Repr

/-- The wording of a fault met by a reader of a name. -/
def ReadFault.message (f : ReadFault) (reader : Text) (t : Text) : Text :=
  "strconv." ++ reader ++ ": parsing " ++ t.quote ++ ": " ++
    match f with
    | malformed => Text.ofString "invalid syntax"
    | outOfRange => Text.ofString "value out of range"

/-- The largest 64-bit signed integer. -/
def maxInt : Int := 9223372036854775807

/-- The smallest 64-bit signed integer. -/
def minInt : Int := -9223372036854775808

/-- The value of a digit in bases up to 36. -/
def digitValue? (b : UInt8) : Option Nat :=
  if Text.isDigit b then some (b.toNat - 48)
  else if Text.isLetter b then some ((Text.lowerByte b).toNat - 87)
  else none

/-- Reads digits of a base after those read into `acc`; underscores are passed over where they are
allowed. Running over 64 bits is noticed at the digit that does so. -/
def readDigits (base : Nat) (underscores : Bool) (acc : Nat) : Text → Except ReadFault Nat
  | [] => .ok acc
  | b :: r =>
    if underscores && b == Text.byte '_' then readDigits base underscores acc r
    else
      match digitValue? b with
      | none => .error .malformed
      | some d =>
        if d ≥ base then .error .malformed
        else if acc * base + d ≥ Nat.pow 2 64 then .error .outOfRange
        else readDigits base underscores (acc * base + d) r

/-- The base that a number without sign names by its first characters, and its digits. -/
def baseOf (t : Text) : Nat × Text :=
  match t with
  | z :: x :: d :: r =>
    if z != Text.byte '0' then (10, t)
    else if Text.lowerByte x == Text.byte 'b' then (2, d :: r)
    else if Text.lowerByte x == Text.byte 'o' then (8, d :: r)
    else if Text.lowerByte x == Text.byte 'x' then (16, d :: r)
    else (8, x :: d :: r)
  | z :: r => if z == Text.byte '0' then (8, r) else (10, t)
  | [] => (10, t)

/-- Whether every underscore of a number stands between digits or after the name of the base. The
first argument tells whether a digit or the name of the base has just been passed. -/
def underscoresFrom (afterDigit : Bool) : Text → Bool
  | [] => true
  | b :: r =>
    if b == Text.byte '_' then
      afterDigit && (r.head?.any fun c => c != Text.byte '_') && underscoresFrom false r
    else underscoresFrom true r

/-- Whether the underscores of a number without sign stand where they may. -/
def underscoresAllowed (t : Text) : Bool :=
  match t with
  | z :: x :: r =>
    let x' := Text.lowerByte x
    if z == Text.byte '0'
        && (x' == Text.byte 'b' || x' == Text.byte 'o' || x' == Text.byte 'x') then
      underscoresFrom true r
    else underscoresFrom false t
  | _ => underscoresFrom false t

/-- Splits the sign from a number; a missing sign is a plus. -/
def splitSign (t : Text) : Bool × Text :=
  match t with
  | b :: r =>
    if b == Text.byte '-' then (true, r)
    else if b == Text.byte '+' then (false, r)
    else (false, t)
  | [] => (false, t)

/-- Gives a magnitude its sign, if the result is in range. -/
def signed (negative : Bool) (n : Nat) : Except ReadFault Int :=
  if negative then if (n : Int) ≤ -minInt then .ok (-n) else .error .outOfRange
  else if (n : Int) ≤ maxInt then .ok n else .error .outOfRange

/-- Reads a decimal whole number. -/
def readDecimal (t : Text) : Except ReadFault Int := do
  let (negative, digits) := splitSign t
  if digits.isEmpty then .error .malformed
  else do
    let n ← readDigits 10 false 0 digits
    signed negative n

/-- Reads a whole number that may name its base, as in `0x1f`; a leading zero names base eight. -/
def readAnyBase (t : Text) : Except ReadFault Int := do
  let (negative, digits) := splitSign t
  if digits.isEmpty then .error .malformed
  else do
    let (base, body) := baseOf digits
    let n ← readDigits base true 0 body
    if digits.contains (Text.byte '_') && !underscoresAllowed digits then .error .malformed
    else signed negative n

/-- Reads a truth value. -/
def readBool? (t : Text) : Option Bool :=
  if (Text.ofStrings ["1", "t", "T", "TRUE", "true", "True"]).contains t then some true
  else if (Text.ofStrings ["0", "f", "F", "FALSE", "false", "False"]).contains t then some false
  else none

/-- The 64-bit signed integer that a whole number wraps to. -/
def wrap (n : Int) : Int := Int.bmod n (Nat.pow 2 64)

end MathMarkup.Number
