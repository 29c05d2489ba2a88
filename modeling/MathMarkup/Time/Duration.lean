import MathMarkup.Number.Integer

/-!
# Durations

A duration is a number of nanoseconds within 64 bits. It is written as numbers with units, such as
`1h30m` or `1.5s`.
-/

namespace MathMarkup.Time

/-- A duration in nanoseconds. -/
abbrev Duration := Int

namespace Duration

/-- A number of milliseconds. -/
def milliseconds (n : Int) : Duration := n * 1000000
/-- A number of seconds. -/
def seconds (n : Int) : Duration := n * 1000000000
/-- A number of minutes. -/
def minutes (n : Int) : Duration := n * 60000000000
/-- A number of hours. -/
def hours (n : Int) : Duration := n * 3600000000000

/-- The units and their nanoseconds. Microseconds are spelled in three ways. -/
def units : List (Text × Nat) :=
  [("ns", 1), ("us", 1000), ("µs", 1000), ("μs", 1000), ("ms", 1000000), ("s", 1000000000),
    ("m", 60000000000), ("h", 3600000000000)]

/-- Why a text is no duration. -/
inductive ReadFault where
  | invalid
  | missingUnit
  | unknownUnit (name : Text)
deriving DecidableEq, Repr

/-- A text between quotes in which every byte outside printable ASCII is written as `\xhh`. -/
def quoteBytes (t : Text) : Text :=
  "\"" ++ (t.flatMap fun b =>
    if b == Text.byte '"' || b == Text.byte '\\' then [Text.byte '\\', b]
    else if b < 0x20 || b ≥ 0x80 then "\\x" ++ Text.hexFixed 2 b.toNat
    else [b]) ++ "\""

/-- The wording of a fault in reading `t`. -/
def ReadFault.message (f : ReadFault) (t : Text) : Text :=
  match f with
  | invalid => "time: invalid duration " ++ quoteBytes t
  | missingUnit => "time: missing unit in duration " ++ quoteBytes t
  | unknownUnit u => "time: unknown unit " ++ quoteBytes u ++ " in duration " ++ quoteBytes t

/-- The value of the digits at the head of a text; none if it passes `2^63`. -/
def leadingInt (acc : Nat) : Text → Option (Nat × Text)
  | [] => some (acc, [])
  | b :: r =>
    if Text.isDigit b then
      if acc > Nat.pow 2 63 / 10 then none
      else
        let acc' := acc * 10 + (b.toNat - 48)
        if acc' > Nat.pow 2 63 then none else leadingInt acc' r
    else some (acc, b :: r)

/-- The value of the digits of a fraction at the head of a text and the power of ten below it;
digits that no longer fit are passed over. -/
def leadingFraction (acc : Nat) (scale : Float) (full : Bool) : Text → Nat × Float × Text
  | [] => (acc, scale, [])
  | b :: r =>
    if Text.isDigit b then
      if full || acc > (Nat.pow 2 63 - 1) / 10 then leadingFraction acc scale true r
      else
        let acc' := acc * 10 + (b.toNat - 48)
        if acc' > Nat.pow 2 63 then leadingFraction acc scale true r
        else leadingFraction acc' (scale * 10.0) false r
    else (acc, scale, b :: r)

/-- A byte that belongs to a number and so ends a unit. -/
def endsUnit (b : UInt8) : Bool := b == Text.byte '.' || Text.isDigit b

/-- Reads one number with its unit: its nanoseconds and what follows. -/
def readPart (t : Text) : Except ReadFault (Nat × Text) := do
  if !(t.head?.any endsUnit) then .error .invalid
  else
    match leadingInt 0 t with
    | none => .error .invalid
    | some (whole, r) =>
      let (fraction, scale, r', post) :=
        match r with
        | b :: r₁ =>
          if b == Text.byte '.' then
            let (f, s, r₂) := leadingFraction 0 1.0 false r₁
            (f, s, r₂, r₂.length != r₁.length)
          else (0, 1.0, r, false)
        | [] => (0, 1.0, r, false)
      if r.length == t.length && !post then .error .invalid
      else
        let name := r'.takeWhile (!endsUnit ·)
        if name.isEmpty then .error .missingUnit
        else
          match units.lookup name with
          | none => .error (.unknownUnit name)
          | some unit =>
            if whole > Nat.pow 2 63 / unit then .error .invalid
            else
              let extra :=
                if fraction > 0 then
                  (Float.ofNat fraction * (Float.ofNat unit / scale)).toUInt64.toNat
                else 0
              let total := whole * unit + extra
              if total > Nat.pow 2 63 then .error .invalid
              else .ok (total, r'.drop name.length)

/-- Reads the remaining parts of a duration after those that sum up to `acc`; the first argument
bounds their number. -/
def readParts : Nat → Nat → Text → Except ReadFault Nat
  | _, acc, [] => .ok acc
  | 0, _, _ :: _ => .error .invalid
  | bound + 1, acc, t => do
    let (part, r) ← readPart t
    if acc + part > Nat.pow 2 63 then .error .invalid else readParts bound (acc + part) r

/-- Reads a duration. -/
def read (t : Text) : Except ReadFault Duration := do
  let (negative, body) := Number.splitSign t
  if body == Text.ofString "0" then .ok 0
  else if body.isEmpty then .error .invalid
  else do
    let n ← readParts body.length 0 body
    if negative then .ok (-n)
    else if n > Nat.pow 2 63 - 1 then .error .invalid
    else .ok n

/-- A fraction of `places` digits without trailing zeros, after a point if anything is left. -/
def fractionText (value places : Nat) : Text :=
  let ds := Text.ofNat value
  let padded := List.replicate (places - ds.length) (Text.byte '0') ++ ds
  let trimmed := (padded.reverse.dropWhile (· == Text.byte '0')).reverse
  Text.when (!trimmed.isEmpty) ("." ++ trimmed)

/-- A duration in words: below a second in one unit, else in hours, minutes and seconds. -/
def text (d : Duration) : Text :=
  let n := d.natAbs
  let sign := Text.when (d < 0) "-"
  if n = 0 then "0s"
  else if n < 1000 then sign ++ Text.ofNat n ++ "ns"
  else if n < 1000000 then sign ++ Text.ofNat (n / 1000) ++ fractionText (n % 1000) 3 ++ "µs"
  else if n < 1000000000 then
    sign ++ Text.ofNat (n / 1000000) ++ fractionText (n % 1000000) 6 ++ "ms"
  else
    let total := n / 1000000000
    let hours := total / 3600
    let minutes := total / 60 % 60
    sign ++ Text.when (hours > 0) (Text.ofNat hours ++ "h")
      ++ Text.when (total ≥ 60) (Text.ofNat minutes ++ "m")
      ++ Text.ofNat (total % 60) ++ fractionText (n % 1000000000) 9 ++ "s"

end Duration

end MathMarkup.Time
