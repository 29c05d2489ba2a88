import MathMarkup.Number.Fraction
import MathMarkup.Time.Duration

/-!
# Instants

An instant is a number of nanoseconds since the start of 1970 in UTC. It is written as in RFC 3339.
Dates follow the proleptic Gregorian calendar.
-/

namespace MathMarkup.Time

/-- Nanoseconds since 1970-01-01T00:00:00Z. -/
structure Instant where
  nanos : Int
deriving DecidableEq, Repr

namespace Instant

instance : LE Instant := ⟨fun a b => a.nanos ≤ b.nanos⟩
instance : LT Instant := ⟨fun a b => a.nanos < b.nanos⟩
instance (a b : Instant) : Decidable (a ≤ b) := inferInstanceAs (Decidable (a.nanos ≤ b.nanos))
instance (a b : Instant) : Decidable (a < b) := inferInstanceAs (Decidable (a.nanos < b.nanos))

/-- The instant a duration later. -/
def add (t : Instant) (d : Duration) : Instant := ⟨t.nanos + d⟩

/-- The duration from one instant to another, cut to 64 bits. -/
def sub (t u : Instant) : Duration := max Number.minInt (min Number.maxInt (t.nanos - u.nanos))

/-! ## The calendar -/

/-- A date of the calendar. -/
structure Date where
  year : Int
  month : Nat
  day : Nat
deriving DecidableEq, Repr

/-- Whether a year has a 29th of February. -/
def isLeap (year : Int) : Bool := year % 4 == 0 && (year % 100 != 0 || year % 400 == 0)

/-- The number of days of a month. -/
def daysIn (month : Nat) (year : Int) : Nat :=
  if month = 2 then if isLeap year then 29 else 28
  else if month = 4 ∨ month = 6 ∨ month = 9 ∨ month = 11 then 30
  else 31

/-- The days from 1970-01-01 to a date. Years are counted from March, so that the leap day is the
last of its year. -/
def dayNumber (d : Date) : Int :=
  let y : Int := if d.month ≤ 2 then d.year - 1 else d.year
  let era := y.fdiv 400
  let yearOfEra := y - era * 400
  let m : Int := if d.month > 2 then (d.month : Int) - 3 else d.month + 9
  let dayOfYear := (153 * m + 2) / 5 + d.day - 1
  let dayOfEra := yearOfEra * 365 + yearOfEra / 4 - yearOfEra / 100 + dayOfYear
  era * 146097 + dayOfEra - 719468

/-- The date a number of days after 1970-01-01. -/
def dateOf (days : Int) : Date :=
  let z := days + 719468
  let era := z.fdiv 146097
  let doe := z - era * 146097
  let yoe := (doe - doe / 1460 + doe / 36524 - doe / 146096) / 365
  let doy := doe - (365 * yoe + yoe / 4 - yoe / 100)
  let mp := (5 * doy + 2) / 153
  let day := doy - (153 * mp + 2) / 5 + 1
  let month := if mp < 10 then mp + 3 else mp - 9
  let year := yoe + era * 400 + if month ≤ 2 then 1 else 0
  ⟨year, month.toNat, day.toNat⟩

/-- Nanoseconds of a day. -/
def dayNanos : Int := 86400000000000

/-- The instant of a date and a time of day in nanoseconds. -/
def ofDate (d : Date) (timeOfDay : Int) : Instant := ⟨dayNumber d * dayNanos + timeOfDay⟩

/-- The first instant of the year 1, which stands for no time. -/
def zero : Instant := ofDate ⟨1, 1, 1⟩ 0

instance : Inhabited Instant := ⟨zero⟩

/-- The nanoseconds since 1970 as a 64-bit integer. -/
def unixNano (t : Instant) : Int := Number.wrap t.nanos

/-! ## RFC 3339 -/

/-- A number written with at least `width` digits. -/
def padded (width : Nat) (n : Nat) : Text :=
  let ds := Text.ofNat n
  List.replicate (width - ds.length) (Text.byte '0') ++ ds

/-- An instant as in RFC 3339, in UTC; the fraction is as long as it has to be. -/
def text (t : Instant) : Text :=
  let days := t.nanos.fdiv dayNanos
  let rest := (t.nanos - days * dayNanos).toNat
  let d := dateOf days
  let secs := rest / 1000000000
  padded 4 d.year.toNat ++ "-" ++ padded 2 d.month ++ "-" ++ padded 2 d.day ++ "T"
    ++ padded 2 (secs / 3600) ++ ":" ++ padded 2 (secs / 60 % 60) ++ ":" ++ padded 2 (secs % 60)
    ++ Duration.fractionText (rest % 1000000000) 9 ++ "Z"

/-- An instant as in RFC 3339, in UTC, to the second. -/
def secondsText (t : Instant) : Text := text ⟨t.nanos.fdiv 1000000000 * 1000000000⟩

/-- Exactly two digits at the head of a text. -/
def twoDigits? : Text → Option (Nat × Text)
  | a :: b :: r =>
    if Text.isDigit a && Text.isDigit b then some (Number.valueOf [a, b], r) else none
  | _ => none

/-- One or two digits at the head of a text. -/
def hourDigits? : Text → Option (Nat × Text)
  | a :: b :: r =>
    if Text.isDigit a then
      if Text.isDigit b then some (Number.valueOf [a, b], r) else some (Number.valueOf [a], b :: r)
    else none
  | _ => none

/-- Reads over one byte. -/
def expect? (c : Char) : Text → Option Text
  | b :: r => if b == Text.byte c then some r else none
  | [] => none

/-- The nanoseconds of a fraction of a second at the head of a text, if there is one; digits after
the ninth do not count. -/
def fraction (t : Text) : Nat × Text :=
  match t with
  | p :: d :: r =>
    if (p == Text.byte '.' || p == Text.byte ',') && Text.isDigit d then
      let (ds, rest) := Number.spanDigits (d :: r)
      let kept := ds.take 9
      (Number.valueOf kept * Nat.pow 10 (9 - kept.length), rest)
    else (0, t)
  | _ => (0, t)

/-- The offset from UTC in seconds that ends a time. -/
def zone? (t : Text) : Option Int :=
  match t with
  | z :: r =>
    if z == Text.byte 'Z' then if r.isEmpty then some 0 else none
    else do
      let sign : Int ←
        if z == Text.byte '+' then some 1 else if z == Text.byte '-' then some (-1) else none
      let (h, r) ← twoDigits? r
      let r ← expect? ':' r
      let (m, r) ← twoDigits? r
      if r.isEmpty && h ≤ 24 && m ≤ 60 then some (sign * (h * 3600 + m * 60)) else none
  | [] => none

/-- Reads an instant as in RFC 3339 and its offset from UTC in seconds; the hour may have one digit
and the fraction may follow a comma. -/
def readZoned? (t : Text) : Option (Instant × Int) := do
  let year := t.take 4
  if year.length < 4 || !year.all Text.isDigit then none
  else do
    let r ← expect? '-' (t.drop 4)
    let (month, r) ← twoDigits? r
    let r ← expect? '-' r
    let (day, r) ← twoDigits? r
    let r ← expect? 'T' r
    let (hour, r) ← hourDigits? r
    let r ← expect? ':' r
    let (minute, r) ← twoDigits? r
    let r ← expect? ':' r
    let (second, r) ← twoDigits? r
    let (nanos, r) := fraction r
    let offset ← zone? r
    let y : Int := Number.valueOf year
    if month < 1 || month > 12 || day < 1 || day > daysIn month y || hour ≥ 24 || minute ≥ 60
        || second ≥ 60 then none
    else
      pure (ofDate ⟨y, month, day⟩
        (((hour * 3600 + minute * 60 + second : Nat) - offset) * 1000000000 + nanos), offset)

/-- Reads an instant as in RFC 3339. -/
def read? (t : Text) : Option Instant := (readZoned? t).map (·.1)

end Instant

/-- A calendar, as the clock of a place shows it: the instant at which the clock shows the same time
of day a number of days later. Not all days of a place need to be of one length. -/
abbrev Calendar := Instant → Int → Instant

/-- The calendar of UTC, where a day has 24 hours. -/
def Calendar.utc : Calendar := fun t n => ⟨t.nanos + n * Instant.dayNanos⟩

/-- An instant together with the offset from UTC, in seconds, of the clock it was read from. The
offset changes how the instant is written and nothing else. -/
structure Stamp where
  instant : Instant
  offset : Int := 0
deriving DecidableEq, Repr

namespace Stamp

/-- The stamp that stands for no time. -/
def zero : Stamp := ⟨Instant.zero, 0⟩

instance : Inhabited Stamp := ⟨zero⟩

/-- Whether a stamp stands for no time. -/
def isZero (s : Stamp) : Bool := s.instant == Instant.zero

/-- Reads a stamp as in RFC 3339. -/
def read? (t : Text) : Option Stamp := (Instant.readZoned? t).map fun (i, offset) => ⟨i, offset⟩

/-- The same instant on a clock that shows UTC. -/
def utc (s : Stamp) : Stamp := ⟨s.instant, 0⟩

/-- The offset of a stamp as in RFC 3339. -/
def offsetText (s : Stamp) : Text :=
  if s.offset = 0 then "Z"
  else
    let minutes := s.offset.natAbs / 60
    (if s.offset < 0 then "-" else "+") ++ Instant.padded 2 (minutes / 60) ++ ":"
      ++ Instant.padded 2 (minutes % 60)

/-- A stamp as in RFC 3339, as its own clock shows it. -/
def text (s : Stamp) : Text :=
  ((s.instant.add (s.offset * 1000000000)).text).dropLast ++ s.offsetText

/-- A stamp as in RFC 3339, to the second, as its own clock shows it. -/
def secondsText (s : Stamp) : Text :=
  ((s.instant.add (s.offset * 1000000000)).secondsText).dropLast ++ s.offsetText

/-- A stamp as in RFC 3339, to the millisecond, as its own clock shows it. -/
def millisText (s : Stamp) : Text :=
  let shown := s.instant.add (s.offset * 1000000000)
  (shown.secondsText).dropLast ++ "."
    ++ Instant.padded 3 ((shown.nanos.fmod 1000000000).fdiv 1000000).toNat ++ s.offsetText

end Stamp

end MathMarkup.Time
