import MathMarkup.Text.Space
import MathMarkup.Time.Duration

/-!
# Schedules

A schedule says when a job runs again and again: five fields for minute, hour, day, month and day of
the week, or one of a few names, perhaps behind the zone it is meant in. Only whether a schedule is
well formed matters here: a job with one has a next time to run.
-/

namespace MathMarkup.Time

/-- A field of a schedule: the range of its values and the names some of them have. -/
structure ScheduleField where
  low : Nat
  high : Nat
  names : List (Text × Nat) := []

namespace Schedule

/-- The fields in order. -/
def fields : List ScheduleField :=
  [{ low := 0, high := 59 }, { low := 0, high := 23 }, { low := 1, high := 31 },
    { low := 1, high := 12
      names := [("jan", 1), ("feb", 2), ("mar", 3), ("apr", 4), ("may", 5), ("jun", 6), ("jul", 7),
        ("aug", 8), ("sep", 9), ("oct", 10), ("nov", 11), ("dec", 12)] },
    { low := 0, high := 6
      names := [("sun", 0), ("mon", 1), ("tue", 2), ("wed", 3), ("thu", 4), ("fri", 5),
        ("sat", 6)] }]

/-- The named schedules. -/
def descriptors : List Text :=
  Text.ofStrings ["@yearly", "@annually", "@monthly", "@weekly", "@daily", "@midnight", "@hourly"]

/-- Reads a number that is not negative, or the message why it is none. -/
def readNumber (t : Text) : Except Text Nat :=
  match Number.readDecimal t with
  | .error e => .error ("failed to parse int from " ++ t ++ ": " ++ e.message "Atoi" t)
  | .ok n =>
    if n < 0 then .error ("negative number (" ++ Text.ofInt n ++ ") not allowed: " ++ t)
    else .ok n.toNat

/-- Reads a number or a name. -/
def readValue (f : ScheduleField) (t : Text) : Except Text Nat :=
  match f.names.lookup (t.map Text.lowerByte) with
  | some n => .ok n
  | none => readNumber t

/-- The ends of a range: of `*` and `?` the whole field, and of a single value the value twice. -/
def readRange (f : ScheduleField) (element range : Text) : Except Text (Nat × Nat × Bool) :=
  let parts := Text.splitByte (Text.byte '-') range
  match parts with
  | first :: more =>
    if first == Text.ofString "*" || first == Text.ofString "?" then .ok (f.low, f.high, false)
    else do
      let start ← readValue f first
      match more with
      | [] => .ok (start, start, true)
      | [last] => do
        let stop ← readValue f last
        .ok (start, stop, false)
      | _ => .error ("too many hyphens: " ++ element)
  | [] => .error ("too many hyphens: " ++ element)

/-- Checks one element of a field. -/
def checkElement (f : ScheduleField) (element : Text) : Except Text Unit := do
  let parts := Text.splitByte (Text.byte '/') element
  let (start, stop, single) ← readRange f element (parts.headD [])
  let (stop, step) ←
    match parts with
    | [_] => .ok (stop, 1)
    | [_, s] => do
      let step ← readNumber s
      .ok (if single then f.high else stop, step)
    | _ => .error ("too many slashes: " ++ element)
  if start < f.low then
    .error ("beginning of range (" ++ Text.ofNat start ++ ") below minimum (" ++ Text.ofNat f.low
      ++ "): " ++ element)
  else if stop > f.high then
    .error ("end of range (" ++ Text.ofNat stop ++ ") above maximum (" ++ Text.ofNat f.high ++ "): "
      ++ element)
  else if start > stop then
    .error ("beginning of range (" ++ Text.ofNat start ++ ") beyond end of range ("
      ++ Text.ofNat stop ++ "): " ++ element)
  else if step = 0 then
    .error ("step of range should be a positive number: " ++ element)
  else .ok ()

/-- Checks one field; empty elements of its list are passed over. -/
def checkField (f : ScheduleField) (t : Text) : Except Text Unit :=
  ((Text.splitByte (Text.byte ',') t).filter (!·.isEmpty)).forM (checkElement f)

/-- Checks the fields of a schedule one after another. -/
def checkFields : List ScheduleField → List Text → Except Text Unit
  | f :: fs, t :: ts => do
    checkField f t
    checkFields fs ts
  | _, _ => .ok ()

/-- Checks a named schedule. -/
def checkDescriptor (t : Text) : Except Text Unit :=
  let every : Text := "@every "
  if descriptors.contains t then .ok ()
  else if t.startsWith every then
    match Duration.read (t.drop every.length) with
    | .ok _ => .ok ()
    | .error e =>
      .error ("failed to parse duration " ++ t ++ ": " ++ e.message (t.drop every.length))
  else .error ("unrecognized descriptor: " ++ t)

/-- Checks a schedule without a zone. -/
def checkTimes (t : Text) : Except Text Unit :=
  if t.startsWith "@" then checkDescriptor t
  else
    let ws := Text.words t
    if ws.length = 5 then checkFields fields ws
    else
      .error ("expected exactly 5 fields, found " ++ Text.ofNat ws.length ++ ": ["
        ++ Text.join " " ws ++ "]")

/-- What stands before the zone of a schedule, if it names one. -/
def zoneMarks : List Text := Text.ofStrings ["TZ=", "CRON_TZ="]

/-- The zones that no table is needed for. No other zone is known. -/
def zones : List Text := Text.ofStrings ["", "UTC", "Local"]

/-- Checks the name of a zone. -/
def checkZone (name : Text) : Except Text Unit :=
  if zones.contains name then .ok ()
  else .error ("provided bad location " ++ name ++ ": unknown time zone " ++ name)

/-- Checks a schedule: whether it is well formed, or the message why it is not. -/
def check (t : Text) : Except Text Unit :=
  if t.isEmpty then .error "empty spec string"
  else
    match zoneMarks.find? t.startsWith with
    | none => checkTimes t
    | some mark => do
      let rest := t.drop mark.length
      let isBlank (b : UInt8) : Bool := b == Text.byte ' '
      checkZone (rest.takeWhile (!isBlank ·))
      checkTimes (Text.trimSpace (rest.dropWhile (!isBlank ·)))

end Schedule

end MathMarkup.Time
