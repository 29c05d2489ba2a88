import MathMarkup.Time.Instant

/-!
# Timestamps

A timestamp is a date, with or without a time of day. Months, days and the parts of a time may have
one digit or two. A time follows its date after a `T`, and then a zone has to follow, or after a
space, and then none may.
-/

namespace MathMarkup.Yaml

/-- A number of one digit or two at the head of a text. -/
def shortNumber? : Text → Option (Nat × Text)
  | a :: r =>
    if !Text.isDigit a then none
    else
      match r with
      | b :: r' =>
        if Text.isDigit b then some (Number.valueOf [a, b], r') else some (Number.valueOf [a], r)
      | [] => some (Number.valueOf [a], [])
  | [] => none

/-- What follows a date at the head of a text. -/
def afterDate? (t : Text) : Option Text := do
  let year := t.takeWhile Text.isDigit
  if year.length != 4 then none
  else
    let r ← Time.Instant.expect? '-' (t.drop 4)
    let (month, r) ← shortNumber? r
    let r ← Time.Instant.expect? '-' r
    let (day, r) ← shortNumber? r
    if month < 1 || month > 12 || day < 1
        || day > Time.Instant.daysIn month (Number.valueOf year) then
      none
    else pure r

/-- What follows a time of day at the head of a text. A fraction of a second has at most nine
digits. -/
def afterTime? (t : Text) : Option Text := do
  let (hour, r) ← shortNumber? t
  let r ← Time.Instant.expect? ':' r
  let (minute, r) ← shortNumber? r
  let r ← Time.Instant.expect? ':' r
  let (second, r) ← shortNumber? r
  if hour ≥ 24 || minute ≥ 60 || second ≥ 60 then none
  else
    match r with
    | p :: d :: r' =>
      if (p == Text.byte '.' || p == Text.byte ',') && Text.isDigit d then
        let digits := (d :: r').takeWhile Text.isDigit
        pure ((d :: r').drop (min digits.length 9))
      else pure r
    | _ => pure r

/-- Whether a text is a timestamp. -/
def isTimestamp (t : Text) : Bool :=
  match afterDate? t with
  | none => false
  | some [] => true
  | some (c :: r) =>
    if c == Text.byte 'T' || c == Text.byte 't' then
      ((afterTime? r).bind Time.Instant.zone?).isSome
    else if c == Text.byte ' ' then afterTime? r == some []
    else false

end MathMarkup.Yaml
