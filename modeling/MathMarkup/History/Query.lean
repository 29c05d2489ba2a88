import MathMarkup.Config.Basic
import MathMarkup.Failure.Fault
import MathMarkup.History.Record
import MathMarkup.Text.Case

/-!
# Queries

A query says which records are wanted, in which order, and which page of them. Queries come from
request parameters; limits and names are checked before a store sees them.
-/

namespace MathMarkup.History

open Time (Instant Duration)

/-- Which records are wanted. An absent bound, an empty text and an empty list ask for nothing. -/
structure Query where
  startTime : Option Instant := none
  endTime : Option Instant := none
  ids : List Text := []
  status : Text := []
  errorType : Text := []
  origin : Text := []
  inputHash : Text := []
  /-- The length of the page; everything if it is not positive. -/
  limit : Int := 0
  offset : Int := 0
  sortBy : Text := []
  sortOrder : Text := []
deriving DecidableEq, Repr, Inhabited

namespace Query

/-! ## Meaning -/

/-- Whether a text is what is asked for; the empty text asks for anything. -/
def asks (wanted actual : Text) : Bool := wanted.isEmpty || actual == wanted

/-- Whether a record is wanted. Both bounds of the time belong to the range. -/
def admits (q : Query) (r : Record) : Bool :=
  (q.startTime.all fun t => t ≤ r.createdAt.instant)
    && (q.endTime.all fun t => r.createdAt.instant ≤ t)
    && (q.ids.isEmpty || q.ids.contains r.id)
    && asks q.status r.status
    && asks q.errorType r.errorType
    && asks q.origin r.origin
    && asks q.inputHash r.inputHash

/-- The fields that records can be sorted by. -/
def sortFields : List Text := Text.ofStrings ["created_at", "duration"]

/-- The number that records are sorted by: the time of the record unless durations are asked for. -/
def sortKey (q : Query) (r : Record) : Int :=
  if q.sortBy == Text.ofString "duration" then r.duration else r.createdAt.instant.nanos

/-- Whether the order is ascending; everything but `asc`, in any case, is descending. -/
def isAscending (q : Query) : Bool := Text.equalFold q.sortOrder "asc"

/-- Byte-wise order of texts. -/
def textLe (a b : Text) : Bool := !decide (b < a)

/-! ## Checking -/

/-- The statuses that can be asked for. -/
def statuses : List Text := [statusOk, statusError]

/-- The kinds of error that can be asked for. -/
def errorTypes : List Text :=
  Text.ofStrings ["delimiter", "cleaning", "syntax", "translation", "internal", "unknown",
    "input_too_large", "canceled"]

/-- The directions that can be asked for. -/
def sortOrders : List Text := Text.ofStrings ["asc", "desc"]

/-- Whether a text is empty or one of a list. -/
def isOneOf (t : Text) (known : List Text) : Bool := t.isEmpty || known.contains t

/-- What is wrong with a query, the first thing in the order of the checks. -/
def problem? (q : Query) (c : QueryConfig) : Option Text :=
  if q.limit < 0 then some ("limit must be >= 0, got " ++ Text.ofInt q.limit)
  else if q.limit > c.maxLimit then
    some ("limit must be <= " ++ Text.ofInt c.maxLimit ++ ", got " ++ Text.ofInt q.limit)
  else if q.offset < 0 then some ("offset must be >= 0, got " ++ Text.ofInt q.offset)
  else if !isOneOf q.sortBy sortFields then some ("invalid sort field: " ++ q.sortBy)
  else if !isOneOf q.sortOrder sortOrders then
    some ("invalid sort order: " ++ q.sortOrder ++ " (must be 'asc' or 'desc')")
  else if (q.startTime.any fun s => q.endTime.any fun e => e < s) then
    some "start_time must be before end_time"
  else if !isOneOf q.status statuses then
    some ("invalid status: " ++ q.status ++ " (must be 'ok' or 'error')")
  else if !isOneOf q.errorType errorTypes then some ("invalid error type: " ++ q.errorType)
  else none

/-- Checks a query against the limits of the configuration. -/
def validate (q : Query) (c : QueryConfig) : Except Fault Unit :=
  match q.problem? c with
  | some message => .error [.query, .plain message]
  | none => .ok ()

/-- Fills in the limit and the order where they are not given. -/
def applyDefaults (q : Query) (c : QueryConfig) : Query :=
  { q with
    limit := if q.limit = 0 then c.defaultLimit else q.limit
    sortBy := if q.sortBy.isEmpty then "created_at" else q.sortBy
    sortOrder := if q.sortOrder.isEmpty then "desc" else q.sortOrder }

/-- A query ready for a store: defaults filled in and checked. -/
def prepared (q : Query) (c : QueryConfig) : Except Fault Query := do
  let q := q.applyDefaults c
  q.validate c
  pure q

/-! ## From parameters -/

/-- The values of named parameters. -/
abbrev Values := List (Text × List Text)

/-- The first value of a parameter, empty if there is none. -/
def firstValue (v : Values) (name : Text) : Text := ((v.lookup name).getD []).headD []

/-- Reads a bound on the time: a duration means so long before `now`. -/
def readTime (now : Instant) (t : Text) : Except Text (Option Instant) :=
  if t.isEmpty then .ok none
  else
    match Duration.read t with
    | .ok d => .ok (some (now.add (Number.wrap (-d))))
    | .error _ =>
      match Instant.read? t with
      | some i => .ok (some i)
      | none => .error (t.quote ++ " is neither RFC 3339 nor a duration")

/-- Reads a number; nothing is zero. -/
def readNumber (t : Text) : Except Text Int :=
  if t.isEmpty then .ok 0
  else
    match Number.readDecimal t with
    | .ok n => .ok n
    | .error f => .error (f.message "Atoi" t)

/-- A parameter read by `read`; a failure names the parameter. -/
def parameter {α : Type} (v : Values) (name : Text) (read : Text → Except Text α) :
    Except Fault α :=
  match read (firstValue v name) with
  | .ok a => .ok a
  | .error message => .error [.query, .note ("invalid " ++ name), .plain message]

/-- The query that parameters ask for. -/
def ofValues (v : Values) (now : Instant) : Except Fault Query := do
  let startTime ← parameter v "since" (readTime now)
  let endTime ← parameter v "until" (readTime now)
  let limit ← parameter v "limit" readNumber
  let offset ← parameter v "offset" readNumber
  pure
    { startTime, endTime, limit, offset
      ids := (v.lookup (Text.ofString "id")).getD []
      status := firstValue v "status"
      errorType := firstValue v "error_type"
      origin := firstValue v "origin"
      inputHash := firstValue v "input_hash"
      sortBy := firstValue v "sort_by"
      sortOrder := (firstValue v "sort_order").toLower }

end Query

end MathMarkup.History
