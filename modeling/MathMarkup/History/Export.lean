import MathMarkup.History.Record
import MathMarkup.Number.Fixed
import MathMarkup.Output.Csv
import MathMarkup.Output.Sink

/-!
# Exports

Records are written as one JSON array, as lines of JSON, or as rows of comma-separated values.
-/

namespace MathMarkup.History

open Output (Sink Buffer)

/-- The formats of exports. -/
inductive ExportFormat where
  | json (indented : Bool)
  | lines
  | csv (header : Bool)
deriving DecidableEq, Repr

namespace ExportFormat

/-- The names of the formats. -/
def names : List Text := Text.ofStrings ["json", "jsonl", "csv"]

/-- The name of a format. -/
def name : ExportFormat → Text
  | json _ => "json"
  | lines => "jsonl"
  | csv _ => "csv"

/-- The format of a name; no name asks for JSON. -/
def ofName (t : Text) (indented : Bool) : Except Fault ExportFormat :=
  if t == Text.ofString "json" || t.isEmpty then .ok (.json indented)
  else if t == Text.ofString "jsonl" then .ok .lines
  else if t == Text.ofString "csv" then .ok (.csv true)
  else
    .error [.exporting t 0,
      .plain ("unsupported format " ++ t.quote ++ " (want one of [" ++ Text.join " " names ++ "])")]

end ExportFormat

namespace Export

/-- The names of the columns. -/
def header : List Text :=
  Text.ofStrings ["id", "request_id", "origin", "created_at", "status", "error_type",
    "error_message", "clean_passes", "duration_ms", "input_hash", "input", "cleaned", "output"]

/-- A duration in milliseconds with three places. -/
def milliseconds (d : Time.Duration) : Text := Number.fixed 3 (Float.ofInt d / 1000000)

/-- A record as a row. -/
def row (r : Record) : List Text :=
  [r.id, r.requestId, r.origin, r.createdAt.utc.text, r.status, r.errorType, r.errorMessage,
    Text.ofInt r.cleanPasses, milliseconds r.duration, r.inputHash, r.input, r.cleaned, r.output]

/-- The fault of an export after a number of records. -/
def fault (format : ExportFormat) (count : Nat) (f : Fault) : Fault :=
  .exporting format.name count :: f

/-- The result of a write in an export; a failure tells how many records came before. -/
def attempt {α : Type} (format : ExportFormat) (count : Nat) : Except Fault α → Except Fault α
  | .ok a => .ok a
  | .error f => .error (fault format count f)

/-- Asks whether an export is cancelled before the record with the given number. -/
def unlessCancelled (format : ExportFormat) (count : Nat) (cancel : Cancellation) :
    Except Fault Cancellation :=
  match cancel.check? with
  | some c => .ok c
  | none => .error (fault format count [.cancelled])

/-- Writes records as an array. -/
def writeArray (indented : Bool) (records : List Record) (s : Sink) : Except Fault Sink :=
  let value := Json.array (records.map Record.json)
  let body := if indented then value.indented else value.compact
  attempt (.json indented) records.length (s.write (body ++ "\n"))

/-- Writes records as lines, the first of them with number `i`. -/
def writeLines (cancel : Cancellation) (i : Nat) (records : List Record) (s : Sink) :
    Except Fault Sink :=
  match records with
  | [] => .ok s
  | r :: rest => do
    let cancel ← unlessCancelled .lines i cancel
    let s ← attempt .lines i (s.write (r.json.compact ++ "\n"))
    writeLines cancel (i + 1) rest s

/-- How many rows are written before the buffer is emptied. -/
def rowsPerFlush : Nat := 100

/-- Writes records as rows, the first of them with number `i`. -/
def writeRows (format : ExportFormat) (cancel : Cancellation) (i : Nat) (records : List Record)
    (b : Buffer) : Except Fault Buffer :=
  match records with
  | [] => attempt format i b.flush
  | r :: rest => do
    let cancel ← unlessCancelled format i cancel
    let b ← attempt format i (b.put (Output.Csv.row (row r)))
    let b ← if (i + 1) % rowsPerFlush = 0 then attempt format i b.flush else .ok b
    writeRows format cancel (i + 1) rest b

/-- Writes records in a format. -/
def write (format : ExportFormat) (cancel : Cancellation) (records : List Record) (s : Sink) :
    Except Fault Sink :=
  match format with
  | .json indented => writeArray indented records s
  | .lines => writeLines cancel 0 records s
  | .csv withHeader => do
    let b : Buffer := { sink := s }
    let b ←
      if withHeader then attempt format records.length (b.put (Output.Csv.row header)) else .ok b
    let b ← writeRows format cancel 0 records b
    pure b.sink

end Export

end MathMarkup.History
