import MathMarkup.Failure.Fault
import MathMarkup.Json.Value
import MathMarkup.Output.Columns
import MathMarkup.Output.Csv
import MathMarkup.Text.Case

/-!
# Output formats

Results of commands are written as text, as JSON or as comma-separated rows. A table is a list of
rows under headers; in JSON it is a list of objects.
-/

namespace MathMarkup.Output

/-- The formats of results. -/
inductive Format where
  | text
  | json
  | csv
deriving DecidableEq, Repr

namespace Format

/-- The name of a format. -/
def name : Format → Text
  | text => "text"
  | json => "json"
  | csv => "csv"

/-- All formats. -/
def all : List Format := [text, json, csv]

/-- Reads the name of one of some formats, in any case. No name asks for text. -/
def read (t : Text) (allowed : List Text) : Except Fault Text :=
  let allowed := if allowed.isEmpty then all.map name else allowed
  if t.isEmpty then .ok text.name
  else if allowed.contains t.toLower then .ok t.toLower
  else
    .error [.usage ("invalid format " ++ t.quote ++ " (must be one of: " ++ Text.join ", " allowed
      ++ ")")]

/-- The format of a name; every other name asks for text. -/
def ofName (t : Text) : Format := (all.find? fun f => f.name == t).getD text

end Format

/-- Rows under headers. -/
structure Table where
  headers : List Text := []
  rows : List (List Text)

namespace Table

/-- The pairs of a list with distinct keys: of equal keys the last pair counts. -/
def lastOfKey (fields : List (Text × Text)) : List (Text × Text) :=
  fields.foldl (fun seen (k, v) => seen.filter (·.1 != k) ++ [(k, v)]) []

/-- A row as an object with a field for each header that has a cell, in the order of the headers'
names. -/
def rowJson (headers row : List Text) : Json :=
  let fields := (lastOfKey (headers.zip row)).mergeSort fun a b => !decide (b.1 < a.1)
  .object (fields.map fun (k, v) => (k, .text v))

/-- A table as a list of objects. -/
def json (t : Table) : Json := .array (t.rows.map (rowJson t.headers))

/-- The lines of a table: its headers, if it has any, and its rows. -/
def lines (t : Table) : List (List Text) :=
  (if t.headers.isEmpty then [] else [t.headers]) ++ t.rows

/-- A table as aligned columns. -/
def text (t : Table) : Text :=
  Columns.align (t.lines.flatMap fun l => Text.join "\t" l ++ "\n")

/-- A table as comma-separated rows. -/
def csv (t : Table) : Text := t.lines.flatMap Csv.row

end Table

/-- What a command has to show. -/
inductive Data where
  | plain (t : Text)
  | table (t : Table)

namespace Data

/-- Data as a JSON value. -/
def json : Data → Json
  | plain t => .text t
  | table t => t.json

/-- Data in a format, as it is written. JSON is written over lines unless it is to be compact. -/
def write (d : Data) (f : Format) (compact : Bool) : Except Fault Text :=
  match f, d with
  | .text, plain t => .ok (t ++ "\n")
  | .text, table t => .ok t.text
  | .json, d => .ok ((if compact then d.json.compact else d.json.indented) ++ "\n")
  | .csv, plain _ => .error [.plain "csv output requires tabular data, got string"]
  | .csv, table t => .ok t.csv

/-- Data in a format as a text of its own: JSON has no line break at its end. -/
def format (d : Data) (f : Format) (compact : Bool) : Except Fault Text :=
  match f with
  | .json => (d.write f compact).map List.dropLast
  | _ => d.write f compact

end Data

end MathMarkup.Output
