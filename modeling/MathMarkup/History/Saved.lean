import MathMarkup.History.Json
import MathMarkup.History.Table
import MathMarkup.Json.Reader

/-!
# Databases as texts

A database is kept in a file as lines: a heading, the recorded versions of the layout, and the
records as JSON, the oldest first.
-/

namespace MathMarkup.History.Database

/-- The first line of a file that holds a database. -/
def heading : Text := "texsolve history"

/-- A database as it stands in a file. -/
def text (d : Database) : Text :=
  let versions : Json := .array (d.versions.map Json.int)
  let records := d.table.rows.reverse.map fun r => r.toRecord.fullJson.compact
  (heading :: versions.compact :: records).flatMap fun l => l ++ "\n"

/-- A table with a row for a record, unless its identifier is taken. -/
def withRecord (t : Table) (r : Record) : Table := (t.insert? (Row.ofRecord r)).getD t

/-- Reads a database. A text without the heading is none. -/
def ofText? (t : Text) : Option Database :=
  match Text.splitByte (Text.byte '\n') t with
  | first :: versions :: records =>
    if first == heading then
      some
        { versions := ((Json.read? versions).getD .null).items.map Json.asInt
          table := (records.filterMap Json.read?).foldl (fun t j => withRecord t (Record.ofJson j))
            .empty }
    else none
  | _ => none

end MathMarkup.History.Database
