import MathMarkup.History.Storage

/-!
# Records in a table

A database keeps records as rows of a table. Times and durations are columns of 64-bit integers, and
an empty kind of error or error message is no value at all. A query becomes a list of conditions on
columns, joined by "and", an order and a page.
-/

namespace MathMarkup.History

open Time (Instant)

/-- A row of the table of conversions. -/
structure Row where
  id : Text
  requestId : Text
  origin : Text
  inputHash : Text
  input : Text
  cleaned : Text
  output : Text
  status : Text
  errorType : Option Text
  errorMessage : Option Text
  cleanPasses : Int
  duration : Int
  createdAt : Int
deriving DecidableEq, Repr

/-- A text as the value of a column that may be absent. -/
def present? (t : Text) : Option Text := if t.isEmpty then none else some t

namespace Row

/-- The row of a record. -/
def ofRecord (r : Record) : Row where
  id := r.id
  requestId := r.requestId
  origin := r.origin
  inputHash := r.inputHash
  input := r.input
  cleaned := r.cleaned
  output := r.output
  status := r.status
  errorType := present? r.errorType
  errorMessage := present? r.errorMessage
  cleanPasses := r.cleanPasses
  duration := r.duration
  createdAt := r.createdAt.instant.unixNano

/-- The record of a row. -/
def toRecord (r : Row) : Record where
  id := r.id
  requestId := r.requestId
  origin := r.origin
  inputHash := r.inputHash
  input := r.input
  cleaned := r.cleaned
  output := r.output
  status := r.status
  errorType := r.errorType.getD []
  errorMessage := r.errorMessage.getD []
  cleanPasses := r.cleanPasses
  duration := r.duration
  createdAt := ⟨⟨r.createdAt⟩, 0⟩

end Row

/-- A condition on a row. -/
inductive Condition where
  | createdFrom (nanos : Int)
  | createdTo (nanos : Int)
  | idIn (ids : List Text)
  | statusIs (t : Text)
  | errorTypeIs (t : Text)
  | originIs (t : Text)
  | inputHashIs (t : Text)
deriving DecidableEq, Repr

namespace Condition

/-- Whether a condition holds of a row. A column without a value equals nothing. -/
def holds (r : Row) : Condition → Bool
  | createdFrom n => n ≤ r.createdAt
  | createdTo n => r.createdAt ≤ n
  | idIn ids => ids.contains r.id
  | statusIs t => r.status == t
  | errorTypeIs t => r.errorType == some t
  | originIs t => r.origin == t
  | inputHashIs t => r.inputHash == t

/-- A condition on a text unless the text is empty. -/
def unlessEmpty (t : Text) (c : Text → Condition) : List Condition :=
  if t.isEmpty then [] else [c t]

end Condition

/-- The conditions that a query puts on rows. -/
def Query.conditions (q : Query) : List Condition :=
  (q.startTime.map fun t => Condition.createdFrom t.unixNano).toList
    ++ (q.endTime.map fun t => Condition.createdTo t.unixNano).toList
    ++ (if q.ids.isEmpty then [] else [.idIn q.ids])
    ++ Condition.unlessEmpty q.status .statusIs
    ++ Condition.unlessEmpty q.errorType .errorTypeIs
    ++ Condition.unlessEmpty q.origin .originIs
    ++ Condition.unlessEmpty q.inputHash .inputHashIs

/-- The part of the selected rows that is wanted: those after the first `offset`, at most `limit` of
them unless it is negative. -/
structure Window where
  limit : Int
  offset : Int
deriving DecidableEq, Repr

/-- The rows in a window. -/
def Window.view (w : Window) (rows : List Row) : List Row :=
  let rest := rows.drop w.offset.toNat
  if w.limit < 0 then rest else rest.take w.limit.toNat

/-- The window of a query, if it asks for less than everything. A page that would start before the
first row starts there. -/
def Query.window? (q : Query) : Option Window :=
  if 0 < q.limit then some ⟨q.limit, if 0 < q.offset then q.offset else 0⟩
  else if 0 < q.offset then some ⟨-1, q.offset⟩
  else none

/-- Whether a value may come before another in the direction of a query. -/
def Query.directed {α : Type} (q : Query) (le : α → α → Bool) (a b : α) : Bool :=
  if q.isAscending then le a b else le b a

/-- The table of conversions. The identifier is its primary key. -/
structure Table where
  rows : List Row
  distinct : (rows.map Row.id).Nodup

namespace Table

/-- No rows. -/
def empty : Table := ⟨[], List.nodup_nil⟩

/-- Whether all conditions of a query hold of a row. -/
def meets (q : Query) (r : Row) : Bool := q.conditions.all (·.holds r)

/-- Inserts a row whose identifier is new. -/
def insert? (t : Table) (r : Row) : Option Table :=
  if h : (t.rows.map Row.id).contains r.id then none
  else some ⟨r :: t.rows, distinct_cons t.distinct h⟩

/-- The rows for which a test holds. -/
def filter (t : Table) (p : Row → Bool) : Table :=
  ⟨t.rows.filter p, t.distinct.sublist (List.filter_sublist.map _)⟩

/-- The column that rows are sorted by. -/
def sortColumn (q : Query) (r : Row) : Int :=
  if q.sortBy == Text.ofString "duration" then r.duration else r.createdAt

/-- Whether a row may come before another: by the sorted column, then by the identifier, both in the
direction of a query. -/
def rowLe (q : Query) (a b : Row) : Bool :=
  if sortColumn q a = sortColumn q b then q.directed Query.textLe a.id b.id
  else q.directed (fun m n => decide (m ≤ n)) (sortColumn q a) (sortColumn q b)

/-- The rows that a query selects, in its order and cut to its page. -/
def select (t : Table) (q : Query) : List Row :=
  let rows := (t.rows.filter (meets q)).mergeSort (rowLe q)
  match q.window? with
  | some w => w.view rows
  | none => rows

/-- The number of rows that meet the conditions of a query. -/
def count (t : Table) (q : Query) : Nat := (t.rows.filter (meets q)).length

/-- Deletes the rows that meet the conditions of a query. -/
def delete (t : Table) (q : Query) : Nat × Table := (t.count q, t.filter fun r => !meets q r)

end Table

/-! ## The database -/

/-- The version of the layout of the database. -/
def schemaVersion : Int := 1

/-- A database: the table of conversions and the recorded versions of its layout. -/
structure Database where
  table : Table := .empty
  versions : List Int := []

namespace Database

/-- The name of this kind of store. -/
def backend : Text := "sqlite"

/-- Prepares a database for use: its version is recorded once, and the highest recorded version has
to be the one expected. -/
def prepare (d : Database) : Except Fault Database :=
  let versions :=
    if d.versions.contains schemaVersion then d.versions else schemaVersion :: d.versions
  let highest := versions.foldl max schemaVersion
  if highest = schemaVersion then .ok { d with versions }
  else
    .error [.storage backend "schema_version_mismatch",
      .plain ("expected schema version " ++ Text.ofInt schemaVersion ++ ", got "
        ++ Text.ofInt highest)]

end Database

/-- A database that is open or has been closed. -/
structure Connection where
  database : Database
  isOpen : Bool := true

namespace Connection

/-- The fault of using a database that has been closed. -/
def closedFault (operation : Text) : Fault :=
  [.storage Database.backend operation, .plain "sql: database is closed"]

/-- Runs an operation on the table of an open database. -/
def withTable {α : Type} (c : Connection) (operation : Text) (run : Table → Except Fault α) :
    Except Fault α :=
  if c.isOpen then run c.database.table else .error (closedFault operation)

/-- The connection after its table has changed. -/
def put (c : Connection) (t : Table) : Connection :=
  { c with database := { c.database with table := t } }

/-- Keeps a record. -/
def store (c : Connection) (r : Record) : Except Fault Connection :=
  c.withTable "store" fun t =>
    match t.insert? (Row.ofRecord r) with
    | some t' => .ok (c.put t')
    | none =>
      .error [.storage Database.backend "store",
        .plain "constraint failed: UNIQUE constraint failed: conversions.id (1555)"]

/-- The record with an identifier. -/
def get (c : Connection) (id : Text) : Except Fault Record :=
  c.withTable "get" fun t =>
    match t.rows.find? fun r => r.id == id with
    | some r => .ok r.toRecord
    | none => .error [.notFound]

/-- Records in a database as a store. -/
def storage : Storage Connection where
  backend := Database.backend
  store := store
  get := get
  query c q := c.withTable "query" fun t => .ok ((t.select q).map Row.toRecord)
  count c q := c.withTable "count" fun t => .ok (t.count q)
  delete c q := c.withTable "delete" fun t => .ok ((t.delete q).1, c.put (t.delete q).2)
  ping c := c.withTable "ping" fun _ => .ok ()
  close c := { c with isOpen := false }

end Connection

end MathMarkup.History
