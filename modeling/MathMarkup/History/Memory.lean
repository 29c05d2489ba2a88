import MathMarkup.History.Storage

/-!
# Records in memory

The simplest store: a set of records with distinct identifiers, lost when the program ends.
-/

namespace MathMarkup.History

/-- Records with distinct identifiers. The order of the list carries no meaning. -/
structure Memory where
  records : List Record
  distinct : (records.map Record.id).Nodup

namespace Memory

/-- No records. -/
def empty : Memory := ⟨[], List.nodup_nil⟩

/-- The number of records. -/
def size (m : Memory) : Nat := m.records.length

/-- The record with an identifier. -/
def find? (m : Memory) (id : Text) : Option Record := m.records.find? fun r => r.id == id

/-- Adds a record whose identifier is new. -/
def insert? (m : Memory) (r : Record) : Option Memory :=
  if h : (m.records.map Record.id).contains r.id then none
  else some ⟨r :: m.records, distinct_cons m.distinct h⟩

/-- The records for which a test holds. -/
def filter (m : Memory) (p : Record → Bool) : Memory :=
  ⟨m.records.filter p, m.distinct.sublist (List.filter_sublist.map _)⟩

/-- Keeps a record. -/
def store (m : Memory) (r : Record) : Except Fault Memory :=
  match m.insert? r with
  | some m' => .ok m'
  | none =>
    .error [.storage "memory" "store", .plain ("record " ++ r.id.quote ++ " already exists")]

/-- The record with an identifier. -/
def get (m : Memory) (id : Text) : Except Fault Record :=
  match m.find? id with
  | some r => .ok r
  | none => .error [.notFound]

/-- Whether a record comes before another: by the number that a query sorts by, and by the
identifier among equal numbers; downwards unless the query is ascending. -/
def precedes (q : Query) (a b : Record) : Bool :=
  let equal : Bool := q.sortKey a == q.sortKey b
  let less : Bool := if equal then a.id < b.id else q.sortKey a < q.sortKey b
  if equal && a.id == b.id then false
  else if q.isAscending then less
  else !less

/-- The wanted records in the order of a query. -/
def selected (m : Memory) (q : Query) : List Record :=
  (m.records.filter q.admits).mergeSort fun a b => !precedes q b a

/-- The page of a list of records that a query asks for, if it starts at or after the beginning. -/
def page (q : Query) (rs : List Record) : List Record :=
  if (rs.length : Int) < q.offset then []
  else
    let rest := rs.drop q.offset.toNat
    if 0 < q.limit && q.limit < rest.length then rest.take q.limit.toNat else rest

/-- The page of wanted records. A page cannot start before the first record. -/
def query (m : Memory) (q : Query) : Except Fault (List Record) :=
  if q.offset < 0 then .error [.pageBeforeStart] else .ok (page q (m.selected q))

/-- The number of wanted records. -/
def count (m : Memory) (q : Query) : Nat := (m.records.filter q.admits).length

/-- Removes the wanted records. -/
def delete (m : Memory) (q : Query) : Nat × Memory :=
  (m.count q, m.filter fun r => !q.admits r)

/-- Records in memory as a store. -/
def storage : Storage Memory where
  backend := "memory"
  store := store
  get := get
  query := query
  count m q := .ok (m.count q)
  delete m q := .ok (m.delete q)
  ping _ := .ok ()
  close _ := empty

end Memory

end MathMarkup.History
