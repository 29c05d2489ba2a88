import MathMarkup.History.Table
import MathMarkup.Proofs.Ordering

/-!
# One history, two stores

A memory and a database that hold the same records answer every call alike, and hold the same
records after it. So a history may be kept in either of them, and a caller cannot tell which.

Neither store promises anything about the order in which it keeps its records, and the proof relies
on none: the relation between the two (`Holds`) is up to a permutation, and what makes the answers
to a query equal is that both sort by the same places (`rowLe_ofRecord`), whose order decides
between any two records. A database gives times back in UTC, so answers are compared as instants.
-/

namespace MathMarkup

/-! ## Times in 64 bits -/

/-- Whether the nanoseconds of an instant fit into 64 bits. -/
def Time.Instant.Fits (t : Time.Instant) : Prop := Number.minInt ≤ t.nanos ∧ t.nanos ≤ Number.maxInt

theorem Time.Instant.Fits.unixNano_eq {t : Time.Instant} (h : t.Fits) : t.unixNano = t.nanos := by
  obtain ⟨hmin, hmax⟩ := h
  unfold Number.minInt at hmin
  unfold Number.maxInt at hmax
  have hsize : (Nat.pow 2 64 : Nat) = 18446744073709551616 := by decide
  unfold unixNano Number.wrap
  rw [hsize, Int.bmod_eq_of_le] <;> omega

namespace History

variable {σ : Type} {m : Memory} {c : Connection} {q : Query} {r : Record}

/-! ## Calls and answers -/

/-- What callers ask of a store. -/
inductive Call where
  | store (r : Record)
  | get (id : Text)
  | query (q : Query)
  | count (q : Query)
  | delete (q : Query)

/-- What callers hear. The words in which a store refuses a record are its own. -/
inductive Answer where
  | stored
  | refused
  | got (r : Except Fault Record)
  | found (rs : Except Fault (List Record))
  | number (n : Except Fault Nat)

/-- The answer of a store to a call, and the store after it. A call that fails leaves the store as
it was. -/
def Storage.perform (st : Storage σ) (s : σ) : Call → Answer × σ
  | .store r =>
    match st.store s r with
    | .ok s' => (.stored, s')
    | .error _ => (.refused, s)
  | .get id => (.got (st.get s id), s)
  | .query q => (.found (st.query s q), s)
  | .count q => (.number (st.count s q), s)
  | .delete q =>
    match st.delete s q with
    | .ok (n, s') => (.number (.ok n), s')
    | .error f => (.number (.error f), s)

/-- The answers of a store to calls, one after the other. -/
def Storage.answers (st : Storage σ) : σ → List Call → List Answer
  | _, [] => []
  | s, call :: calls => (st.perform s call).1 :: st.answers (st.perform s call).2 calls

/-- A store after calls. -/
def Storage.afterCalls (st : Storage σ) (s : σ) (calls : List Call) : σ :=
  calls.foldl (fun s call => (st.perform s call).2) s

/-- A record whose time is shown in UTC. -/
def Record.inUtc (r : Record) : Record := { r with createdAt := r.createdAt.utc }

/-- An answer with all times in UTC. -/
def Answer.inUtc : Answer → Answer
  | .got r => .got (r.map Record.inUtc)
  | .found rs => .found (rs.map (List.map Record.inUtc))
  | answer => answer

/-- Whether the bounds of a query fit into 64 bits. -/
def Query.Fits (q : Query) : Prop := (∀ t ∈ q.startTime, t.Fits) ∧ ∀ t ∈ q.endTime, t.Fits

/-- Whether the times of a call fit into 64 bits, and its page does not start before the first
record. -/
def Call.Representable : Call → Prop
  | .store r => r.createdAt.instant.Fits
  | .get _ => True
  | .query q => 0 ≤ q.offset ∧ q.Fits
  | .count q => q.Fits
  | .delete q => q.Fits

/-! ## Rows -/

theorem present?_getD (t : Text) : (present? t).getD [] = t := by
  cases t <;> rfl

/-- A row keeps everything of a record but the clock that its time was read from. -/
theorem toRecord_ofRecord (hr : r.createdAt.instant.Fits) :
    (Row.ofRecord r).toRecord = r.inUtc := by
  unfold Row.toRecord Row.ofRecord Record.inUtc Time.Stamp.utc
  dsimp only
  rw [present?_getD, present?_getD, hr.unixNano_eq]

/-- A condition that is put unless a text is empty. -/
theorem all_unlessEmpty (t : Text) (condition : Text → Condition) (row : Row) :
    (Condition.unlessEmpty t condition).all (·.holds row)
      = (t.isEmpty || (condition t).holds row) := by
  unfold Condition.unlessEmpty
  cases t <;> simp

/-- An absent value equals no text, and only the empty text is absent. -/
theorem present?_beq {wanted : Text} (hw : wanted.isEmpty = false) (t : Text) :
    (present? t == some wanted) = (t == wanted) := by
  cases t with
  | nil => cases wanted <;> simp_all [present?]
  | cons b t => simp [present?]

/-- **The conditions of a query say which records are wanted.** -/
theorem meets_ofRecord (hq : q.Fits) (hr : r.createdAt.instant.Fits) :
    Table.meets q (Row.ofRecord r) = q.admits r := by
  have hstart : ((q.startTime.map fun t => Condition.createdFrom t.unixNano).toList).all
      (·.holds (Row.ofRecord r)) = q.startTime.all fun t => t ≤ r.createdAt.instant := by
    cases hs : q.startTime with
    | none => rfl
    | some t =>
        have ht := (hq.1 t hs).unixNano_eq
        simp [Condition.holds, Row.ofRecord, ht, hr.unixNano_eq]
        rfl
  have hend : ((q.endTime.map fun t => Condition.createdTo t.unixNano).toList).all
      (·.holds (Row.ofRecord r)) = q.endTime.all fun t => r.createdAt.instant ≤ t := by
    cases hs : q.endTime with
    | none => rfl
    | some t =>
        have ht := (hq.2 t hs).unixNano_eq
        simp [Condition.holds, Row.ofRecord, ht, hr.unixNano_eq]
        rfl
  have hids : (if q.ids.isEmpty then [] else [Condition.idIn q.ids]).all
      (·.holds (Row.ofRecord r)) = (q.ids.isEmpty || q.ids.contains r.id) := by
    cases q.ids <;> simp [Condition.holds, Row.ofRecord]
  have herror : (q.errorType.isEmpty || (Condition.errorTypeIs q.errorType).holds (Row.ofRecord r))
      = Query.asks q.errorType r.errorType := by
    cases he : q.errorType.isEmpty with
    | true => simp [Query.asks, he]
    | false => simp [Query.asks, he, Condition.holds, Row.ofRecord, present?_beq he]
  unfold Table.meets Query.conditions Query.admits
  simp only [List.all_append, all_unlessEmpty, hstart, hend, hids, herror]
  rfl

/-- The sorted column holds the number that records are sorted by. -/
theorem sortColumn_ofRecord (hr : r.createdAt.instant.Fits) :
    Table.sortColumn q (Row.ofRecord r) = q.sortKey r := by
  unfold Table.sortColumn Query.sortKey
  rw [← hr.unixNano_eq]
  rfl

/-! ## Order -/

theorem textLe_iff {a b : Text} : Query.textLe a b = true ↔ a ≤ b := by
  unfold Query.textLe
  rw [Bool.not_eq_true', decide_eq_false_iff_not, List.not_lt]

/-- A row is below another by the sorted column, or by the identifier where the column is equal. -/
def Table.Below (q : Query) (a b : Row) : Prop :=
  sortColumn q a < sortColumn q b ∨ (sortColumn q a = sortColumn q b ∧ a.id ≤ b.id)

theorem rowLe_iff {a b : Row} :
    Table.rowLe q a b = true
      ↔ if q.isAscending then Table.Below q a b else Table.Below q b a := by
  unfold Table.rowLe Query.directed Table.Below
  by_cases hcol : Table.sortColumn q a = Table.sortColumn q b
  · rw [if_pos hcol]
    cases q.isAscending <;> simp [textLe_iff, hcol]
  · rw [if_neg hcol]
    cases q.isAscending <;> simp <;> omega

/-- Where a query sorts a row. -/
def Table.place (q : Query) (row : Row) : Place := ⟨sortColumn q row, row.id⟩

theorem place_ofRecord (hr : r.createdAt.instant.Fits) :
    Table.place q (Row.ofRecord r) = q.place r := by
  unfold Table.place Query.place
  rw [sortColumn_ofRecord hr]
  rfl

/-- Rows are sorted by their places, as records are. -/
theorem rowLe_sortsBy (q : Query) : SortsBy q.isAscending (Table.place q) (Table.rowLe q) :=
  fun _ _ => rowLe_iff

/-- **Both stores order alike**, in either direction and among equal numbers. -/
theorem rowLe_ofRecord {a b : Record} (ha : a.createdAt.instant.Fits)
    (hb : b.createdAt.instant.Fits) :
    Table.rowLe q (Row.ofRecord a) (Row.ofRecord b) = !Memory.precedes q b a := by
  rw [Bool.eq_iff_iff, rowLe_sortsBy, Memory.precedes_sortsBy, place_ofRecord ha,
    place_ofRecord hb]

/-! ## Pages -/

theorem page_eq (q : Query) (rs : List Record) :
    Memory.page q rs
      = if 0 < q.limit then (rs.drop q.offset.toNat).take q.limit.toNat
        else rs.drop q.offset.toNat := by
  unfold Memory.page
  by_cases hover : (rs.length : Int) < q.offset
  · have hnone : rs.drop q.offset.toNat = [] := List.drop_eq_nil_of_le (by omega)
    rw [if_pos hover, hnone]
    simp
  · rw [if_neg hover]
    by_cases hlimit : 0 < q.limit
    · by_cases hshort : q.limit < (rs.drop q.offset.toNat).length
      · simp only [hlimit, hshort, decide_true, Bool.and_self, if_true]
      · have hall : (rs.drop q.offset.toNat).take q.limit.toNat = rs.drop q.offset.toNat :=
          List.take_of_length_le (by omega)
        simp only [hlimit, hshort, decide_true, decide_false, Bool.and_false, Bool.false_eq_true,
          if_false, if_true, hall]
    · simp only [hlimit, decide_false, Bool.false_and, Bool.false_eq_true, if_false]

/-- The rows that a query keeps of those in its order. A page that would start before the first row
starts there, as the page of a list does. -/
theorem window_eq (q : Query) (rows : List Row) :
    (match q.window? with
      | some w => w.view rows
      | none => rows)
      = if 0 < q.limit then (rows.drop q.offset.toNat).take q.limit.toNat
        else rows.drop q.offset.toNat := by
  have hoffset : (if 0 < q.offset then q.offset else 0).toNat = q.offset.toNat := by
    split <;> omega
  unfold Query.window?
  by_cases hlimit : 0 < q.limit
  · simp only [hlimit, if_true, Window.view, hoffset, show ¬ q.limit < 0 by omega, if_false]
  · by_cases hpositive : 0 < q.offset
    · simp [hlimit, hpositive, Window.view]
    · have hzero : q.offset.toNat = 0 := by omega
      simp [hlimit, hpositive, hzero]

/-! ## Two stores with the same records -/

/-- An open database holds the records of a memory, in any order. -/
structure Holds (m : Memory) (c : Connection) : Prop where
  isOpen : c.isOpen = true
  rows : c.database.table.rows.Perm (m.records.map Row.ofRecord)
  fits : ∀ r ∈ m.records, r.createdAt.instant.Fits

/-- New stores hold nothing. -/
theorem holds_empty (versions : List Int) :
    Holds .empty { database := { versions := versions } } where
  isOpen := rfl
  rows := .refl _
  fits _ hr := absurd hr List.not_mem_nil

namespace Holds

/-- A call reaches the table of an open database. -/
theorem withTable_eq (h : Holds m c) {α : Type} (operation : Text) (run : Table → Except Fault α) :
    c.withTable operation run = run c.database.table := by
  unfold Connection.withTable
  rw [if_pos h.isOpen]

/-- The two stores hold the same identifiers. -/
theorem ids (h : Holds m c) :
    (c.database.table.rows.map Row.id).Perm (m.records.map Record.id) := by
  have hmap := h.rows.map Row.id
  rw [List.map_map] at hmap
  exact hmap

/-- The rows that meet the conditions of a query are those of the wanted records. -/
theorem filter_perm (h : Holds m c) (hq : q.Fits) :
    (c.database.table.rows.filter (Table.meets q)).Perm
      ((m.records.filter q.admits).map Row.ofRecord) := by
  refine (h.rows.filter _).trans (.of_eq ?_)
  rw [List.filter_map]
  congr 1
  exact List.filter_congr fun r hr => meets_ofRecord hq (h.fits r hr)

/-- The records of a query are, as rows, the rows of the same query. -/
theorem select_eq (h : Holds m c) (hq : q.Fits) :
    c.database.table.select q = (Memory.page q (m.selected q)).map Row.ofRecord := by
  have hsorted : (c.database.table.rows.filter (Table.meets q)).mergeSort (Table.rowLe q)
      = (m.selected q).map Row.ofRecord := by
    have hdistinct := c.database.table.distinct.sublist
      ((List.filter_sublist (p := Table.meets q)).map Row.id)
    have hmap : (m.selected q).map Row.ofRecord
        = ((m.records.filter q.admits).map Row.ofRecord).mergeSort (Table.rowLe q) := by
      refine List.map_mergeSort fun a ha b hb => ?_
      exact (rowLe_ofRecord (h.fits a (List.mem_of_mem_filter ha))
        (h.fits b (List.mem_of_mem_filter hb))).symm
    rw [hmap]
    exact (rowLe_sortsBy q).mergeSort_eq_of_perm hdistinct (h.filter_perm hq)
  unfold Table.select
  rw [hsorted]
  refine (window_eq q _).trans ?_
  rw [page_eq]
  split
  · rw [List.map_take, List.map_drop]
  · rw [List.map_drop]

end Holds

/-! ## One call -/

/-- An identifier tells rows apart, so that it does not matter where its row is found. -/
theorem find?_eq_of_perm {as bs : List Row} (hdistinct : (as.map Row.id).Nodup) (hperm : as.Perm bs)
    (id : Text) : as.find? (fun row => row.id == id) = bs.find? fun row => row.id == id := by
  cases hb : bs.find? fun row => row.id == id with
  | none =>
      rw [List.find?_eq_none] at hb ⊢
      exact fun row hrow => hb row (hperm.mem_iff.mp hrow)
  | some row =>
      have hid := List.find?_some hb
      have hrow := hperm.mem_iff.mpr (List.mem_of_find?_eq_some hb)
      cases ha : as.find? fun row => row.id == id with
      | none => exact absurd hid (List.find?_eq_none.mp ha row hrow)
      | some row' =>
          have hid' := List.find?_some ha
          simp only [beq_iff_eq] at hid hid'
          rw [List.inj_on_of_nodup_map hdistinct (List.mem_of_find?_eq_some ha) hrow
            (hid'.trans hid.symm)]

/-- A memory refuses a record whose identifier it holds, and only that. -/
theorem memory_store (m : Memory) (r : Record) :
    if r.id ∈ m.records.map Record.id then Memory.storage.perform m (.store r) = (.refused, m)
    else ∃ m', Memory.storage.perform m (.store r) = (.stored, m')
      ∧ m'.records = r :: m.records := by
  split
  · rename_i hid
    simp only [Storage.perform, Memory.storage, Memory.store, Memory.insert?,
      dif_pos (List.contains_iff_mem.mpr hid)]
  · rename_i hid
    rw [← List.contains_iff_mem] at hid
    refine ⟨⟨r :: m.records, distinct_cons m.distinct hid⟩, ?_, rfl⟩
    simp only [Storage.perform, Memory.storage, Memory.store, Memory.insert?, dif_neg hid]

/-- The primary key keeps identifiers apart. -/
theorem table_insert? (t : Table) (row : Row) :
    if row.id ∈ t.rows.map Row.id then t.insert? row = none
    else ∃ t', t.insert? row = some t' ∧ t'.rows = row :: t.rows := by
  unfold Table.insert?
  split
  · rename_i hid
    rw [dif_pos (List.contains_iff_mem.mpr hid)]
  · rename_i hid
    rw [← List.contains_iff_mem] at hid
    rw [dif_neg hid]
    exact ⟨_, rfl, rfl⟩

/-- An open database refuses a record whose identifier it holds, and only that. -/
theorem connection_store (hopen : c.isOpen = true) (r : Record) :
    if r.id ∈ c.database.table.rows.map Row.id then
      Connection.storage.perform c (.store r) = (.refused, c)
    else ∃ c', Connection.storage.perform c (.store r) = (.stored, c') ∧ c'.isOpen = true
      ∧ c'.database.table.rows = Row.ofRecord r :: c.database.table.rows := by
  have hinsert := table_insert? c.database.table (Row.ofRecord r)
  split
  · rename_i hid
    rw [if_pos (show (Row.ofRecord r).id ∈ _ from hid)] at hinsert
    simp only [Storage.perform, Connection.storage, Connection.store, Connection.withTable, hopen,
      if_true, hinsert]
  · rename_i hid
    rw [if_neg (show (Row.ofRecord r).id ∉ _ from hid)] at hinsert
    obtain ⟨t, ht, hrows⟩ := hinsert
    refine ⟨c.put t, ?_, hopen, hrows⟩
    simp only [Storage.perform, Connection.storage, Connection.store, Connection.withTable, hopen,
      if_true, ht]

theorem Holds.store (h : Holds m c) (hr : r.createdAt.instant.Fits) :
    (Connection.storage.perform c (.store r)).1 = (Memory.storage.perform m (.store r)).1.inUtc
      ∧ Holds (Memory.storage.perform m (.store r)).2
          (Connection.storage.perform c (.store r)).2 := by
  have hmemory := memory_store m r
  have hconnection := connection_store h.isOpen r
  by_cases hid : r.id ∈ m.records.map Record.id
  · rw [if_pos hid] at hmemory
    rw [if_pos (h.ids.mem_iff.mpr hid)] at hconnection
    rw [hmemory, hconnection]
    exact ⟨rfl, h⟩
  · rw [if_neg hid] at hmemory
    rw [if_neg (fun hc => hid (h.ids.mem_iff.mp hc))] at hconnection
    obtain ⟨m', hm', hrecords⟩ := hmemory
    obtain ⟨c', hc', hopen, hrows⟩ := hconnection
    rw [hm', hc']
    refine ⟨rfl, hopen, ?_, ?_⟩
    · rw [hrows, hrecords, List.map_cons]
      exact h.rows.cons _
    · rw [hrecords]
      intro r' hr'
      rcases List.mem_cons.mp hr' with rfl | hold
      · exact hr
      · exact h.fits r' hold

theorem Holds.get (h : Holds m c) (id : Text) :
    Connection.get c id = (Memory.get m id).map Record.inUtc := by
  have hfind : c.database.table.rows.find? (fun row => row.id == id)
      = (m.find? id).map Row.ofRecord := by
    rw [find?_eq_of_perm c.database.table.distinct h.rows, List.find?_map]
    rfl
  unfold Connection.get Memory.get
  rw [h.withTable_eq, hfind]
  cases hm : m.find? id with
  | none => rfl
  | some r =>
      have hfits := h.fits r (List.mem_of_find?_eq_some hm)
      exact congrArg Except.ok (toRecord_ofRecord hfits)

/-- An open database gives the page that a query asks for, which starts with the first record if it
would start before it. -/
theorem Holds.page (h : Holds m c) (hq : q.Fits) :
    Connection.storage.query c q
      = .ok ((Memory.page q (m.selected q)).map Record.inUtc) := by
  unfold Connection.storage
  dsimp only
  rw [h.withTable_eq, h.select_eq hq, List.map_map]
  refine congrArg Except.ok (List.map_congr_left fun r hr => ?_)
  have hselected : r ∈ m.selected q := by
    rw [page_eq] at hr
    split at hr
    · exact List.mem_of_mem_drop (List.mem_of_mem_take hr)
    · exact List.mem_of_mem_drop hr
  exact toRecord_ofRecord (h.fits r (List.mem_of_mem_filter (List.mem_mergeSort.mp hselected)))

theorem Holds.query (h : Holds m c) (hq : q.Fits) (hoffset : 0 ≤ q.offset) :
    Connection.storage.query c q = (Memory.query m q).map (List.map Record.inUtc) := by
  unfold Memory.query
  rw [h.page hq, if_neg (by omega)]
  rfl

theorem Holds.count (h : Holds m c) (hq : q.Fits) :
    Connection.storage.count c q = .ok (m.count q) := by
  unfold Connection.storage Table.count Memory.count
  dsimp only
  rw [h.withTable_eq, (h.filter_perm hq).length_eq, List.length_map]

/-- An open database removes the wanted records and counts them. -/
theorem Holds.delete (h : Holds m c) (hq : q.Fits) :
    ∃ c', Connection.storage.delete c q = .ok (m.count q, c') ∧ Holds (m.delete q).2 c' := by
  refine ⟨c.put (c.database.table.delete q).2, ?_, h.isOpen, ?_,
    fun r hr => h.fits r (List.mem_of_mem_filter hr)⟩
  · have hcount := (h.filter_perm hq).length_eq
    rw [List.length_map] at hcount
    unfold Connection.storage
    dsimp only
    rw [h.withTable_eq]
    exact congrArg (fun n => Except.ok (n, _)) hcount
  · refine (h.rows.filter _).trans (.of_eq ?_)
    rw [List.filter_map]
    refine congrArg _ (List.filter_congr fun r hr => ?_)
    exact congrArg not (meets_ofRecord hq (h.fits r hr))

/-- **A call is answered alike and changes both stores alike.** -/
theorem Holds.step (h : Holds m c) {call : Call} (hcall : call.Representable) :
    (Connection.storage.perform c call).1 = (Memory.storage.perform m call).1.inUtc
      ∧ Holds (Memory.storage.perform m call).2 (Connection.storage.perform c call).2 := by
  cases call with
  | store r => exact h.store hcall
  | get id => exact ⟨congrArg Answer.got (h.get id), h⟩
  | query q => exact ⟨congrArg Answer.found (h.query hcall.2 hcall.1), h⟩
  | count q => exact ⟨congrArg Answer.number (h.count hcall), h⟩
  | delete q =>
      obtain ⟨c', hdelete, hafter⟩ := h.delete hcall
      unfold Storage.perform
      dsimp only
      rw [hdelete]
      exact ⟨rfl, hafter⟩

/-! ## A sequence of calls -/

/-- **Every sequence of calls is answered alike.** -/
theorem Holds.run (h : Holds m c) {calls : List Call}
    (hcalls : ∀ call ∈ calls, call.Representable) :
    Connection.storage.answers c calls = (Memory.storage.answers m calls).map Answer.inUtc
      ∧ Holds (Memory.storage.afterCalls m calls) (Connection.storage.afterCalls c calls) := by
  induction calls generalizing m c with
  | nil => exact ⟨rfl, h⟩
  | cons call calls ih =>
      obtain ⟨hanswer, hnext⟩ := h.step (hcalls call List.mem_cons_self)
      obtain ⟨hanswers, hafter⟩ := ih hnext fun call' hc => hcalls call' (List.mem_cons_of_mem _ hc)
      refine ⟨?_, hafter⟩
      show _ :: _ = _ :: _
      rw [hanswer, hanswers]

/-- **The stores are interchangeable.** A memory and a database with the same records, in whatever
order they keep them, give the same answers to every sequence of calls: the same records in the same
order, the same numbers, the same successes and failures. After it both refuse a record exactly if
they hold one with its identifier, and are then left as they were. -/
theorem stores_interchangeable (m : Memory) (c : Connection) (h : Holds m c) (calls : List Call)
    (hcalls : ∀ call ∈ calls, call.Representable) :
    let m' := Memory.storage.afterCalls m calls
    let c' := Connection.storage.afterCalls c calls
    Connection.storage.answers c calls = (Memory.storage.answers m calls).map Answer.inUtc
      ∧ ∀ r, if r.id ∈ m'.records.map Record.id then
          Memory.storage.perform m' (.store r) = (.refused, m')
            ∧ Connection.storage.perform c' (.store r) = (.refused, c')
        else (Memory.storage.perform m' (.store r)).1 = .stored
          ∧ (Connection.storage.perform c' (.store r)).1 = .stored := by
  intro m' c'
  obtain ⟨hanswers, hafter⟩ := h.run hcalls
  refine ⟨hanswers, fun r => ?_⟩
  have hmemory := memory_store m' r
  have hconnection := connection_store hafter.isOpen r
  by_cases hid : r.id ∈ m'.records.map Record.id
  · rw [if_pos hid] at hmemory ⊢
    rw [if_pos (hafter.ids.mem_iff.mpr hid)] at hconnection
    exact ⟨hmemory, hconnection⟩
  · rw [if_neg hid] at hmemory ⊢
    rw [if_neg (fun hc => hid (hafter.ids.mem_iff.mp hc))] at hconnection
    obtain ⟨_, hm, -⟩ := hmemory
    obtain ⟨_, hc, -, -⟩ := hconnection
    exact ⟨congrArg Prod.fst hm, congrArg Prod.fst hc⟩

/-- A record of the first second of 1970, read from a clock an hour ahead of UTC. -/
def early (id errorType : Text) : Record where
  id := id
  errorType := errorType
  createdAt := ⟨⟨1⟩, 3600⟩

/-- Two records of one moment, a third that takes the name of the first, and questions about
them. -/
def tiedCalls : List Call :=
  [.store (early "a" []), .store (early "b" "syntax"), .store (early "a" "syntax"),
    .query { sortOrder := "desc", limit := 1 }, .delete { errorType := "syntax" }, .get "a"]

/-- New stores answer the tied calls alike: they refuse the second `a` and then hold on to the first
one. -/
theorem tiedCalls_answered :
    (∀ call ∈ tiedCalls, call.Representable)
      ∧ Connection.storage.answers { database := {} } tiedCalls
        = (Memory.storage.answers .empty tiedCalls).map Answer.inUtc
      ∧ Connection.storage.perform (Connection.storage.afterCalls { database := {} } tiedCalls)
          (.store (early "a" []))
        = (.refused, Connection.storage.afterCalls { database := {} } tiedCalls) := by
  have hcalls : ∀ call ∈ tiedCalls, call.Representable := by
    simp [tiedCalls, Call.Representable, Query.Fits, Time.Instant.Fits, early, Number.minInt,
      Number.maxInt]
  obtain ⟨hanswers, hstore⟩ :=
    stores_interchangeable .empty { database := {} } (holds_empty []) tiedCalls hcalls
  have hheld := hstore (early "a" [])
  rw [if_pos (by decide)] at hheld
  exact ⟨hcalls, hanswers, hheld.2⟩

end History

end MathMarkup
