import MathMarkup.Proofs.Backends

/-!
# Bounds on the time in a database

A database compares times as 64-bit numbers. The times of its records fit into them, but the bounds
of a query need not: any date with a four-digit year can be asked for, and most of them are further
from 1970 than 64 bits of nanoseconds reach. Such a bound wraps around, and the query is answered as
if the wrapped bound had been asked for (`Holds.answers_stored`).

So the records between the bounds are found exactly if wrapping changes no decision about a time
that fits (`bounds_exact_iff`): the times that fit and are between the bounds have the same first
and last one as those between the wrapped bounds, or there are none on either side
(`Query.BoundsKept`). Bounds that fit are kept; a bound in the year 9999 is not
(`farUntil_finds_nothing`).
-/

namespace MathMarkup

/-! ## Wrapping -/

theorem Number.wrap_range (n : Int) : minInt ≤ wrap n ∧ wrap n ≤ maxInt := by
  have hsize : (Nat.pow 2 64 : Nat) = 18446744073709551616 := by decide
  have hlow := Int.le_bmod (x := n) (m := 18446744073709551616) (by decide)
  have hhigh := Int.bmod_lt (x := n) (m := 18446744073709551616) (by decide)
  unfold minInt maxInt wrap
  rw [hsize]
  omega

/-- An instant as a 64-bit column holds it. -/
def Time.Instant.stored (t : Time.Instant) : Time.Instant := ⟨t.unixNano⟩

theorem Time.Instant.stored_fits (t : Time.Instant) : t.stored.Fits := Number.wrap_range t.nanos

namespace History

open Time (Instant)

variable {m : Memory} {c : Connection} {q : Query} {r : Record}

/-- A query whose bounds are as columns hold them. -/
def Query.stored (q : Query) : Query :=
  { q with startTime := q.startTime.map Instant.stored, endTime := q.endTime.map Instant.stored }

theorem Query.stored_fits (q : Query) : q.stored.Fits := by
  refine ⟨fun t ht => ?_, fun t ht => ?_⟩
  · obtain ⟨s, -, rfl⟩ := Option.map_eq_some_iff.mp ht
    exact s.stored_fits
  · obtain ⟨s, -, rfl⟩ := Option.map_eq_some_iff.mp ht
    exact s.stored_fits

/-- **A database cannot tell a bound from the wrapped bound.** -/
theorem Query.conditions_stored (q : Query) : q.stored.conditions = q.conditions := by
  have hwrap : ∀ t : Instant, t.stored.unixNano = t.unixNano :=
    fun t => t.stored_fits.unixNano_eq
  unfold conditions stored
  dsimp only
  rw [Option.map_map, Option.map_map]
  simp only [Function.comp_def, hwrap]

/-! ## What a database answers -/

/-- A database answers a query as a memory with its records answers the query `meant`: with the page
of the selected records, with their number, and by removing them. -/
structure Answers (c : Connection) (q : Query) (m : Memory) (meant : Query) : Prop where
  page : Connection.storage.query c q
    = .ok ((Memory.page meant (m.selected meant)).map Record.inUtc)
  count : Connection.storage.count c q = .ok (m.count meant)
  delete : ∃ c', Connection.storage.delete c q = .ok (m.count meant, c')
    ∧ Holds (m.delete meant).2 c'

theorem Holds.answers (h : Holds m c) (hq : q.Fits) : Answers c q m q :=
  ⟨h.page hq, h.count hq, h.delete hq⟩

theorem storage_stored (c : Connection) (q : Query) :
    Connection.storage.query c q.stored = Connection.storage.query c q
      ∧ Connection.storage.count c q.stored = Connection.storage.count c q
      ∧ Connection.storage.delete c q.stored = Connection.storage.delete c q := by
  have hmeets : Table.meets q.stored = Table.meets q := by
    unfold Table.meets
    rw [q.conditions_stored]
  have hselect : ∀ t : Table, t.select q.stored = t.select q := by
    intro t
    unfold Table.select
    rw [hmeets]
    rfl
  have hdelete : ∀ t : Table, t.delete q.stored = t.delete q := by
    intro t
    unfold Table.delete Table.count
    rw [hmeets]
  unfold Connection.storage
  simp only [hselect, hdelete, Table.count, hmeets, and_self]

/-- **A database answers as if the wrapped bounds had been asked for.** -/
theorem Holds.answers_stored (h : Holds m c) (q : Query) : Answers c q m q.stored := by
  obtain ⟨hquery, hcount, hdelete⟩ := storage_stored c q
  obtain ⟨hpage', hcount', hdelete'⟩ := h.answers q.stored_fits
  exact ⟨hquery ▸ hpage', hcount ▸ hcount', hdelete ▸ hdelete'⟩

/-! ## Which records are found -/

/-- What a query leaves in memory tells which records it wanted. -/
theorem Memory.mem_delete_iff (hr : r ∈ m.records) :
    r.id ∈ (m.delete q).2.records.map Record.id ↔ q.admits r = false := by
  have hmem : r ∈ (m.delete q).2.records ↔ q.admits r = false := by
    unfold delete filter
    rw [List.mem_filter, Bool.not_eq_true']
    exact and_iff_right hr
  refine ⟨fun hid => ?_, fun hadmits => List.mem_map_of_mem (hmem.mpr hadmits)⟩
  obtain ⟨s, hs, hid⟩ := List.mem_map.mp hid
  rw [← List.inj_on_of_nodup_map m.distinct (List.mem_of_mem_filter hs) hr hid]
  unfold delete filter at hs
  rw [List.mem_filter, Bool.not_eq_true'] at hs
  exact hs.2

/-- **The records of a database are found by their instants exactly if wrapping the bounds makes no
difference to any of them.** What is removed shows which records were found. -/
theorem Holds.answers_iff (h : Holds m c) (q : Query) :
    Answers c q m q ↔ ∀ r ∈ m.records, q.stored.admits r = q.admits r := by
  have hstored := h.answers_stored q
  refine ⟨fun hexact r hr => ?_, fun halike => ?_⟩
  · obtain ⟨c₁, hrun₁, hholds₁⟩ := hexact.delete
    obtain ⟨c₂, hrun₂, hholds₂⟩ := hstored.delete
    obtain rfl : c₁ = c₂ := (Prod.mk.inj (Except.ok.inj (hrun₁.symm.trans hrun₂))).2
    have hsame := (hholds₂.ids.symm.trans hholds₁.ids).mem_iff (a := r.id)
    rw [Memory.mem_delete_iff hr, Memory.mem_delete_iff hr] at hsame
    rw [Bool.eq_iff_iff, ← Bool.not_eq_false, ← Bool.not_eq_false]
    exact not_congr hsame
  · have hfilter : m.records.filter q.stored.admits = m.records.filter q.admits :=
      List.filter_congr halike
    have hleft : m.filter (fun r => !q.stored.admits r) = m.filter fun r => !q.admits r := by
      unfold Memory.filter
      congr 1
      exact List.filter_congr fun r hr => congrArg not (halike r hr)
    have hselected : m.selected q.stored = m.selected q := by
      unfold Memory.selected
      rw [hfilter]
      rfl
    obtain ⟨hpage, hcount, hdelete⟩ := hstored
    unfold Memory.delete at hdelete
    unfold Memory.count at hcount hdelete
    rw [hfilter] at hcount
    rw [hfilter, hleft] at hdelete
    rw [hselected] at hpage
    exact ⟨hpage, hcount, hdelete⟩

/-! ## Which bounds are kept -/

/-- The first nanosecond of a column that is not before the bounds of a query. -/
def Query.earliest (q : Query) : Int :=
  q.startTime.elim Number.minInt fun t => max Number.minInt t.nanos

/-- The last nanosecond of a column that is not after the bounds of a query. -/
def Query.latest (q : Query) : Int :=
  q.endTime.elim Number.maxInt fun t => min Number.maxInt t.nanos

/-- Wrapping the bounds of a query changes nothing for times that fit: their first and last one
between the bounds are the same, or there is none between them before and after. -/
def Query.BoundsKept (q : Query) : Prop :=
  q.stored.earliest = q.earliest ∧ q.stored.latest = q.latest
    ∨ q.latest < q.earliest ∧ q.stored.latest < q.stored.earliest

instance (q : Query) : Decidable q.BoundsKept := inferInstanceAs (Decidable (_ ∨ _))

/-- Whether an instant is between the bounds of a query. -/
def Query.within (q : Query) (t : Instant) : Bool :=
  (q.startTime.all fun s => s ≤ t) && q.endTime.all fun e => t ≤ e

/-- A query without its bounds. -/
def Query.unbounded (q : Query) : Query := { q with startTime := none, endTime := none }

/-- The bounds and the other filters of a query are tested apart. -/
theorem Query.admits_eq (q : Query) (r : Record) :
    q.admits r = (q.within r.createdAt.instant && q.unbounded.admits r) := by
  unfold admits within unbounded
  simp [Bool.and_assoc]

/-- Wrapping the bounds leaves the other filters as they are. -/
theorem Query.admits_stored (q : Query) (r : Record) :
    q.stored.admits r = (q.stored.within r.createdAt.instant && q.unbounded.admits r) :=
  q.stored.admits_eq r

theorem Query.within_iff {t : Instant} (ht : t.Fits) :
    q.within t = true ↔ q.earliest ≤ t.nanos ∧ t.nanos ≤ q.latest := by
  obtain ⟨hmin, hmax⟩ := ht
  have hstart : (q.startTime.all fun s => s ≤ t) = true ↔ q.earliest ≤ t.nanos := by
    unfold earliest
    cases q.startTime with
    | none => simpa using hmin
    | some s =>
        have hle : s ≤ t ↔ s.nanos ≤ t.nanos := Iff.rfl
        simp only [Option.all_some, decide_eq_true_eq, Option.elim_some, hle]
        omega
  have hend : (q.endTime.all fun e => t ≤ e) = true ↔ t.nanos ≤ q.latest := by
    unfold latest
    cases q.endTime with
    | none => simpa using hmax
    | some e =>
        have hle : t ≤ e ↔ t.nanos ≤ e.nanos := Iff.rfl
        simp only [Option.all_some, decide_eq_true_eq, Option.elim_some, hle]
        omega
  unfold within
  rw [Bool.and_eq_true, hstart, hend]

theorem Query.earliest_ge (q : Query) : Number.minInt ≤ q.earliest := by
  unfold earliest
  cases q.startTime with
  | none => exact Int.le_refl _
  | some s => exact Int.le_max_left _ _

theorem Query.latest_le (q : Query) : q.latest ≤ Number.maxInt := by
  unfold latest
  cases q.endTime with
  | none => exact Int.le_refl _
  | some e => exact Int.min_le_left _ _

/-- Ranges of numbers have the same members if they have the same ends or no members at all. -/
theorem ranges_alike_iff {low high a b a' b' : Int} (ha : low ≤ a) (hb : b ≤ high) (ha' : low ≤ a')
    (hb' : b' ≤ high) :
    (∀ t, low ≤ t → t ≤ high → (a ≤ t ∧ t ≤ b ↔ a' ≤ t ∧ t ≤ b'))
      ↔ a = a' ∧ b = b' ∨ b' < a' ∧ b < a := by
  refine ⟨fun h => ?_, fun h t hlow hhigh => by omega⟩
  by_cases hsome : a ≤ b
  · have hfirst := (h a ha (by omega)).mp ⟨Int.le_refl a, hsome⟩
    have hlast := (h b (by omega) hb).mp ⟨hsome, Int.le_refl b⟩
    have hfirst' := (h a' ha' (by omega)).mpr ⟨Int.le_refl a', by omega⟩
    have hlast' := (h b' (by omega) hb').mpr ⟨by omega, Int.le_refl b'⟩
    exact .inl ⟨by omega, by omega⟩
  · refine .inr ⟨?_, by omega⟩
    refine Classical.byContradiction fun hsome' => ?_
    have hfirst' := (h a' ha' (by omega)).mpr ⟨Int.le_refl a', by omega⟩
    omega

/-- The bounds of a query are kept exactly if no time that fits is decided otherwise. -/
theorem Query.boundsKept_iff (q : Query) :
    (∀ t : Instant, t.Fits → q.stored.within t = q.within t) ↔ q.BoundsKept := by
  rw [BoundsKept, ← ranges_alike_iff q.stored.earliest_ge q.stored.latest_le q.earliest_ge
    q.latest_le]
  refine ⟨fun h n hlow hhigh => ?_, fun h t ht => ?_⟩
  · have ht : Instant.Fits ⟨n⟩ := ⟨hlow, hhigh⟩
    have halike := h ⟨n⟩ ht
    rw [Bool.eq_iff_iff, within_iff ht, within_iff ht] at halike
    exact halike
  · rw [Bool.eq_iff_iff, within_iff ht, within_iff ht]
    exact h t.nanos ht.1 ht.2

/-- Bounds that fit are held as they are. -/
theorem Query.Fits.stored_eq (hq : q.Fits) : q.stored = q := by
  have hheld : ∀ bound : Option Instant, (∀ t ∈ bound, t.Fits) →
      bound.map Instant.stored = bound := by
    intro bound hfits
    cases bound with
    | none => rfl
    | some t => exact congrArg (fun n => some (Instant.mk n)) (hfits t rfl).unixNano_eq
  unfold stored
  rw [hheld _ hq.1, hheld _ hq.2]

/-! ## Any database -/

/-- A record of a given time that every other filter of a query wants. -/
def Query.sample (q : Query) (t : Instant) : Record where
  id := q.ids.headD []
  status := q.status
  errorType := q.errorType
  origin := q.origin
  inputHash := q.inputHash
  createdAt := ⟨t, 0⟩

/-- Whether the sample of a query is wanted depends on its time alone. -/
theorem Query.admits_sample (q : Query) (t : Instant) :
    q.unbounded.admits (q.sample t) = true := by
  unfold unbounded admits asks sample
  cases q.ids <;> simp

/-- A memory with one record. -/
def Memory.single (r : Record) : Memory := ⟨[r], by simp⟩

/-- A database with one record. -/
def Connection.single (r : Record) : Connection where
  database := { table := ⟨[Row.ofRecord r], by simp⟩ }

theorem holds_single (hr : r.createdAt.instant.Fits) :
    Holds (Memory.single r) (Connection.single r) where
  isOpen := rfl
  rows := .refl _
  fits s hs := by
    obtain rfl := List.mem_singleton.mp hs
    exact hr

/-- **When a database selects by time as it should.** A database always answers a query as if its
bounds, wrapped to 64 bits, had been asked for. So it answers a query by the instants of its records
exactly if the wrapped bounds decide about each of them like the bounds themselves; and a query is
answered so by every database exactly if its bounds are kept. Bounds that fit are. -/
theorem bounds_exact_iff (q : Query) :
    (∀ m c, Holds m c → Answers c q m q.stored)
      ∧ (∀ m c, Holds m c →
        (Answers c q m q ↔ ∀ r ∈ m.records, q.stored.admits r = q.admits r))
      ∧ ((∀ m c, Holds m c → Answers c q m q) ↔ q.BoundsKept)
      ∧ (q.Fits → q.BoundsKept) := by
  refine ⟨fun m c h => h.answers_stored q, fun m c h => h.answers_iff q, ?_, fun hq => ?_⟩
  · rw [← q.boundsKept_iff]
    refine ⟨fun hexact t ht => ?_, fun hkept m c h => (h.answers_iff q).mpr fun r hr => ?_⟩
    · -- a database with nothing but the sample of this time shows how the time is decided
      have hholds := holds_single (r := q.sample t) ht
      have halike := (hholds.answers_iff q).mp (hexact _ _ hholds) _ List.mem_cons_self
      rw [q.admits_stored, q.admits_eq, q.admits_sample, Bool.and_true, Bool.and_true] at halike
      exact halike
    · rw [q.admits_stored, q.admits_eq, hkept _ (h.fits r hr)]
  · unfold Query.BoundsKept
    rw [hq.stored_eq]
    exact .inl ⟨rfl, rfl⟩

/-- The parameters that ask for all records up to the end of the year 9999. -/
def farParameters : Query.Values := [("until", ["9999-12-31T23:59:59Z"])]

/-- The query for all records up to the end of the year 9999. -/
def farUntil : Query := { endTime := some (.ofDate ⟨9999, 12, 31⟩ 86399000000000) }

/-- The bound wraps to a time before 1970, so that a database with a record of that year finds
nothing, where a memory with the same record finds it. -/
theorem farUntil_finds_nothing :
    Query.ofValues farParameters Instant.zero = .ok farUntil
      ∧ Holds (.single (early "a" [])) (.single (early "a" []))
      ∧ Connection.storage.count (.single (early "a" [])) farUntil = .ok 0
      ∧ Memory.storage.count (.single (early "a" [])) farUntil = .ok 1
      ∧ ¬ Answers (.single (early "a" [])) farUntil (.single (early "a" [])) farUntil
      ∧ ¬ farUntil.BoundsKept := by
  have hholds : Holds (.single (early "a" [])) (.single (early "a" [])) :=
    holds_single (by simp [Instant.Fits, early, Number.minInt, Number.maxInt])
  obtain ⟨hstored, hexact, -, -⟩ := bounds_exact_iff farUntil
  have hcount := (hstored _ _ hholds).count
  have hnone : (Memory.single (early "a" [])).count farUntil.stored = 0 := by decide
  refine ⟨rfl, hholds, hnone ▸ hcount, rfl, fun hanswers => ?_, by decide⟩
  have halike := (hexact _ _ hholds).mp hanswers _ List.mem_cons_self
  exact absurd halike (by decide)

end History

end MathMarkup
