import MathMarkup.History.Retention
import MathMarkup.Proofs.Backends

/-!
# What pruning leaves

Of the records in memory those are left that are not too old, and of these the newest, as many as
there may be (`prune_leaves`). Records of one time are told apart by their identifiers, so that the
number is met exactly: the order in which the oldest records are asked for (`Record.Before`) decides
between any two of them, and they are removed by their identifiers, which belong to no other record.
How far back a number of days reaches is up to the calendar of the clock, of which nothing is
assumed.

Both steps are described alike: they leave a part of the records, and the number they return is that
of the records they do not leave. Where all records may stay they do nothing (`pruneByAge_idle`,
`pruneByCount_idle`), and what they leave is such a memory. So pruning a second time does nothing.
-/

namespace MathMarkup.History

open Time (Calendar Instant)

variable {calendar : Calendar} {m : Memory} {policy : RetentionConfig} {now : Instant}

/-! ## The order of records -/

/-- A record comes before another: it was created earlier, or at the same time under a smaller
identifier. -/
def Record.Before (a b : Record) : Prop :=
  a.createdAt.instant < b.createdAt.instant
    ∨ a.createdAt.instant = b.createdAt.instant ∧ a.id < b.id

namespace Memory

open Retention (oldest)

/-- The oldest records are asked for upwards. -/
theorem oldest_isAscending (n : Int) : (oldest n).isAscending = true := by
  have : Text.equalFold "asc" "asc" = true := by decide
  exact this

/-- The places at which the oldest records are asked for. -/
theorem before_of_place_lt {n : Int} {a b : Record}
    (h : ((oldest n).place a).Lt ((oldest n).place b)) : a.Before b :=
  h.imp id fun ⟨hnanos, hid⟩ => ⟨congrArg Instant.mk hnanos, hid⟩

/-- **The oldest records are asked for in their order**, and no two of them stand in one place. -/
theorem selected_oldest (m : Memory) (n : Int) :
    (m.selected (oldest n)).Perm m.records
      ∧ (m.selected (oldest n)).Pairwise Record.Before := by
  have hall : m.records.filter (oldest n).admits = m.records :=
    List.filter_eq_self.mpr fun r _ => rfl
  have hstrict := m.selected_strict (oldest n)
  rw [if_pos (oldest_isAscending n)] at hstrict
  exact ⟨(m.selected_perm (oldest n)).trans (.of_eq hall), hstrict.imp before_of_place_lt⟩

theorem query_oldest (m : Memory) {k : Nat} (hk : 0 < k) :
    m.query (oldest k) = .ok ((m.selected (oldest k)).take k) := by
  have hlimit : 0 < (oldest k).limit := Int.natCast_pos.mpr hk
  have hpage := page_eq (oldest k) (m.selected (oldest k))
  rw [if_pos hlimit] at hpage
  exact congrArg Except.ok hpage

/-! ## Removing records -/

/-- A memory that loses no record. -/
theorem filter_eq_self {p : Record → Bool} (h : ∀ r ∈ m.records, p r = true) : m.filter p = m := by
  unfold filter
  cases m
  congr
  exact List.filter_eq_self.mpr h

theorem filter_sublist (m : Memory) (p : Record → Bool) :
    (m.filter p).records.Sublist m.records :=
  List.filter_sublist

/-- The number that is returned is that of the records that are gone. -/
theorem count_add_size (m : Memory) (q : Query) : m.count q + (m.delete q).2.size = m.size :=
  (List.length_eq_length_filter_add q.admits).symm

theorem count_all (m : Memory) : m.count {} = m.size :=
  congrArg List.length (List.filter_eq_self.mpr fun _ _ => rfl)

/-- **Removal by identifiers** of records in memory removes these and no others. -/
theorem delete_ids_perm {gone kept : List Record} (hperm : (gone ++ kept).Perm m.records)
    (hgone : gone ≠ []) : (m.delete { ids := gone.map Record.id }).2.records.Perm kept := by
  have hadmits : ∀ r ∈ m.records,
      (!Query.admits { ids := gone.map Record.id } r) = decide (r ∉ gone) := by
    intro r hr
    have hnonempty : (gone.map Record.id).isEmpty = false := by
      cases gone with
      | nil => exact absurd rfl hgone
      | cons => rfl
    have hmem : r.id ∈ gone.map Record.id ↔ r ∈ gone := by
      refine ⟨fun h => ?_, List.mem_map_of_mem⟩
      obtain ⟨s, hs, hid⟩ := List.mem_map.mp h
      have hsm : s ∈ m.records := hperm.mem_iff.mp (List.mem_append_left kept hs)
      rwa [← List.inj_on_of_nodup_map m.distinct hsm hr hid]
    simp [Query.admits, Query.asks, hnonempty, hmem]
  have hnodup : (gone ++ kept).Nodup := hperm.nodup_iff.mpr (List.Nodup.of_map _ m.distinct)
  have hnone : gone.filter (fun r => decide (r ∉ gone)) = [] :=
    List.filter_eq_nil_iff.mpr fun r hr => by simpa using hr
  have hall : kept.filter (fun r => decide (r ∉ gone)) = kept :=
    List.filter_eq_self.mpr fun r hr => by
      simpa using fun hmem => hnodup.disjoint hmem hr
  have hfilter := hperm.filter fun r => decide (r ∉ gone)
  rw [List.filter_append, hnone, hall, List.nil_append] at hfilter
  refine List.Perm.trans (.of_eq ?_) hfilter.symm
  exact List.filter_congr hadmits

end Memory

/-! ## The two steps -/

namespace Retention

/-- Whether a record is young enough for a policy: it was created after the instant that, by the
calendar of the clock, lies the days of the policy before now. -/
def Fresh (calendar : Calendar) (policy : RetentionConfig) (now : Instant) (r : Record) : Prop :=
  0 < policy.days → calendar now (-policy.days) < r.createdAt.instant

instance (calendar : Calendar) (policy : RetentionConfig) (now : Instant) (r : Record) :
    Decidable (Fresh calendar policy now r) :=
  inferInstanceAs (Decidable (_ → _))

/-- The newest of records in their order, as many as a policy allows. -/
def newest (policy : RetentionConfig) (rs : List Record) : List Record :=
  if 0 < policy.maxRecords then rs.drop (rs.length - policy.maxRecords.toNat) else rs

/-- One of the steps took a memory to another: it removed records and counted them. -/
structure Removed (m : Memory) (n : Nat) (m' : Memory) : Prop where
  sublist : m'.records.Sublist m.records
  counted : n + m'.size = m.size

theorem Removed.trans {m₁ m₂ m₃ : Memory} {n k : Nat} (h : Removed m₁ n m₂)
    (h' : Removed m₂ k m₃) : Removed m₁ (n + k) m₃ := by
  refine ⟨h'.sublist.trans h.sublist, ?_⟩
  have := h.counted
  have := h'.counted
  omega

/-- A step that leaves all records does nothing. -/
theorem Removed.eq_of_records {m' : Memory} {n : Nat} (h : Removed m n m')
    (heq : m'.records = m.records) : n = 0 ∧ m' = m := by
  refine ⟨?_, ?_⟩
  · have := h.counted
    unfold Memory.size at this
    rw [heq] at this
    omega
  · cases m
    cases m'
    subst heq
    rfl

theorem removed_none (m : Memory) : Removed m 0 m := ⟨List.Sublist.refl _, Nat.zero_add _⟩

theorem removed_delete (m : Memory) (q : Query) : Removed m (m.count q) (m.delete q).2 :=
  ⟨m.filter_sublist _, m.count_add_size q⟩

theorem pruneByAge_memory (calendar : Calendar) (m : Memory) (policy : RetentionConfig)
    (now : Instant) :
    ∃ n m', pruneByAge calendar Memory.storage policy now m = .ok (n, m') ∧ Removed m n m'
      ∧ m'.records
        = m.records.filter fun r => decide (calendar now (-policy.days) < r.createdAt.instant) := by
  refine ⟨_, _, rfl, removed_delete m _, List.filter_congr fun r _ => ?_⟩
  rw [Bool.eq_iff_iff]
  simp only [Query.admits, Query.asks, Option.all_none, Option.all_some, List.isEmpty_nil,
    Bool.true_or, Bool.and_true, Bool.true_and, Bool.not_eq_true', decide_eq_false_iff_not,
    decide_eq_true_eq]
  exact Int.not_le

/-- Records that are young enough all stay. -/
theorem pruneByAge_idle
    (h : ∀ r ∈ m.records, calendar now (-policy.days) < r.createdAt.instant) :
    pruneByAge calendar Memory.storage policy now m = .ok (0, m) := by
  obtain ⟨n, m', hrun, hremoved, hrecords⟩ := pruneByAge_memory calendar m policy now
  have hall : m'.records = m.records := by
    rw [hrecords]
    exact List.filter_eq_self.mpr fun r hr => decide_eq_true (h r hr)
  obtain ⟨rfl, rfl⟩ := hremoved.eq_of_records hall
  exact hrun

/-- Records that are not too many all stay. -/
theorem pruneByCount_idle (h : (m.size : Int) ≤ policy.maxRecords) :
    pruneByCount Memory.storage policy m = .ok (0, m) := by
  simp only [pruneByCount, Memory.storage, m.count_all]
  exact if_pos h

/-- **As many records are left as there may be**, the newest ones. -/
theorem pruneByCount_memory (m : Memory) (hmax : 0 < policy.maxRecords) :
    ∃ n m' sorted, pruneByCount Memory.storage policy m = .ok (n, m') ∧ Removed m n m'
      ∧ sorted.Perm m.records ∧ sorted.Pairwise Record.Before
      ∧ m'.records.Perm (newest policy sorted) := by
  have hcount := m.count_all
  by_cases hfew : (m.size : Int) ≤ policy.maxRecords
  · obtain ⟨hperm, hsorted⟩ := m.selected_oldest 0
    refine ⟨0, m, _, pruneByCount_idle hfew, removed_none m, hperm, hsorted, ?_⟩
    have hnone : (m.selected (oldest 0)).length - policy.maxRecords.toNat = 0 := by
      have := hperm.length_eq
      unfold Memory.size at hfew
      omega
    rw [newest, if_pos hmax, hnone]
    exact hperm.symm
  · obtain ⟨k, hk⟩ : ∃ k : Nat, (m.size : Int) - policy.maxRecords = k :=
      Int.eq_ofNat_of_zero_le (by omega)
    obtain ⟨hperm, hsorted⟩ := m.selected_oldest k
    have hlength := hperm.length_eq
    change (m.selected (oldest k)).length = m.size at hlength
    have hgone : (m.selected (oldest k)).take k ≠ [] := by
      intro hnil
      have := congrArg List.length hnil
      rw [List.length_take, List.length_nil] at this
      omega
    have hrun : pruneByCount Memory.storage policy m
        = .ok (m.delete { ids := ((m.selected (oldest k)).take k).map Record.id }) := by
      simp only [pruneByCount, Memory.storage, hcount]
      refine (if_neg hfew).trans ?_
      rw [hk, m.query_oldest (by omega)]
      cases htake : (m.selected (oldest k)).take k with
      | nil => exact absurd htake hgone
      | cons r rest => rfl
    refine ⟨_, _, _, hrun, removed_delete m _, hperm, hsorted, ?_⟩
    have hkeep : (m.selected (oldest k)).length - policy.maxRecords.toNat = k := by omega
    rw [newest, if_pos hmax, hkeep]
    exact Memory.delete_ids_perm (by rwa [List.take_append_drop]) hgone

/-! ## Pruning -/

theorem step_skip {σ : Type} {name : Text} {limit : Int} {run : σ → Except Fault (Nat × σ)}
    {before : Pruned σ} (h : ¬ 0 < limit) : step name policy limit run before = before := by
  unfold step
  rw [if_pos]
  simp only [Bool.or_eq_true, decide_eq_true_eq]
  omega

theorem step_ok {σ : Type} {name : Text} {limit : Int} {run : σ → Except Fault (Nat × σ)}
    {s s' : σ} {k n : Nat} (h : 0 < limit) (hrun : run s = .ok (n, s')) :
    step name policy limit run { state := s, deleted := k }
      = { state := s', deleted := k + n } := by
  unfold step
  rw [if_neg (by simpa using h), hrun]

/-- What the step by age leaves, also where there is no limit to the age. -/
theorem step_age (calendar : Calendar) (m : Memory) (policy : RetentionConfig) (now : Instant) :
    ∃ n m', step "prune by age failed" policy policy.days
        (pruneByAge calendar Memory.storage policy now) { state := m, deleted := 0 }
          = { state := m', deleted := n }
      ∧ Removed m n m'
      ∧ m'.records = m.records.filter fun r => decide (Fresh calendar policy now r) := by
  by_cases hdays : 0 < policy.days
  · obtain ⟨n, m', hrun, hremoved, hrecords⟩ := pruneByAge_memory calendar m policy now
    refine ⟨n, m', ?_, hremoved, ?_⟩
    · rw [step_ok hdays hrun, Nat.zero_add]
    · rw [hrecords]
      exact List.filter_congr fun r _ => by simp [Fresh, hdays]
  · refine ⟨0, m, step_skip hdays, removed_none m, ?_⟩
    exact (List.filter_eq_self.mpr fun r _ => by simp [Fresh, hdays]).symm

/-- What the step by number leaves, also where there is no limit to the number. -/
theorem step_count (m : Memory) (policy : RetentionConfig) (k : Nat) :
    ∃ n m' sorted, step "prune by count failed" policy policy.maxRecords
        (pruneByCount Memory.storage policy) { state := m, deleted := k }
          = { state := m', deleted := k + n }
      ∧ Removed m n m' ∧ sorted.Perm m.records ∧ sorted.Pairwise Record.Before
      ∧ m'.records.Perm (newest policy sorted) := by
  by_cases hmax : 0 < policy.maxRecords
  · obtain ⟨n, m', sorted, hrun, hleft⟩ := pruneByCount_memory m hmax
    exact ⟨n, m', sorted, step_ok hmax hrun, hleft⟩
  · obtain ⟨hperm, hsorted⟩ := m.selected_oldest 0
    refine ⟨0, m, _, step_skip hmax, removed_none m, hperm, hsorted, ?_⟩
    rw [newest, if_neg hmax]
    exact hperm.symm

/-- Where all records may stay pruning does nothing. -/
theorem prune_idle (hfresh : ∀ r ∈ m.records, Fresh calendar policy now r)
    (hfew : 0 < policy.maxRecords → (m.size : Int) ≤ policy.maxRecords) :
    prune calendar Memory.storage policy now m = { state := m, deleted := 0 } := by
  have hage : step "prune by age failed" policy policy.days
      (pruneByAge calendar Memory.storage policy now) { state := m, deleted := 0 }
        = { state := m, deleted := 0 } := by
    by_cases hdays : 0 < policy.days
    · exact step_ok hdays (pruneByAge_idle fun r hr => hfresh r hr hdays)
    · exact step_skip hdays
  unfold prune
  rw [hage]
  by_cases hmax : 0 < policy.maxRecords
  · exact step_ok hmax (pruneByCount_idle (hfew hmax))
  · exact step_skip hmax

theorem length_newest_le (rs : List Record) (hmax : 0 < policy.maxRecords) :
    ((newest policy rs).length : Int) ≤ policy.maxRecords := by
  rw [newest, if_pos hmax, List.length_drop]
  omega

/-- **What pruning leaves.** Pruning records in memory succeeds, by any calendar. It leaves those
that are young enough, if there is a limit to their age, and of these the last ones in the order of
their times and identifiers, if there is a limit to their number; it changes none of them and
returns the number of those it removes. Doing it again at the same time removes nothing. -/
theorem prune_leaves (calendar : Calendar) (m : Memory) (policy : RetentionConfig)
    (now : Instant) :
    (prune calendar Memory.storage policy now m).fault = []
      ∧ (∃ sorted : List Record,
        sorted.Perm (m.records.filter fun r => decide (Fresh calendar policy now r))
          ∧ sorted.Pairwise Record.Before
          ∧ (prune calendar Memory.storage policy now m).state.records.Perm
            (newest policy sorted))
      ∧ (prune calendar Memory.storage policy now m).state.records.Sublist m.records
      ∧ (prune calendar Memory.storage policy now m).deleted
          + (prune calendar Memory.storage policy now m).state.size = m.size
      ∧ prune calendar Memory.storage policy now
            (prune calendar Memory.storage policy now m).state
          = { state := (prune calendar Memory.storage policy now m).state, deleted := 0 } := by
  obtain ⟨n₁, m₁, hage, hremoved₁, hfresh⟩ := step_age calendar m policy now
  obtain ⟨n₂, m₂, sorted, hcount, hremoved₂, hperm, hsorted, hleft⟩ := step_count m₁ policy n₁
  have hprune : prune calendar Memory.storage policy now m
      = { state := m₂, deleted := n₁ + n₂ } := by
    unfold prune
    rw [hage]
    exact hcount
  have hremoved := hremoved₁.trans hremoved₂
  rw [hprune]
  refine ⟨rfl, ⟨sorted, ?_, hsorted, hleft⟩, hremoved.sublist, hremoved.counted, ?_⟩
  · rwa [← hfresh]
  · refine prune_idle (fun r hr => ?_) fun hmax => ?_
    · have hold := hremoved₂.sublist.mem hr
      rw [hfresh] at hold
      exact of_decide_eq_true (List.mem_filter.mp hold).2
    · have hle := length_newest_le sorted hmax
      rwa [← hleft.length_eq] at hle

/-- A record created a number of nanoseconds after the start of 1970. -/
def createdAfter (nanos : Int) (id : Text) : Record := { id, createdAt.instant := ⟨nanos⟩ }

/-- Records of the first and of the second instant of 1970, and of two days later. -/
def firstDays : Memory :=
  ⟨[createdAfter 0 "first", createdAfter 1 "second", createdAfter (2 * Instant.dayNanos) "last"],
    by decide⟩

/-- A policy that keeps records for a week. -/
def oneWeek : RetentionConfig := { days := 7 }

/-- The first instant of the 8th of January 1970. -/
def weekLater : Instant := ⟨7 * Instant.dayNanos⟩

/-- A record goes when it is a week old to the nanosecond, and none that is younger. -/
theorem oneWeek_leaves_younger :
    ¬ Fresh .utc oneWeek weekLater (createdAfter 0 "first")
      ∧ (prune .utc Memory.storage oneWeek weekLater firstDays).state.records
        = [createdAfter 1 "second", createdAfter (2 * Instant.dayNanos) "last"]
      ∧ (prune .utc Memory.storage oneWeek weekLater firstDays).deleted = 1 := by
  have hfresh : firstDays.records.filter (fun r => decide (Fresh .utc oneWeek weekLater r))
      = [createdAfter 1 "second", createdAfter (2 * Instant.dayNanos) "last"] := rfl
  obtain ⟨-, ⟨sorted, hperm, -, hleft⟩, hsublist, hcounted, -⟩ :=
    prune_leaves .utc firstDays oneWeek weekLater
  rw [hfresh] at hperm
  have hsize : (prune .utc Memory.storage oneWeek weekLater firstDays).state.size = 2 :=
    (hleft.trans hperm).length_eq
  refine ⟨by decide, ?_, ?_⟩
  · -- a part of the records that is a rearrangement of the young ones is these in their order
    have hyoung := hsublist.filter fun r => decide (Fresh .utc oneWeek weekLater r)
    have hall : ∀ r ∈ (prune .utc Memory.storage oneWeek weekLater firstDays).state.records,
        decide (Fresh .utc oneWeek weekLater r) = true := by
      intro r hr
      have hmem := (hleft.trans hperm).mem_iff.mp hr
      rw [← hfresh] at hmem
      obtain ⟨-, hdecided⟩ := List.mem_filter.mp hmem
      exact hdecided
    rw [hfresh, List.filter_eq_self.mpr hall] at hyoung
    exact hyoung.eq_of_length hsize
  · have htotal : firstDays.size = 3 := rfl
    omega

-- Of three records of one time the one with the smallest identifier goes.
example : (prune .utc Memory.storage { maxRecords := 2 } Instant.zero
      ⟨[{ id := "c" }, { id := "a" }, { id := "b" }], by decide⟩).state.records.map Record.id
    = ["c", "b"] := by cbv

end Retention

end MathMarkup.History
