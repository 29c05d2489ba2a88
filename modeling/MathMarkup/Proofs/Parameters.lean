import MathMarkup.Proofs.Paging

/-!
# Queries from parameters

Parameters are any texts. A query read from them reaches a store only after what is missing has been
filled in and the rest has been checked, in this order: a limit of zero is one that is missing, so
it is replaced before limits are checked, and the checks let through what may be missing.

What has passed is safe for records in memory (`parameters_ask_safely`): its page has a positive
length within the limit and does not start before the first record, so there is an answer, which is
no longer than the page and holds only records that every given parameter asks for (`AskedFor`).
-/

namespace MathMarkup.History

open Time (Instant)

variable {q q' : Query} {c : QueryConfig} {v : Query.Values} {now : Instant}

/-- A run of two steps succeeds only through both. -/
theorem bind_eq_ok {α β : Type} {x : Except Fault α} {f : α → Except Fault β} {b : β}
    (h : x >>= f = .ok b) : ∃ a, x = .ok a ∧ f a = .ok b := by
  cases x with
  | ok a => exact ⟨a, rfl, h⟩
  | error fault => exact absurd h (by simp [bind, Except.bind])

namespace Query

/-! ## Checking -/

/-- A query keeps to the limits of a configuration; orders and filters are known where they are
given. -/
structure Checked (q : Query) (c : QueryConfig) : Prop where
  limit_nonneg : 0 ≤ q.limit
  limit_le : q.limit ≤ c.maxLimit
  offset_nonneg : 0 ≤ q.offset
  sortBy : q.sortBy = [] ∨ q.sortBy ∈ sortFields
  sortOrder : q.sortOrder = [] ∨ q.sortOrder ∈ sortOrders
  start_le_end : ∀ s ∈ q.startTime, ∀ e ∈ q.endTime, s ≤ e
  status : q.status = [] ∨ q.status ∈ statuses
  errorType : q.errorType = [] ∨ q.errorType ∈ errorTypes

theorem isOneOf_iff {t : Text} {known : List Text} :
    isOneOf t known = true ↔ t = [] ∨ t ∈ known := by
  unfold isOneOf
  rw [Bool.or_eq_true, List.isEmpty_iff, List.contains_iff_mem]

/-- Whether bounds are found to be in the wrong order. -/
theorem bounds_ordered_iff :
    ¬ (q.startTime.any fun s => q.endTime.any fun e => e < s) = true
      ↔ ∀ s ∈ q.startTime, ∀ e ∈ q.endTime, s ≤ e := by
  cases q.startTime with
  | none => simp
  | some s =>
      cases q.endTime with
      | none => simp
      | some e =>
          have hle : ¬ e < s ↔ s ≤ e := Int.not_lt
          simp [hle]

/-- A chain of checks goes on if the first one finds nothing. -/
theorem check_eq_none_iff {α : Type} {p : Prop} [Decidable p] {a : α} {rest : Option α} :
    (if p then some a else rest) = none ↔ ¬ p ∧ rest = none := by
  by_cases h : p <;> simp [h]

/-- **The checks find no problem exactly in a checked query.** -/
theorem problem?_eq_none_iff : q.problem? c = none ↔ q.Checked c := by
  have hknown : ∀ (t : Text) (known : List Text),
      ¬ (!isOneOf t known) = true ↔ t = [] ∨ t ∈ known := by
    intro t known
    rw [← isOneOf_iff, Bool.not_eq_true', Bool.not_eq_false]
  unfold problem?
  simp only [check_eq_none_iff, hknown, bounds_ordered_iff, Int.not_lt, and_true]
  exact ⟨fun ⟨h1, h2, h3, h4, h5, h6, h7, h8⟩ => ⟨h1, h2, h3, h4, h5, h6, h7, h8⟩,
    fun h => ⟨h.limit_nonneg, h.limit_le, h.offset_nonneg, h.sortBy, h.sortOrder, h.start_le_end,
      h.status, h.errorType⟩⟩

theorem validate_eq_ok_iff : q.validate c = .ok () ↔ q.Checked c := by
  rw [← problem?_eq_none_iff]
  unfold validate
  cases q.problem? c with
  | none => simp
  | some message => simp

/-- What has been prepared is the query with what was missing filled in, and it is checked. -/
theorem prepared_eq_ok (h : q.prepared c = .ok q') :
    q' = q.applyDefaults c ∧ q'.Checked c := by
  obtain ⟨_, hvalid, h⟩ := bind_eq_ok h
  obtain rfl := Except.ok.inj h
  exact ⟨rfl, validate_eq_ok_iff.mp hvalid⟩

/-! ## Reading -/

theorem parameter_eq_ok_iff {α : Type} {name : Text} {read : Text → Except Text α} {a : α} :
    parameter v name read = .ok a ↔ read (firstValue v name) = .ok a := by
  unfold parameter
  cases read (firstValue v name) with
  | ok b => simp
  | error message => simp

/-- What a query read from parameters asks for. -/
structure ReadFrom (v : Values) (now : Instant) (q : Query) : Prop where
  startTime : readTime now (firstValue v "since") = .ok q.startTime
  endTime : readTime now (firstValue v "until") = .ok q.endTime
  ids : q.ids = (v.lookup (Text.ofString "id")).getD []
  status : q.status = firstValue v "status"
  errorType : q.errorType = firstValue v "error_type"
  origin : q.origin = firstValue v "origin"
  inputHash : q.inputHash = firstValue v "input_hash"

theorem ofValues_readFrom (h : ofValues v now = .ok q) : q.ReadFrom v now := by
  obtain ⟨startTime, hsince, h⟩ := bind_eq_ok h
  obtain ⟨endTime, huntil, h⟩ := bind_eq_ok h
  obtain ⟨limit, -, h⟩ := bind_eq_ok h
  obtain ⟨offset, -, h⟩ := bind_eq_ok h
  obtain rfl := Except.ok.inj h
  exact ⟨parameter_eq_ok_iff.mp hsince, parameter_eq_ok_iff.mp huntil, rfl, rfl, rfl, rfl, rfl⟩

/-! ## Asking -/

/-- Every given parameter asks for a record; a parameter that is empty or missing is not given. -/
structure AskedFor (v : Values) (now : Instant) (r : Record) : Prop where
  since : ∀ t, readTime now (firstValue v "since") = .ok (some t) → t ≤ r.createdAt.instant
  upTo : ∀ t, readTime now (firstValue v "until") = .ok (some t) → r.createdAt.instant ≤ t
  ids : ∀ ids, v.lookup (Text.ofString "id") = some ids → ids ≠ [] → r.id ∈ ids
  status : firstValue v "status" ≠ [] → r.status = firstValue v "status"
  errorType : firstValue v "error_type" ≠ [] → r.errorType = firstValue v "error_type"
  origin : firstValue v "origin" ≠ [] → r.origin = firstValue v "origin"
  inputHash : firstValue v "input_hash" ≠ [] → r.inputHash = firstValue v "input_hash"

theorem asks_iff {wanted actual : Text} :
    asks wanted actual = true ↔ (wanted ≠ [] → actual = wanted) := by
  unfold asks
  rw [Bool.or_eq_true, List.isEmpty_iff, beq_iff_eq, ← Classical.or_iff_not_imp_left]

/-- **A query read from parameters wants the records that they ask for.** -/
theorem ReadFrom.admits_iff (h : q.ReadFrom v now) (r : Record) :
    q.admits r = true ↔ AskedFor v now r := by
  have hstart : (q.startTime.all fun t => t ≤ r.createdAt.instant) = true
      ↔ ∀ t, readTime now (firstValue v "since") = .ok (some t) → t ≤ r.createdAt.instant := by
    rw [h.startTime]
    cases q.startTime <;> simp
  have hend : (q.endTime.all fun t => r.createdAt.instant ≤ t) = true
      ↔ ∀ t, readTime now (firstValue v "until") = .ok (some t) → r.createdAt.instant ≤ t := by
    rw [h.endTime]
    cases q.endTime <;> simp
  have hids : (q.ids.isEmpty || q.ids.contains r.id) = true
      ↔ ∀ ids, v.lookup (Text.ofString "id") = some ids → ids ≠ [] → r.id ∈ ids := by
    rw [h.ids, Bool.or_eq_true, List.isEmpty_iff, List.contains_iff_mem,
      Classical.or_iff_not_imp_left]
    cases v.lookup (Text.ofString "id") <;> simp
  unfold admits
  simp only [Bool.and_eq_true, hstart, hend, hids, asks_iff, h.status, h.errorType, h.origin,
    h.inputHash]
  exact ⟨fun ⟨⟨⟨⟨⟨⟨h1, h2⟩, h3⟩, h4⟩, h5⟩, h6⟩, h7⟩ => ⟨h1, h2, h3, h4, h5, h6, h7⟩,
    fun ⟨h1, h2, h3, h4, h5, h6, h7⟩ => ⟨⟨⟨⟨⟨⟨h1, h2⟩, h3⟩, h4⟩, h5⟩, h6⟩, h7⟩⟩

/-! ## Filling in -/

/-- What is filled in makes a checked query one with a page and an order of its own. -/
structure Bounded (q : Query) (c : QueryConfig) : Prop where
  limit_pos : 1 ≤ q.limit
  limit_le : q.limit ≤ c.maxLimit
  offset_nonneg : 0 ≤ q.offset
  sortBy : q.sortBy = Text.ofString "created_at" ∨ q.sortBy = Text.ofString "duration"
  sortOrder : q.sortOrder = Text.ofString "asc" ∨ q.sortOrder = Text.ofString "desc"
  start_le_end : ∀ s ∈ q.startTime, ∀ e ∈ q.endTime, s ≤ e

theorem filled_ne_nil {t fallback : Text} (h : fallback ≠ []) :
    (if t.isEmpty then fallback else t) ≠ [] := by
  split
  · exact h
  · rename_i hgiven
    rwa [List.isEmpty_iff] at hgiven

theorem bounded_of_checked (hdefault : 1 ≤ c.defaultLimit)
    (h : (q.applyDefaults c).Checked c) : (q.applyDefaults c).Bounded c where
  limit_pos := by
    have hnonneg := h.limit_nonneg
    unfold applyDefaults at hnonneg ⊢
    dsimp only at hnonneg ⊢
    split at hnonneg
    · rwa [if_pos ‹_›]
    · rw [if_neg ‹_›]
      omega
  limit_le := h.limit_le
  offset_nonneg := h.offset_nonneg
  sortBy := by
    have hknown := h.sortBy.resolve_left (filled_ne_nil (by decide))
    exact List.mem_pair.mp hknown
  sortOrder := by
    have hknown := h.sortOrder.resolve_left (filled_ne_nil (by decide))
    exact List.mem_pair.mp hknown
  start_le_end := h.start_le_end

end Query

/-! ## Answering -/

/-- A page with a positive length that does not start before the first record is answered, by no
more records than it may have or than there are. -/
theorem Memory.query_bounded (m : Memory) (hoffset : 0 ≤ q.offset) (hlimit : 1 ≤ q.limit) :
    ∃ rs, m.query q = .ok rs ∧ (rs.length : Int) ≤ q.limit ∧ rs.length ≤ m.count q
      ∧ ∀ r ∈ rs, r ∈ m.records ∧ q.admits r = true := by
  have hquery := query_eq (m := m) hoffset
  rw [if_pos (by omega)] at hquery
  have hpart := (List.take_sublist q.limit.toNat ((m.selected q).drop q.offset.toNat)).trans
    (List.drop_sublist q.offset.toNat (m.selected q))
  refine ⟨_, hquery, ?_, ?_, fun r hr => ?_⟩
  · rw [List.length_take]
    omega
  · rw [← m.length_selected q]
    exact hpart.length_le
  · exact List.mem_filter.mp ((m.selected_perm q).mem_iff.mp (hpart.mem hr))

/-- **Parameters ask safely.** A query that is read from any parameters and passes the checks, once
what is missing has been filled in, has a limit from one up to the largest allowed, an offset that
is not negative, a known field and direction to sort by, and no bounds in the wrong order. So
records in memory answer it, with no more of them than the limit or than there are, and only with
such as every given parameter asks for. -/
theorem parameters_ask_safely (v : Query.Values) (now : Instant) (c : QueryConfig) (q q' : Query)
    (hdefault : 1 ≤ c.defaultLimit) (hread : Query.ofValues v now = .ok q)
    (hprepared : q.prepared c = .ok q') :
    (1 ≤ q'.limit ∧ q'.limit ≤ c.maxLimit)
      ∧ 0 ≤ q'.offset
      ∧ (q'.sortBy = Text.ofString "created_at" ∨ q'.sortBy = Text.ofString "duration")
      ∧ (q'.sortOrder = Text.ofString "asc" ∨ q'.sortOrder = Text.ofString "desc")
      ∧ (∀ s ∈ q'.startTime, ∀ e ∈ q'.endTime, s ≤ e)
      ∧ ∀ m : Memory, ∃ rs, m.query q' = .ok rs
        ∧ (rs.length : Int) ≤ q'.limit
        ∧ rs.length ≤ m.count q'
        ∧ ∀ r ∈ rs, r ∈ m.records ∧ Query.AskedFor v now r := by
  obtain ⟨rfl, hchecked⟩ := Query.prepared_eq_ok hprepared
  have hbounded := Query.bounded_of_checked hdefault hchecked
  refine ⟨⟨hbounded.limit_pos, hbounded.limit_le⟩, hbounded.offset_nonneg, hbounded.sortBy,
    hbounded.sortOrder, hbounded.start_le_end, fun m => ?_⟩
  obtain ⟨rs, hquery, hlength, hcount, hwanted⟩ :=
    m.query_bounded hbounded.offset_nonneg hbounded.limit_pos
  refine ⟨rs, hquery, hlength, hcount, fun r hr => ⟨(hwanted r hr).1, ?_⟩⟩
  -- filling in changes no filter
  exact ((Query.ofValues_readFrom hread).admits_iff r).mp (hwanted r hr).2

/-- Parameters with a limit of zero and a direction in capitals, for failures of the first second of
1970. -/
def earlyFailures : Query.Values :=
  [("limit", ["0", "7"]), ("sort_order", ["ASC"]), ("status", [""]), ("error_type", ["syntax"]),
    ("until", ["1970-01-01T00:00:01Z"])]

/-- The query that is read from them. -/
def earlyFailuresRead : Query :=
  { endTime := some ⟨1000000000⟩, errorType := "syntax", sortOrder := "asc" }

/-- The query that a store sees: the limit of zero has been replaced. -/
def earlyFailuresPrepared : Query :=
  { earlyFailuresRead with limit := 1, sortBy := "created_at" }

/-- A configuration with pages of one record. -/
def oneAtMost : QueryConfig := { defaultLimit := 1, maxLimit := 1 }

/-- The prepared query is answered by the one failure. -/
theorem earlyFailures_ask_safely :
    1 ≤ oneAtMost.defaultLimit
      ∧ Query.ofValues earlyFailures Instant.zero = .ok earlyFailuresRead
      ∧ earlyFailuresRead.prepared oneAtMost = .ok earlyFailuresPrepared
      ∧ earlyFailuresPrepared.limit ≤ oneAtMost.maxLimit
      ∧ Memory.threeTied.query earlyFailuresPrepared = .ok [early "c" "syntax"]
      ∧ Query.AskedFor earlyFailures Instant.zero (early "c" "syntax") := by
  have hdefault : 1 ≤ oneAtMost.defaultLimit := by decide
  have hread : Query.ofValues earlyFailures Instant.zero = .ok earlyFailuresRead := rfl
  have hprepared : earlyFailuresRead.prepared oneAtMost = .ok earlyFailuresPrepared := rfl
  have hone : Memory.threeTied.records.filter earlyFailuresPrepared.admits
      = [early "c" "syntax"] := by decide
  have hquery : Memory.threeTied.query earlyFailuresPrepared = .ok [early "c" "syntax"] := by
    rw [Memory.query_eq (by decide), Memory.selected, hone, List.mergeSort_singleton]
    rfl
  obtain ⟨⟨-, hlimit⟩, -, -, -, -, hanswer⟩ :=
    parameters_ask_safely earlyFailures Instant.zero oneAtMost earlyFailuresRead
      earlyFailuresPrepared hdefault hread hprepared
  obtain ⟨rs, hrs, -, -, hasked⟩ := hanswer Memory.threeTied
  obtain rfl := Except.ok.inj (hquery.symm.trans hrs)
  exact ⟨hdefault, hread, hprepared, hlimit, hquery, (hasked _ List.mem_cons_self).2⟩

end MathMarkup.History
