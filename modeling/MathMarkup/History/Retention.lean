import MathMarkup.History.Storage

/-!
# Retention

Records are removed once they are older than a number of days, and the oldest ones once there are
more than a number of them. Removal can be asked for or run on a schedule.
-/

namespace MathMarkup.History

open Time (Calendar Instant)

/-- What pruning did: the store after it, how many records it removed, and what stopped it, if
anything did. -/
structure Pruned (σ : Type) where
  state : σ
  deleted : Nat
  fault : Fault := []

namespace Retention

variable {σ : Type}

/-- A fault of pruning. -/
def fault (step : Text) (policy : RetentionConfig) (f : Fault) : Fault :=
  .note step :: .retention policy.days :: f

/-- The latest time of creation that is too old, by the calendar of the clock. -/
def cutoff (calendar : Calendar) (policy : RetentionConfig) (now : Instant) : Instant :=
  calendar now (-policy.days)

/-- Removes the records that are too old. -/
def pruneByAge (calendar : Calendar) (st : Storage σ) (policy : RetentionConfig) (now : Instant)
    (s : σ) : Except Fault (Nat × σ) :=
  st.delete s { endTime := some (cutoff calendar policy now) }

/-- The query for the oldest records. -/
def oldest (n : Int) : Query := { sortBy := "created_at", sortOrder := "asc", limit := n }

/-- Removes the oldest records that are too many, by their identifiers, so that of several records
of one time no more go than have to. -/
def pruneByCount (st : Storage σ) (policy : RetentionConfig) (s : σ) : Except Fault (Nat × σ) := do
  let count ← st.count s {}
  if (count : Int) ≤ policy.maxRecords then pure (0, s)
  else do
    let records ← st.query s (oldest (count - policy.maxRecords))
    match records with
    | [] => pure (0, s)
    | _ => st.delete s { ids := records.map Record.id }

/-- One of the two steps of pruning, after what was done before it; a limit of zero asks for
none. -/
def step (name : Text) (policy : RetentionConfig) (limit : Int)
    (run : σ → Except Fault (Nat × σ)) (before : Pruned σ) : Pruned σ :=
  if limit ≤ 0 || !before.fault.isEmpty then before
  else
    match run before.state with
    | .ok (n, s) => { state := s, deleted := before.deleted + n }
    | .error f => { before with fault := fault name policy f }

/-- Prunes by age and then by number. -/
def prune (calendar : Calendar) (st : Storage σ) (policy : RetentionConfig) (now : Instant)
    (s : σ) : Pruned σ :=
  { state := s, deleted := 0 }
  |> step "prune by age failed" policy policy.days (pruneByAge calendar st policy now)
  |> step "prune by count failed" policy policy.maxRecords (pruneByCount st policy)

end Retention

/-! ## Schedules -/

/-- A scheduler of pruning, stopped or running. -/
structure Scheduler where
  running : Bool := false

namespace Scheduler

/-- Starts a scheduler. Without a schedule or without a limit there is nothing to run. -/
def start (schedule : Config.ScheduleReader) (s : Scheduler) (policy : RetentionConfig) :
    Except Fault Scheduler :=
  if policy.pruneSchedule.isEmpty || (policy.days ≤ 0 && policy.maxRecords ≤ 0) then .ok s
  else if s.running then .ok s
  else
    match schedule policy.pruneSchedule with
    | .ok _ => .ok { running := true }
    | .error message =>
      .error [.note ("invalid cron schedule " ++ policy.pruneSchedule.quote), .plain message]

/-- Stops a scheduler. -/
def stop (_ : Scheduler) : Scheduler := { running := false }

/-- Whether a scheduler knows a next time to run. -/
def hasNext (s : Scheduler) : Bool := s.running

end Scheduler

end MathMarkup.History
