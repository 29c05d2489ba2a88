import MathMarkup.Engine.Basic
import MathMarkup.History.Recorder

/-!
# The engine at work

A service is an engine with a recorder, and with everything its requests have left behind so far:
measurements, spans and log entries.
-/

namespace MathMarkup.Engine

open Telemetry (Measurement TraceSpan LogEntry Attribute noting)
open History (Recorder Storage Record)

/-- Where the names of things and the time come from. -/
structure Surroundings where
  /-- A name that nothing else has. -/
  fresh : Text
  /-- The name of the record. -/
  recordName : Text := fresh
  now : Time.Stamp
  /-- How long the work is measured to take. -/
  elapsed : Time.Duration := 0
  traceId : Text := []

/-- What a service answers: an outcome, its fault, and what is left of asking whether the work is
cancelled. -/
structure Reply where
  outcome : Outcome
  fault : Fault
  left : Cancellation

/-- An engine with a recorder over a store whose state is `σ`. -/
structure Service (σ : Type) where
  config : ConverterConfig
  /-- The longest text that a record holds. -/
  maxField : Int := 0
  recorder : Option (Recorder σ) := none
  measured : List Measurement := []
  spans : List TraceSpan := []
  /-- Entries of the log, in order, with the component they come from. -/
  log : List (Text × LogEntry) := []

namespace Service

variable {σ : Type}

/-- A service after an entry of a component. -/
def logged (s : Service σ) (component : Text) (e : LogEntry) : Service σ :=
  { s with log := s.log ++ [(component, e)] }

/-- A service after a measurement. -/
def measure (s : Service σ) (m : Measurement) : Service σ :=
  { s with measured := s.measured ++ [m] }

/-- Hands a record to the recorder, whose writer stores it. -/
def remember (st : Storage σ) (w : Surroundings) (as : List Attribute) (r : Record)
    (s : Service σ) : Service σ :=
  match s.recorder with
  | none => s
  | some x =>
    let r := Recorder.prepare s.maxField w.recordName w.now r
    let (x, result) := x.record st r .deadline
    let s := { s with recorder := some (x.drain st) }
    match result with
    | .ok _ =>
      s.logged Recorder.componentName
        ⟨.debug, "history record enqueued", noting "record_id" (.text r.id)
          ++ noting "request_id" (.text r.requestId)⟩
    | .error f => s.logged "engine" (LogEntry.failure .warn "failed to record history" as f)

/-- A service after a run. -/
def absorb (st : Storage σ) (w : Surroundings) (r : Request) (run : Run) (s : Service σ) :
    Service σ :=
  let s := { s with
    measured := s.measured ++ run.trail.measured
    spans := s.spans ++ run.trail.spans }.logged "engine" run.entry
  match run.record with
  | none => s
  | some x => s.remember st w (context r w.traceId).attributes x

/-- Converts the input of a request. -/
def convert (st : Storage σ) (w : Surroundings) (cancel : Cancellation) (r : Request)
    (s : Service σ) (why : Fault := [.cancelled]) : Service σ × Reply :=
  let r := r.complete w.fresh
  let run := Engine.convert s.config w.elapsed w.traceId cancel r why
  (s.absorb st w r run, ⟨run.outcome, run.fault, run.left⟩)

/-- Cleans the input of a request. -/
def clean (st : Storage σ) (w : Surroundings) (cancel : Cancellation) (r : Request)
    (s : Service σ) (why : Fault := [.cancelled]) : Service σ × Reply :=
  let r := r.complete w.fresh
  let run := Engine.clean s.config w.elapsed w.traceId cancel r why
  (s.absorb st w r run, ⟨run.outcome, run.fault, run.left⟩)

/-- The entries of the log that have not been taken yet, and the service without them. -/
def takeLog (s : Service σ) : List (Text × LogEntry) × Service σ := (s.log, { s with log := [] })

/-- All measurements, those of the recorder included. -/
def allMeasured (s : Service σ) : List Measurement :=
  s.measured ++ (s.recorder.map (·.measured)).getD []

/-- The state of the store, if there is one. -/
def state? (s : Service σ) : Option σ := s.recorder.map (·.state)

end Service

end MathMarkup.Engine
