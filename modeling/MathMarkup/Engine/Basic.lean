import MathMarkup.Config.Basic
import MathMarkup.Conversion
import MathMarkup.Failure.Fault
import MathMarkup.History.Record
import MathMarkup.Telemetry.Log
import MathMarkup.Telemetry.Measurement
import MathMarkup.Telemetry.Trace

/-!
# The engine

The engine is what the server, the watcher and the commands convert with: a conversion with a limit
on the size of the input, which leaves measurements, spans, a log entry and a record of the history
behind. What it answers does not depend on what it leaves behind.
-/

namespace MathMarkup.Engine

open Telemetry (Measurement TraceSpan LogEntry Attribute noting RequestContext)

/-! ## Requests and outcomes -/

/-- What is to be converted, and for whom. -/
structure Request where
  input : Text
  /-- Where the request comes from: the command line, the server or the watcher. -/
  origin : Text := []
  requestId : Text := []
deriving DecidableEq, Repr

/-- The origin of requests of the command line. -/
def originCommand : Text := "cli"

/-- The origin of requests of the server. -/
def originServer : Text := "http"

/-- The origin of requests of the watcher. -/
def originWatch : Text := "watch"

/-- A request with the origin and the identifier it has if it brings none. -/
def Request.complete (r : Request) (fresh : Text) : Request :=
  { r with
    requestId := if r.requestId.isEmpty then fresh else r.requestId
    origin := if r.origin.isEmpty then originCommand else r.origin }

/-- What came out, as far as the work got. -/
structure Outcome where
  requestId : Text := []
  output : Text := []
  cleaned : Text := []
  passes : Nat := 0
  nodes : Nat := 0
deriving DecidableEq, Repr

/-- What a piece of work leaves behind. -/
structure Trail where
  measured : List Measurement := []
  /-- Spans in the order in which they ended. -/
  spans : List TraceSpan := []

instance : Append Trail := ⟨fun a b => ⟨a.measured ++ b.measured, a.spans ++ b.spans⟩⟩

/-- An outcome with its fault, which is empty on success, and what was left behind. -/
structure Work where
  outcome : Outcome
  fault : Fault := []
  trail : Trail := {}
  /-- What is left of asking whether the work is cancelled. -/
  left : Cancellation := some 0

/-- Work after which something has been left behind. -/
def Work.after (w : Work) (t : Trail) : Work := { w with trail := t ++ w.trail }

/-! ## Stages -/

/-- The name of the span around a conversion. -/
def convertSpan : Text := "texsolve.convert"

/-- The name of the span around cleaning. -/
def cleanSpan : Text := "texsolve.clean"

/-- The span of a stage within a conversion. -/
def stageSpan {α : Type} (name : Text) (r : Except StageError α) : TraceSpan :=
  let s : TraceSpan := { name, parent := convertSpan }
  match r with
  | .ok _ => s
  | .error e => s.failed (Fault.ofStage e) (Fault.category (Fault.ofStage e)).name

/-- What a stage of a conversion leaves behind. -/
def stageTrail {α : Type} (span stage : Text) (elapsed : Time.Duration) (r : Except StageError α) :
    Trail :=
  ⟨[.stage stage elapsed], [stageSpan span r]⟩

/-- What the cleaning of an input leaves behind. -/
def passTrail (elapsed : Time.Duration) (o : Cleaning.Outcome) : Trail :=
  ⟨[.stage "clean" elapsed, .cleaningPasses o.passes], []⟩

/-- The limits of a configuration. -/
def limits (c : ConverterConfig) : Limits := Limits.ofRequest c.maxCleanPasses c.maxDepth

/-- Whether an input is larger than the configuration allows. -/
def isTooLarge (c : ConverterConfig) (input : Text) : Bool :=
  c.maxInputBytes > 0 && (input.length : Int) > c.maxInputBytes

/-- The fault of an input that is too large. -/
def tooLarge (c : ConverterConfig) (input : Text) : Fault :=
  [.tooLarge input.length c.maxInputBytes]

/-- Runs the stages on an input, unless the work is cancelled before one of them; `why` is what is
then said. -/
def stages (c : ConverterConfig) (elapsed : Time.Duration) (cancel : Cancellation) (input : Text)
    (out : Outcome) (why : Fault := [.cancelled]) : Work :=
  match cancel.check? with
  | none => { outcome := out, fault := why }
  | some cancel =>
    if isTooLarge c input then { outcome := out, fault := tooLarge c input, left := cancel }
    else
      let cleaning := Cleaning.clean (limits c).passes input
      Work.after
        (match cleaning.result with
        | .error e => { outcome := out, fault := Fault.ofReport (e.report input), left := cancel }
        | .ok cleaned =>
          let out := { out with cleaned, passes := cleaning.passes }
          match cancel.check? with
          | none => { outcome := out, fault := why }
          | some cancel =>
            let parsed := Grammar.parse (limits c).depth cleaned
            Work.after
              (match parsed with
              | .error e =>
                { outcome := out, fault := Fault.ofReport (e.report cleaned), left := cancel }
              | .ok tree =>
                let out := { out with nodes := tree.count }
                match cancel.check? with
                | none => { outcome := out, fault := why }
                | some cancel =>
                  let rendered := Solver.render (limits c).depth tree
                  Work.after
                    (match rendered with
                    | .error e =>
                      { outcome := out, fault := Fault.ofReport (e.report cleaned), left := cancel }
                    | .ok output => { outcome := { out with output }, left := cancel })
                    (stageTrail "texsolve.translate" "translate" elapsed rendered))
              (stageTrail "texsolve.parse" "parse" elapsed parsed))
        ⟨[.stage "clean" elapsed, .cleaningPasses cleaning.passes],
          [stageSpan cleanSpan cleaning.result]⟩

/-! ## Whole requests -/

/-- What is done for a request: its outcome, what to log and what to remember. -/
structure Run where
  outcome : Outcome
  fault : Fault
  trail : Trail
  entry : LogEntry
  left : Cancellation
  /-- The record for the history, if there is to be one. -/
  record : Option History.Record := none

/-- What identifies a request in log entries. -/
def context (r : Request) (traceId : Text) : RequestContext := ⟨r.requestId, r.origin, traceId⟩

/-- The attributes of the span around a request. -/
def requestAttributes (r : Request) : List (Text × Text) :=
  [("texsolve.request_id", r.requestId), ("texsolve.origin", r.origin),
    ("texsolve.input.bytes", Text.ofNat r.input.length)]

/-- The attributes of a span after success. -/
def resultAttributes (o : Outcome) : List (Text × Text) :=
  [("texsolve.clean.passes", Text.ofNat o.passes), ("texsolve.ast.nodes", Text.ofNat o.nodes),
    ("texsolve.output.bytes", Text.ofNat o.output.length)]

/-- The number of whole milliseconds of a duration as an attribute. -/
def milliseconds (d : Time.Duration) : List Attribute :=
  noting "duration_ms" (.int (Int.tdiv d 1000000))

/-- The record of a conversion. -/
def recordOf (r : Request) (elapsed : Time.Duration) (o : Outcome) (f : Fault) : History.Record :=
  { requestId := r.requestId, origin := r.origin, input := r.input, cleaned := o.cleaned
    output := o.output, cleanPasses := o.passes, duration := elapsed
    status := if f.isEmpty then History.statusOk else History.statusError
    errorType := f.typeName, errorMessage := f.message }

/-- Converts the input of a complete request. -/
def convert (c : ConverterConfig) (elapsed : Time.Duration) (traceId : Text) (cancel : Cancellation)
    (r : Request) (why : Fault := [.cancelled]) : Run :=
  let w := stages c elapsed cancel r.input { requestId := r.requestId } why
  let span : TraceSpan := { name := convertSpan, attributes := requestAttributes r }
  let as := (context r traceId).attributes
  let record := some (recordOf r elapsed w.outcome w.fault)
  let bytes := r.input.length
  if w.fault.isEmpty then
    { outcome := w.outcome, fault := [], left := w.left, record
      trail := w.trail
        ++ ⟨[.conversion History.statusOk [] elapsed bytes],
          [(span.withAttributes (resultAttributes w.outcome)).succeeded]⟩
      entry := ⟨.debug, "conversion completed",
        as ++ noting "passes" (.int w.outcome.passes)
          ++ noting "nodes" (.int w.outcome.nodes) ++ milliseconds elapsed⟩ }
  else
    let type := w.fault.typeName
    { outcome := w.outcome, fault := w.fault, left := w.left, record
      trail := w.trail
        ++ ⟨[.conversion History.statusError type elapsed bytes], [span.failed w.fault type]⟩
      entry := ⟨.warn, "conversion failed",
        as ++ noting "error_type" (.text type) ++ noting "error" (.text w.fault.message)
          ++ milliseconds elapsed⟩ }

/-- Cleans the input of a complete request. The output is the cleaned text, and nothing is
remembered of it. -/
def clean (c : ConverterConfig) (elapsed : Time.Duration) (traceId : Text) (cancel : Cancellation)
    (r : Request) (why : Fault := [.cancelled]) : Run :=
  let out : Outcome := { requestId := r.requestId }
  let w : Work := match cancel.check? with
    | none => { outcome := out, fault := why }
    | some cancel =>
      if isTooLarge c r.input then { outcome := out, fault := tooLarge c r.input, left := cancel }
      else
        let cleaning := Cleaning.clean (limits c).passes r.input
        let out := { out with passes := cleaning.passes }
        Work.after
          (match cleaning.result with
          | .error e =>
            { outcome := out, fault := Fault.ofReport (e.report r.input), left := cancel }
          | .ok t => { outcome := { out with output := t, cleaned := t }, left := cancel })
          (passTrail elapsed cleaning)
  let span : TraceSpan := { name := cleanSpan, attributes := requestAttributes r }
  let as := (context r traceId).attributes
  if w.fault.isEmpty then
    { outcome := w.outcome, fault := [], left := w.left, trail := w.trail ++ ⟨[], [span.succeeded]⟩
      entry := ⟨.debug, "clean completed",
        as ++ noting "passes" (.int w.outcome.passes) ++ milliseconds elapsed⟩ }
  else
    { outcome := w.outcome, fault := w.fault, left := w.left
      trail := w.trail ++ ⟨[], [span.failed w.fault w.fault.typeName]⟩
      entry := LogEntry.failure .warn "clean failed" as w.fault }

end MathMarkup.Engine
