import MathMarkup.Config.Basic
import MathMarkup.Failure.Fault
import MathMarkup.Number.Fixed

/-!
# Traces

Work is traced as spans that know the span around them. A request may bring the identifiers of a
trace along, in the format of W3C trace context; the reader of that header and the check of its
shape are two things, and the reader is the stricter one.
-/

namespace MathMarkup.Telemetry

/-! ## Spans -/

/-- How a span ended. -/
inductive SpanStatus where
  | unset
  | error
  | ok
deriving DecidableEq, Repr

/-- The rank of a status: a status is not replaced by one of lower rank. -/
def SpanStatus.rank : SpanStatus → Nat
  | unset => 0
  | error => 1
  | ok => 2

/-- The name of a status. -/
def SpanStatus.name : SpanStatus → Text
  | unset => "Unset"
  | error => "Error"
  | ok => "Ok"

/-- A piece of traced work. -/
structure TraceSpan where
  name : Text
  /-- The name of the span around it, empty if there is none. -/
  parent : Text := []
  attributes : List (Text × Text) := []
  status : SpanStatus := .unset
  description : Text := []
  events : List Text := []
deriving DecidableEq, Repr

namespace TraceSpan

/-- A span with further attributes. -/
def withAttributes (s : TraceSpan) (as : List (Text × Text)) : TraceSpan :=
  { s with attributes := s.attributes ++ as }

/-- A span with an event. -/
def withEvent (s : TraceSpan) (name : Text) : TraceSpan := { s with events := s.events ++ [name] }

/-- A span with a status, unless it has one of higher rank; only errors are described. -/
def withStatus (s : TraceSpan) (status : SpanStatus) (description : Text) : TraceSpan :=
  if status.rank < s.status.rank then s
  else { s with status, description := if status = .error then description else [] }

/-- The span of work that failed. -/
def failed (s : TraceSpan) (f : Fault) (errorType : Text) : TraceSpan :=
  ((s.withAttributes [("error", "true"), ("texsolve.error.type", errorType)]).withEvent
    "exception").withStatus .error f.message

/-- The span of work that succeeded. -/
def succeeded (s : TraceSpan) : TraceSpan := s.withStatus .ok []

end TraceSpan

/-! ## Sampling -/

/-- Which traces are kept. -/
inductive Sampler where
  | always
  | never
  | ratio (r : Float)

/-- The sampler that the configuration names. -/
def Sampler.ofConfig (c : TracingConfig) : Except Fault Sampler :=
  if c.sampler == Text.ofString "always" then .ok .always
  else if c.sampler == Text.ofString "never" then .ok .never
  else if c.sampler == Text.ofString "ratio" then
    if c.sampleRatio < 0 || c.sampleRatio > 1 then
      .error [.note "failed to create sampler",
        .plain ("sample ratio must be between 0.0 and 1.0, got " ++ Number.fixed 6 c.sampleRatio)]
    else .ok (.ratio c.sampleRatio)
  else
    .error [.note "failed to create sampler",
      .plain ("unknown sampler strategy: " ++ c.sampler ++ " (valid: always, never, ratio)")]

/-- Whether a trace is kept whose identifier, read as a fraction below one, is `draw`. -/
def Sampler.keeps (s : Sampler) (draw : Float) : Bool :=
  match s with
  | always => true
  | never => false
  | ratio r => draw < r

/-- A tracer, which is switched off or samples. -/
abbrev Tracer := Option Sampler

/-- The tracer of a configuration; one that is switched off needs no sampler. `forced` switches it
on. -/
def Tracer.ofConfig (c : Option TracingConfig) (forced : Bool) : Except Fault Tracer :=
  match c with
  | none => .error [.plain "tracing config is nil"]
  | some c => if c.enabled || forced then (Sampler.ofConfig c).map some else .ok none

/-! ## Trace context -/

/-- The identifiers that a request brings along. -/
structure TraceContext where
  traceId : Text
  spanId : Text
  sampled : Bool
deriving DecidableEq, Repr

namespace TraceContext

/-- Whether a text has a length and hexadecimal digits only, in either case. -/
def isHex (n : Nat) (t : Text) : Bool := t.length == n && t.all fun b => (Text.hexValue? b).isSome

/-- Whether a text has a length and hexadecimal digits without capitals only. -/
def isLowerHex (n : Nat) (t : Text) : Bool :=
  isHex n t && t.all fun b => !(Text.byte 'A' ≤ b && b ≤ Text.byte 'F')

/-- Whether a text has something else than zeros in it. -/
def isNonZero (t : Text) : Bool := t.any (· != Text.byte '0')

/-- Whether a header has the shape of a trace context: four parts of hexadecimal digits, neither
identifier zero. -/
def hasShape (t : Text) : Bool :=
  match Text.splitByte (Text.byte '-') t with
  | [version, traceId, spanId, flags] =>
    isHex 2 version && isHex 32 traceId && isHex 16 spanId && isHex 2 flags && isNonZero traceId
      && isNonZero spanId
  | _ => false

/-- The value of hexadecimal digits. -/
def hexNat (t : Text) : Nat := t.foldl (fun n b => n * 16 + (Text.hexValue? b).getD 0) 0

/-- Whether what follows the flags is allowed: nothing, or an empty part; newer versions may bring
more. -/
def restAllowed (version : Nat) (flags : Nat) (rest : List Text) : Bool :=
  version != 0 || (flags ≤ 2 && (rest.isEmpty || rest == [[]]))

/-- Reads a trace context. -/
def read? (t : Text) : Option TraceContext :=
  match Text.splitByte (Text.byte '-') t with
  | version :: traceId :: spanId :: flags :: rest =>
    if isLowerHex 2 version && version != Text.ofString "ff" && isLowerHex 32 traceId
        && isLowerHex 16 spanId && isLowerHex 2 flags && isNonZero traceId && isNonZero spanId
        && restAllowed (hexNat version) (hexNat flags) rest then
      some ⟨traceId, spanId, hexNat flags % 2 == 1⟩
    else none
  | _ => none

/-- A trace context as a header. -/
def text (c : TraceContext) : Text :=
  "00-" ++ c.traceId ++ "-" ++ c.spanId ++ (if c.sampled then "-01" else "-00")

end TraceContext

end MathMarkup.Telemetry
