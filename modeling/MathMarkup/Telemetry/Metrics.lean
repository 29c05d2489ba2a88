import MathMarkup.Config.Basic
import MathMarkup.Number.Shortest
import MathMarkup.Telemetry.Measurement
import MathMarkup.Text.Quoted

/-!
# Metrics

The summary of measurements as families of counters, gauges and histograms, in the text format that
is scraped from servers. Families stand in the order of their names and samples in the order of
their labels.
-/

namespace MathMarkup.Telemetry

/-- Counts of observations up to each of some bounds, and their sum. -/
structure Histogram where
  bounds : List Float
  observations : List Float

namespace Histogram

/-- The number of observations. -/
def count (h : Histogram) : Nat := h.observations.length

/-- The sum of the observations. -/
def sum (h : Histogram) : Float := h.observations.foldl (· + ·) 0

/-- The number of observations that are at most a bound. -/
def upTo (h : Histogram) (bound : Float) : Nat := (h.observations.filter (· ≤ bound)).length

end Histogram

/-- What a sample holds. -/
inductive Reading where
  | value (n : Nat)
  | histogram (h : Histogram)

/-- Labels with their values, in the order of their names. -/
abbrev Labels := List (Text × Text)

/-- A reading under labels. -/
structure Sample where
  labels : Labels := []
  reading : Reading

/-- The kinds of families. -/
inductive FamilyKind where
  | counter
  | gauge
  | histogram
deriving DecidableEq, Repr

/-- The name of a kind. -/
def FamilyKind.name : FamilyKind → Text
  | counter => "counter"
  | gauge => "gauge"
  | histogram => "histogram"

/-- Samples of one name. -/
structure Family where
  name : Text
  help : Text
  kind : FamilyKind
  samples : List Sample

/-! ## From measurements to families -/

/-- Whether the values of some labels come before those of others. -/
def labelsLe : Labels → Labels → Bool
  | [], _ => true
  | _ :: _, [] => false
  | (_, a) :: as, (_, b) :: bs => a < b || (a == b && labelsLe as bs)

/-- The different labels among some, in order. -/
def distinctLabels (ls : List Labels) : List Labels :=
  (ls.foldl (fun seen l => if seen.contains l then seen else seen ++ [l]) []).mergeSort labelsLe

/-- One counter for each of the different labels, counting how often they occur. -/
def counters (ls : List Labels) : List Sample :=
  (distinctLabels ls).map fun l => { labels := l, reading := .value (ls.count l) }

/-- One histogram for each of the different labels of some observations. -/
def histograms (bounds : List Float) (os : List (Labels × Float)) : List Sample :=
  (distinctLabels (os.map (·.1))).map fun l =>
    { labels := l
      reading := .histogram ⟨bounds, (os.filter (·.1 == l)).map (·.2)⟩ }

/-- A duration in seconds. -/
def seconds (d : Time.Duration) : Float := Float.ofInt d / 1000000000

/-- The bounds for numbers of passes. -/
def passBounds : List Float := [1, 2, 3, 4, 6, 8, 16, 32, 64]

/-- The labels of a conversion. -/
def conversionLabels? : Measurement → Option Labels
  | .conversion status errorType _ _ => some [("error_type", errorType), ("status", status)]
  | _ => none

/-- The labels of a write of a record. -/
def writeLabels? : Measurement → Option Labels
  | .historyWrite r => some [("result", r.name)]
  | _ => none

/-- The labels of a request. -/
def requestLabels? : Measurement → Option Labels
  | .request route code _ => some [("code", Text.ofNat code), ("route", route)]
  | _ => none

/-- The duration of a conversion. -/
def conversionSeconds? : Measurement → Option Float
  | .conversion _ _ d _ => some (seconds d)
  | _ => none

/-- The size of the input of a conversion. -/
def inputBytes? : Measurement → Option Float
  | .conversion _ _ _ n => some (Float.ofNat n)
  | _ => none

/-- The number of passes of a cleaning. -/
def passes? : Measurement → Option Float
  | .cleaningPasses n => some (Float.ofNat n)
  | _ => none

/-- The duration of a stage. -/
def stageSeconds? : Measurement → Option (Labels × Float)
  | .stage name d => some ([("stage", name)], seconds d)
  | _ => none

/-- The duration of a request. -/
def requestSeconds? : Measurement → Option (Labels × Float)
  | .request route _ d => some ([("route", route)], seconds d)
  | _ => none

/-- The length of the queue that was reported last. -/
def lastDepth (ms : List Measurement) : Nat :=
  ms.foldl (fun n m => match m with
    | .queueDepth k => k
    | _ => n) 0

/-- A histogram without labels. -/
def plainHistogram (bounds observations : List Float) : List Sample :=
  [{ reading := .histogram ⟨bounds, observations⟩ }]

/-- The families of all metrics after some measurements, in the order of their names; a family
without samples is left out. Where metrics are switched off nothing counts. -/
def families (c : MetricsConfig) (ms : List Measurement) : List Family :=
  let ms := if c.isEnabled then ms else []
  let space : Text := if c.space.isEmpty then "texsolve" else c.space
  let family (name : Text) (help : Text) (kind : FamilyKind) (samples : List Sample) : Family :=
    ⟨space ++ "_" ++ name, help, kind, samples⟩
  let all : List Family :=
    [family "cleaner_passes" "Number of cleaning passes until the text stopped changing" .histogram
      (plainHistogram passBounds (ms.filterMap passes?)),
     family "conversion_duration_seconds" "Duration of conversions in seconds" .histogram
      (plainHistogram c.durationBuckets (ms.filterMap conversionSeconds?)),
     family "conversions_total" "Total number of conversions by status and error type" .counter
      (counters (ms.filterMap conversionLabels?)),
     family "history_queue_depth" "Records waiting to be written to history storage" .gauge
      [{ reading := .value (lastDepth ms) }],
     family "history_writes_total" "Total number of history writes by result" .counter
      (counters (ms.filterMap writeLabels?)),
     family "http_request_duration_seconds" "Duration of API requests in seconds" .histogram
      (histograms c.durationBuckets (ms.filterMap requestSeconds?)),
     family "http_requests_total" "Total number of API requests by route and status code" .counter
      (counters (ms.filterMap requestLabels?)),
     family "input_bytes" "Size of converted inputs in bytes" .histogram
      (plainHistogram c.sizeBuckets (ms.filterMap inputBytes?)),
     family "stage_duration_seconds" "Duration of the clean, parse and translate stages in seconds"
      .histogram (histograms c.durationBuckets (ms.filterMap stageSeconds?))]
  all.filter fun f => !f.samples.isEmpty

/-! ## The text format -/

/-- The value of a label between quotes: only the backslash, the line break and the quote are
escaped. -/
def labelValue (t : Text) : Text :=
  "\"" ++ (t.flatMap fun b =>
    if b == Text.byte '\\' then Text.ofString "\\\\"
    else if b == Text.byte '\n' then Text.ofString "\\n"
    else if b == Text.byte '"' then Text.ofString "\\\""
    else [b]) ++ "\""

/-- Labels between braces; no labels are nothing. -/
def labelsText (value : Text → Text) (ls : Labels) : Text :=
  match ls with
  | [] => []
  | _ => "\x7b" ++ Text.join "," (ls.map fun (k, v) => k ++ "=" ++ value v) ++ "\x7d"

/-- The lines of a sample. -/
def Sample.lines (name : Text) (s : Sample) : List Text :=
  match s.reading with
  | .value n => [name ++ labelsText labelValue s.labels ++ " " ++ Text.ofNat n]
  | .histogram h =>
    let bucket (le : Text) (n : Nat) : Text :=
      name ++ "_bucket" ++ labelsText labelValue (s.labels ++ [(Text.ofString "le", le)]) ++ " "
        ++ Text.ofNat n
    (h.bounds.map fun b => bucket (Number.general b) (h.upTo b))
      ++ [bucket "+Inf" h.count,
        name ++ "_sum" ++ labelsText labelValue s.labels ++ " " ++ Number.general h.sum,
        name ++ "_count" ++ labelsText labelValue s.labels ++ " " ++ Text.ofNat h.count]

/-- The lines of a family. -/
def Family.lines (f : Family) : List Text :=
  ["# HELP " ++ f.name ++ " " ++ f.help, "# TYPE " ++ f.name ++ " " ++ f.kind.name]
    ++ f.samples.flatMap (·.lines f.name)

/-- The lines of a family that do not depend on how fast the machine is: of durations only their
number and their bounds. -/
def Family.steadyLines (f : Family) : List Text :=
  f.samples.flatMap fun s =>
    let labels := labelsText Text.quote s.labels
    let le (b : Float) : Text :=
      labelsText Text.quote (s.labels ++ [(Text.ofString "le", Number.positional b)])
    match s.reading with
    | .value n => [f.name ++ labels ++ " " ++ Text.ofNat n]
    | .histogram h =>
      (f.name ++ "_count" ++ labels ++ " " ++ Text.ofNat h.count)
        :: if f.name.includes "duration" then h.bounds.map fun b => f.name ++ "_le" ++ le b
        else
          (f.name ++ "_sum" ++ labels ++ " " ++ Number.positional h.sum)
            :: h.bounds.map fun b => f.name ++ "_bucket" ++ le b ++ " " ++ Text.ofNat (h.upTo b)

/-- The page of all metrics. -/
def page (fs : List Family) : Text := fs.flatMap fun f => f.lines.flatMap (· ++ "\n")

end MathMarkup.Telemetry
