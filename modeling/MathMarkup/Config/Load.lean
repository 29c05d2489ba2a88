import MathMarkup.Config.Validate
import MathMarkup.Number.Fraction
import MathMarkup.Text.Space
import MathMarkup.Time.Duration

/-!
# Loading a configuration

A configuration comes from a file, from variables of the environment, or from both: the file is
read, defaults fill in what it leaves out, and the variables override the result. A variable that is
empty or cannot be read changes nothing. Without a file the defaults stand in for it.
-/

namespace MathMarkup.Config

/-- The variables of an environment. -/
abbrev Variables := List (Text × Text)

/-- The beginning of the names of all variables. -/
def variableMark : Text := "TEXSOLVE_"

/-- The value of a variable, if it is set and not empty. -/
def lookup? (env : Variables) (name : String) : Option Text :=
  match env.lookup (variableMark ++ Text.ofString name) with
  | some v => if v.isEmpty then none else some v
  | none => none

/-- A configuration changed by the value of a variable that can be read. -/
def override {α : Type} (env : Variables) (name : String) (read : Text → Option α)
    (set : Config → α → Config) (c : Config) : Config :=
  match (lookup? env name).bind read with
  | some v => set c v
  | none => c

/-- A whole number from a variable. -/
def readInt? (t : Text) : Option Int := (Number.readDecimal t).toOption

/-- A duration from a variable. -/
def readDuration? (t : Text) : Option Int := (Time.Duration.read t).toOption

/-- A fraction from a variable. -/
def readNumber? (t : Text) : Option Float := (Number.readFloat t).toOption

/-- The items of a list separated by commas, without the empty ones; none if nothing is left. -/
def readList? (t : Text) : Option (List Text) :=
  let items := ((Text.splitByte (Text.byte ',') t).map Text.trimSpace).filter (!·.isEmpty)
  if items.isEmpty then none else some items

/-- A configuration overridden by the variables of an environment. -/
def applyEnvironment (env : Variables) (c : Config) : Config :=
  c
  |> override env "CONVERTER_MAX_CLEAN_PASSES" readInt?
      (fun c v => { c with converter.maxCleanPasses := v })
  |> override env "CONVERTER_MAX_DEPTH" readInt? (fun c v => { c with converter.maxDepth := v })
  |> override env "CONVERTER_MAX_INPUT_BYTES" readInt?
      (fun c v => { c with converter.maxInputBytes := v })
  |> override env "SERVER_LISTEN_ADDRESS" some (fun c v => { c with server.listenAddress := v })
  |> override env "SERVER_READ_TIMEOUT" readDuration?
      (fun c v => { c with server.readTimeout := v })
  |> override env "SERVER_WRITE_TIMEOUT" readDuration?
      (fun c v => { c with server.writeTimeout := v })
  |> override env "SERVER_SHUTDOWN_TIMEOUT" readDuration?
      (fun c v => { c with server.shutdownTimeout := v })
  |> override env "HISTORY_ENABLED" Number.readBool?
      (fun c v => { c with history.enabled := some v })
  |> override env "HISTORY_BACKEND" some (fun c v => { c with history.backend := v })
  |> override env "HISTORY_SQLITE_PATH" some (fun c v => { c with history.sqlite.path := v })
  |> override env "HISTORY_RETENTION_DAYS" readInt?
      (fun c v => { c with history.retention.days := v })
  |> override env "HISTORY_RETENTION_PRUNE_SCHEDULE" some
      (fun c v => { c with history.retention.pruneSchedule := v })
  |> override env "WATCH_DIR" some (fun c v => { c with watch.dir := v })
  |> override env "WATCH_SUFFIX" some (fun c v => { c with watch.suffix := v })
  |> override env "WATCH_DEBOUNCE" readDuration? (fun c v => { c with watch.debounce := v })
  |> override env "WATCH_EXTENSIONS" readList? (fun c v => { c with watch.extensions := v })
  |> override env "TELEMETRY_LOGGING_LEVEL" some
      (fun c v => { c with telemetry.logging.level := v })
  |> override env "TELEMETRY_LOGGING_FORMAT" some
      (fun c v => { c with telemetry.logging.format := v })
  |> override env "TELEMETRY_METRICS_ENABLED" Number.readBool?
      (fun c v => { c with telemetry.metrics.enabled := some v })
  |> override env "TELEMETRY_TRACING_ENABLED" Number.readBool?
      (fun c v => { c with telemetry.tracing.enabled := v })
  |> override env "TELEMETRY_TRACING_ENDPOINT" some
      (fun c v => { c with telemetry.tracing.endpoint := v })
  |> override env "TELEMETRY_TRACING_SAMPLER" some
      (fun c v => { c with telemetry.tracing.sampler := v })
  |> override env "TELEMETRY_TRACING_SAMPLE_RATIO" readNumber?
      (fun c v => { c with telemetry.tracing.sampleRatio := v })

/-- A fault with a note in front. -/
def noted {α : Type} (note : Text) : Except Fault α → Except Fault α
  | .ok a => .ok a
  | .error f => .error (.note note :: f)

/-- Reads files: the contents of a path, or what is wrong with it. -/
abbrev FileReader := Text → Except Fault Text

/-- What a document says about settings, with defaults for what it leaves out. -/
def parse (document : DocumentReader) (t : Text) : Except Text Config :=
  (document t).map applyDefaults

/-- The configuration of a file, checked. -/
def load (formats : Formats) (read : FileReader) (path : Text) : Except Fault Config := do
  let data ← noted ("failed to read configuration file " ++ path.quote) (read path)
  let c ←
    match parse formats.document data with
    | .ok c => .ok c
    | .error message =>
      .error [.note ("failed to parse configuration file " ++ path.quote), .plain message]
  let _ ← noted "configuration validation failed" (c.validate formats.schedule)
  pure c

/-- A configuration overridden by the environment, checked. -/
def overridden (formats : Formats) (env : Variables) (c : Config) : Except Fault Config := do
  let c' := applyEnvironment env c
  let _ ← noted "configuration validation failed after environment overrides"
    (c'.validate formats.schedule)
  pure c'

/-- The configuration of a file overridden by the environment; the file is checked before and the
result after. -/
def loadWithEnvironment (formats : Formats) (read : FileReader) (env : Variables) (path : Text) :
    Except Fault Config := do
  let c ← load formats read path
  overridden formats env c

/-- The configuration of a file, or of defaults if there is no such file, overridden by the
environment. -/
def loadOrDefault (formats : Formats) (read : FileReader) (env : Variables) (path : Text) :
    Except Fault Config :=
  if path.isEmpty then overridden formats env default
  else
    match loadWithEnvironment formats read env path with
    | .ok c => .ok c
    | .error f => if f.isNotExist then overridden formats env default else .error f

end MathMarkup.Config
