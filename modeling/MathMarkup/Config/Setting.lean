import MathMarkup.Config.Basic
import MathMarkup.Number.Shortest

/-!
# Settings by name

Every setting has a path of names. The table `settings` lists them with the way to read and to
change each one, so that configuration files, and whatever else names settings, need no list of
their own.
-/

namespace MathMarkup.Config

/-- A setting of a type of values: how it is read and how it is changed. -/
inductive Slot where
  | int (get : Config → Int) (set : Config → Int → Config)
  | duration (get : Config → Int) (set : Config → Int → Config)
  | text (get : Config → Text) (set : Config → Text → Config)
  | flag (get : Config → Bool) (set : Config → Bool → Config)
  | switch (get : Config → Option Bool) (set : Config → Option Bool → Config)
  | number (get : Config → Float) (set : Config → Float → Config)
  | texts (get : Config → List Text) (set : Config → List Text → Config)
  | numbers (get : Config → List Float) (set : Config → List Float → Config)

/-- A setting and the names on the way to it. -/
structure Setting where
  path : List Text
  slot : Slot

/-- A setting at a path of names. -/
def setting (path : List String) (slot : Slot) : Setting := ⟨Text.ofStrings path, slot⟩

/-- The settings of conversions. -/
def converterSettings : List Setting :=
  [setting ["converter", "max_clean_passes"]
      (.int (·.converter.maxCleanPasses) fun c v => { c with converter.maxCleanPasses := v }),
    setting ["converter", "max_depth"]
      (.int (·.converter.maxDepth) fun c v => { c with converter.maxDepth := v }),
    setting ["converter", "max_input_bytes"]
      (.int (·.converter.maxInputBytes) fun c v => { c with converter.maxInputBytes := v })]

/-- The settings of the server. -/
def serverSettings : List Setting :=
  [setting ["server", "listen_address"]
      (.text (·.server.listenAddress) fun c v => { c with server.listenAddress := v }),
    setting ["server", "read_timeout"]
      (.duration (·.server.readTimeout) fun c v => { c with server.readTimeout := v }),
    setting ["server", "write_timeout"]
      (.duration (·.server.writeTimeout) fun c v => { c with server.writeTimeout := v }),
    setting ["server", "idle_timeout"]
      (.duration (·.server.idleTimeout) fun c v => { c with server.idleTimeout := v }),
    setting ["server", "shutdown_timeout"]
      (.duration (·.server.shutdownTimeout) fun c v => { c with server.shutdownTimeout := v }),
    setting ["server", "max_body_bytes"]
      (.int (·.server.maxBodyBytes) fun c v => { c with server.maxBodyBytes := v }),
    setting ["server", "rate_limit", "requests_per_second"]
      (.number (·.server.rateLimit.requestsPerSecond)
        fun c v => { c with server.rateLimit.requestsPerSecond := v }),
    setting ["server", "rate_limit", "burst"]
      (.int (·.server.rateLimit.burst) fun c v => { c with server.rateLimit.burst := v }),
    setting ["server", "rate_limit", "max_concurrent"]
      (.int (·.server.rateLimit.maxConcurrent)
        fun c v => { c with server.rateLimit.maxConcurrent := v }),
    setting ["server", "tls", "enabled"]
      (.flag (·.server.tls.enabled) fun c v => { c with server.tls.enabled := v }),
    setting ["server", "tls", "cert_file"]
      (.text (·.server.tls.certFile) fun c v => { c with server.tls.certFile := v }),
    setting ["server", "tls", "key_file"]
      (.text (·.server.tls.keyFile) fun c v => { c with server.tls.keyFile := v }),
    setting ["server", "tls", "min_version"]
      (.text (·.server.tls.minVersion) fun c v => { c with server.tls.minVersion := v }),
    setting ["server", "tls", "reload_interval"]
      (.duration (·.server.tls.reloadInterval)
        fun c v => { c with server.tls.reloadInterval := v })]

/-- The settings of the history. -/
def historySettings : List Setting :=
  [setting ["history", "enabled"]
      (.switch (·.history.enabled) fun c v => { c with history.enabled := v }),
    setting ["history", "backend"]
      (.text (·.history.backend) fun c v => { c with history.backend := v }),
    setting ["history", "sqlite", "path"]
      (.text (·.history.sqlite.path) fun c v => { c with history.sqlite.path := v }),
    setting ["history", "sqlite", "max_open_conns"]
      (.int (·.history.sqlite.maxOpenConns)
        fun c v => { c with history.sqlite.maxOpenConns := v }),
    setting ["history", "sqlite", "max_idle_conns"]
      (.int (·.history.sqlite.maxIdleConns)
        fun c v => { c with history.sqlite.maxIdleConns := v }),
    setting ["history", "sqlite", "busy_timeout"]
      (.duration (·.history.sqlite.busyTimeout)
        fun c v => { c with history.sqlite.busyTimeout := v }),
    setting ["history", "recorder", "async_buffer"]
      (.int (·.history.recorder.asyncBuffer)
        fun c v => { c with history.recorder.asyncBuffer := v }),
    setting ["history", "recorder", "write_timeout"]
      (.duration (·.history.recorder.writeTimeout)
        fun c v => { c with history.recorder.writeTimeout := v }),
    setting ["history", "recorder", "max_field_length"]
      (.int (·.history.recorder.maxFieldLength)
        fun c v => { c with history.recorder.maxFieldLength := v }),
    setting ["history", "retention", "days"]
      (.int (·.history.retention.days) fun c v => { c with history.retention.days := v }),
    setting ["history", "retention", "prune_schedule"]
      (.text (·.history.retention.pruneSchedule)
        fun c v => { c with history.retention.pruneSchedule := v }),
    setting ["history", "retention", "max_records"]
      (.int (·.history.retention.maxRecords)
        fun c v => { c with history.retention.maxRecords := v }),
    setting ["history", "query", "default_limit"]
      (.int (·.history.query.defaultLimit)
        fun c v => { c with history.query.defaultLimit := v }),
    setting ["history", "query", "max_limit"]
      (.int (·.history.query.maxLimit) fun c v => { c with history.query.maxLimit := v })]

/-- The settings of the watcher. -/
def watchSettings : List Setting :=
  [setting ["watch", "dir"] (.text (·.watch.dir) fun c v => { c with watch.dir := v }),
    setting ["watch", "extensions"]
      (.texts (·.watch.extensions) fun c v => { c with watch.extensions := v }),
    setting ["watch", "suffix"] (.text (·.watch.suffix) fun c v => { c with watch.suffix := v }),
    setting ["watch", "error_suffix"]
      (.text (·.watch.errorSuffix) fun c v => { c with watch.errorSuffix := v }),
    setting ["watch", "debounce"]
      (.duration (·.watch.debounce) fun c v => { c with watch.debounce := v })]

/-- The settings of logs, metrics, traces and health checks. -/
def telemetrySettings : List Setting :=
  [setting ["telemetry", "logging", "level"]
      (.text (·.telemetry.logging.level) fun c v => { c with telemetry.logging.level := v }),
    setting ["telemetry", "logging", "format"]
      (.text (·.telemetry.logging.format) fun c v => { c with telemetry.logging.format := v }),
    setting ["telemetry", "logging", "add_source"]
      (.flag (·.telemetry.logging.addSource)
        fun c v => { c with telemetry.logging.addSource := v }),
    setting ["telemetry", "metrics", "enabled"]
      (.switch (·.telemetry.metrics.enabled)
        fun c v => { c with telemetry.metrics.enabled := v }),
    setting ["telemetry", "metrics", "path"]
      (.text (·.telemetry.metrics.path) fun c v => { c with telemetry.metrics.path := v }),
    setting ["telemetry", "metrics", "namespace"]
      (.text (·.telemetry.metrics.space) fun c v => { c with telemetry.metrics.space := v }),
    setting ["telemetry", "metrics", "duration_buckets"]
      (.numbers (·.telemetry.metrics.durationBuckets)
        fun c v => { c with telemetry.metrics.durationBuckets := v }),
    setting ["telemetry", "metrics", "size_buckets"]
      (.numbers (·.telemetry.metrics.sizeBuckets)
        fun c v => { c with telemetry.metrics.sizeBuckets := v }),
    setting ["telemetry", "tracing", "enabled"]
      (.flag (·.telemetry.tracing.enabled) fun c v => { c with telemetry.tracing.enabled := v }),
    setting ["telemetry", "tracing", "sampler"]
      (.text (·.telemetry.tracing.sampler) fun c v => { c with telemetry.tracing.sampler := v }),
    setting ["telemetry", "tracing", "sample_ratio"]
      (.number (·.telemetry.tracing.sampleRatio)
        fun c v => { c with telemetry.tracing.sampleRatio := v }),
    setting ["telemetry", "tracing", "endpoint"]
      (.text (·.telemetry.tracing.endpoint)
        fun c v => { c with telemetry.tracing.endpoint := v }),
    setting ["telemetry", "tracing", "service_name"]
      (.text (·.telemetry.tracing.serviceName)
        fun c v => { c with telemetry.tracing.serviceName := v }),
    setting ["telemetry", "tracing", "insecure"]
      (.flag (·.telemetry.tracing.insecure)
        fun c v => { c with telemetry.tracing.insecure := v }),
    setting ["telemetry", "tracing", "timeout"]
      (.duration (·.telemetry.tracing.timeout)
        fun c v => { c with telemetry.tracing.timeout := v }),
    setting ["telemetry", "health", "liveness_path"]
      (.text (·.telemetry.health.livenessPath)
        fun c v => { c with telemetry.health.livenessPath := v }),
    setting ["telemetry", "health", "readiness_path"]
      (.text (·.telemetry.health.readinessPath)
        fun c v => { c with telemetry.health.readinessPath := v }),
    setting ["telemetry", "health", "check_timeout"]
      (.duration (·.telemetry.health.checkTimeout)
        fun c v => { c with telemetry.health.checkTimeout := v })]

/-- All settings. -/
def settings : List Setting :=
  converterSettings ++ serverSettings ++ historySettings ++ watchSettings ++ telemetrySettings

/-! ## Values of settings -/

/-- A plain value that can be given to a setting. -/
inductive Scalar where
  | null
  | bool (b : Bool)
  | int (n : Int)
  | number (x : Float)
  | string (t : Text)

/-- A value given to a setting. -/
inductive Value where
  | one (text : Text) (scalar : Scalar)
  | many (items : List (Text × Scalar))

/-- The truth value of a scalar. -/
def boolOf? : Scalar → Option Bool
  | .bool b => some b
  | .string t =>
    if (Text.ofStrings ["y", "Y", "yes", "on"]).contains t then some true
    else if (Text.ofStrings ["n", "N", "no", "off"]).contains t then some false
    else none
  | _ => none

/-- The fraction a scalar stands for. -/
def numberOf? : Scalar → Option Float
  | .int n => some (Float.ofInt n)
  | .number x => some x
  | _ => none

/-- The whole number a scalar stands for; fractions are cut. -/
def intOf? : Scalar → Option Int
  | .int n => if n ≤ Number.maxInt then some n else none
  | .number x => if x ≤ 9223372036854775807.0 then some x.toInt64.toInt else none
  | _ => none

/-- Whether an item of a list is there. -/
def isPresent (item : Text × Scalar) : Bool :=
  match item.2 with
  | .null => false
  | _ => true

/-- A setting changed to a value; none if the value is not of its type. Null leaves single values as
they are and empties lists. -/
def Slot.put? (slot : Slot) (c : Config) (v : Value) : Option Config :=
  match slot, v with
  | .switch _ set, .one _ .null => some (set c none)
  | .texts _ set, .one _ .null => some (set c [])
  | .numbers _ set, .one _ .null => some (set c [])
  | _, .one _ .null => some c
  | .int _ set, .one _ s => (intOf? s).map (set c)
  | .duration _ set, .one _ (.string t) => (Time.Duration.read t).toOption.map (set c)
  | .text _ set, .one t _ => some (set c t)
  | .flag _ set, .one _ s => (boolOf? s).map (set c)
  | .switch _ set, .one _ s => (boolOf? s).map fun b => set c (some b)
  | .number _ set, .one _ s => (numberOf? s).map (set c)
  | .texts _ set, .many items => some (set c ((items.filter isPresent).map (·.1)))
  | .numbers _ set, .many items =>
    ((items.filter isPresent).mapM fun item => numberOf? item.2).map (set c)
  | _, _ => none

end MathMarkup.Config
