import MathMarkup.Config.Basic
import MathMarkup.Failure.Fault
import MathMarkup.Net.Address

/-!
# Checking a configuration

A configuration is checked setting by setting and all faults are reported together, in the order of
the sections. Whether a text is a schedule is left to the reader of schedules.
-/

namespace MathMarkup.Config

/-- A fault of a setting, if the condition holds. -/
def faultIf (wrong : Bool) (field : String) (message : Text) : List FieldError :=
  if wrong then [⟨field, message⟩] else []

/-- The faults of the limits of conversions. -/
def checkConverter (c : ConverterConfig) : List FieldError :=
  faultIf (c.maxCleanPasses < 1) "converter.max_clean_passes" "must be at least 1"
    ++ faultIf (c.maxDepth < 1) "converter.max_depth" "must be at least 1"
    ++ faultIf (c.maxInputBytes < 0) "converter.max_input_bytes" "must not be negative"

/-- The faults of an address to listen on. -/
def checkListenAddress (a : Text) : List FieldError :=
  if a.isEmpty then [⟨"server.listen_address", "listen address is required"⟩]
  else
    faultIf (!(Net.splitAddress a).toBool) "server.listen_address"
      ("invalid listen address " ++ a.quote ++ ": must be in format 'host:port'")

/-- The faults of the encryption of connections. -/
def checkTls (c : TlsConfig) : List FieldError :=
  if c.enabled then
    faultIf (c.certFile.isEmpty || c.keyFile.isEmpty) "server.tls"
        "cert_file and key_file are required when TLS is enabled"
      ++ faultIf (c.minVersion != Text.ofString "1.2" && c.minVersion != Text.ofString "1.3")
        "server.tls.min_version"
        ("unsupported TLS version " ++ c.minVersion.quote ++ " (must be 1.2 or 1.3)")
  else []

/-- The faults of the server. -/
def checkServer (c : ServerConfig) : List FieldError :=
  checkListenAddress c.listenAddress
    ++ faultIf (c.readTimeout < 0 || c.writeTimeout < 0 || c.idleTimeout < 0
        || c.shutdownTimeout < 0) "server" "timeouts must not be negative"
    ++ faultIf (c.maxBodyBytes < 1) "server.max_body_bytes" "must be positive"
    ++ faultIf (c.rateLimit.requestsPerSecond < 0 || c.rateLimit.burst < 0
        || c.rateLimit.maxConcurrent < 0) "server.rate_limit" "limits must not be negative"
    ++ checkTls c.tls

/-- The faults of the kind of storage. -/
def checkBackend (c : HistoryConfig) : List FieldError :=
  if c.backend == Text.ofString "memory" then []
  else if c.backend == Text.ofString "sqlite" || c.backend == Text.ofString "sqlite3" then
    faultIf c.sqlite.path.isEmpty "history.sqlite.path" "path is required for SQLite backends"
  else
    [⟨"history.backend",
      "invalid backend " ++ c.backend.quote ++ ": must be 'memory', 'sqlite', or 'sqlite3'"⟩]

/-- The faults of a schedule; none is given if it is empty. -/
def checkSchedule (schedule : ScheduleReader) (s : Text) : List FieldError :=
  if s.isEmpty then []
  else
    match schedule s with
    | .ok _ => []
    | .error e =>
      [⟨"history.retention.prune_schedule", "invalid cron expression " ++ s.quote ++ ": " ++ e⟩]

/-- The faults of the limits of queries. -/
def checkQuery (c : QueryConfig) : List FieldError :=
  if c.defaultLimit < 1 || c.maxLimit < 1 then [⟨"history.query", "limits must be positive"⟩]
  else
    faultIf (c.defaultLimit > c.maxLimit) "history.query.default_limit"
      ("default limit " ++ Text.ofInt c.defaultLimit ++ " exceeds max limit "
        ++ Text.ofInt c.maxLimit)

/-- The faults of the history. -/
def checkHistory (schedule : ScheduleReader) (c : HistoryConfig) : List FieldError :=
  checkBackend c
    ++ faultIf (c.recorder.asyncBuffer < 0) "history.recorder.async_buffer" "must not be negative"
    ++ faultIf (c.recorder.maxFieldLength < 0) "history.recorder.max_field_length"
      "must not be negative"
    ++ faultIf (c.retention.days < 0) "history.retention.days" "must not be negative"
    ++ faultIf (c.retention.maxRecords < 0) "history.retention.max_records" "must not be negative"
    ++ checkSchedule schedule c.retention.pruneSchedule
    ++ checkQuery c.query

/-- The faults of an extension of source files. -/
def checkExtension (c : WatchConfig) (extension : Text) : List FieldError :=
  faultIf (!extension.startsWith ".") "watch.extensions"
      ("extension " ++ extension.quote ++ " must start with '.'")
    ++ faultIf (extension == c.suffix || extension == c.errorSuffix) "watch.extensions"
      ("extension " ++ extension.quote ++ " collides with an output suffix")

/-- The faults of the watcher. -/
def checkWatch (c : WatchConfig) : List FieldError :=
  c.extensions.flatMap (checkExtension c)
    ++ faultIf (c.suffix == c.errorSuffix) "watch.error_suffix" "must differ from watch.suffix"
    ++ faultIf (c.debounce < 0) "watch.debounce" "must not be negative"

/-- The faults of traces. -/
def checkTracing (c : TracingConfig) : List FieldError :=
  faultIf (c.enabled && c.endpoint.isEmpty) "telemetry.tracing.endpoint"
      "tracing endpoint is required when tracing is enabled"
    ++ faultIf (!(Text.ofStrings ["always", "never", "ratio"]).contains c.sampler)
      "telemetry.tracing.sampler"
      ("invalid sampler " ++ c.sampler.quote ++ ": must be 'always', 'never', or 'ratio'")
    ++ faultIf (c.sampleRatio < 0 || c.sampleRatio > 1) "telemetry.tracing.sample_ratio"
      "sample ratio must be between 0.0 and 1.0"

/-- The faults of logs, metrics, traces and health checks. -/
def checkTelemetry (c : TelemetryConfig) : List FieldError :=
  faultIf (!(Text.ofStrings ["debug", "info", "warn", "error"]).contains c.logging.level)
      "telemetry.logging.level"
      ("invalid logging level " ++ c.logging.level.quote
        ++ ": must be 'debug', 'info', 'warn', or 'error'")
    ++ faultIf (!(Text.ofStrings ["json", "text", "console"]).contains c.logging.format)
      "telemetry.logging.format"
      ("invalid logging format " ++ c.logging.format.quote
        ++ ": must be 'json', 'text', or 'console'")
    ++ faultIf (c.metrics.isEnabled && !c.metrics.path.startsWith "/") "telemetry.metrics.path"
      "metrics path must start with '/'"
    ++ checkTracing c.tracing
    ++ faultIf (!c.health.livenessPath.startsWith "/" || !c.health.readinessPath.startsWith "/")
      "telemetry.health" "health paths must start with '/'"

/-- All faults of a configuration. -/
def faults (schedule : ScheduleReader) (c : Config) : List FieldError :=
  checkConverter c.converter ++ checkServer c.server ++ checkHistory schedule c.history
    ++ checkWatch c.watch ++ checkTelemetry c.telemetry

/-- A configuration without faults, or the fault that lists them. -/
def validate (schedule : ScheduleReader) (c : Config) : Except Fault Unit :=
  match c.faults schedule with
  | [] => .ok ()
  | es => .error [.validation es]

end MathMarkup.Config
