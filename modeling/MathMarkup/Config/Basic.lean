import MathMarkup.Time.Duration

/-!
# Configuration

The settings of the program, section by section. A setting that is zero or empty stands for its
default; `applyDefaults` fills those in.
-/

namespace MathMarkup

open Time (Duration)

/-- Limits of conversions. -/
structure ConverterConfig where
  maxCleanPasses : Int := 0
  maxDepth : Int := 0
  /-- The largest input in bytes; zero is no limit once defaults are applied. -/
  maxInputBytes : Int := 0

/-- Limits of requests. -/
structure RateLimitConfig where
  requestsPerSecond : Float := 0
  burst : Int := 0
  maxConcurrent : Int := 0

/-- Whether requests are limited at all. -/
def RateLimitConfig.isEnabled (c : RateLimitConfig) : Bool :=
  c.requestsPerSecond > 0 || c.maxConcurrent > 0

/-- Encryption of connections. -/
structure TlsConfig where
  enabled : Bool := false
  certFile : Text := []
  keyFile : Text := []
  minVersion : Text := []
  reloadInterval : Duration := 0

/-- The HTTP server. -/
structure ServerConfig where
  listenAddress : Text := []
  readTimeout : Duration := 0
  writeTimeout : Duration := 0
  idleTimeout : Duration := 0
  shutdownTimeout : Duration := 0
  maxBodyBytes : Int := 0
  rateLimit : RateLimitConfig := {}
  tls : TlsConfig := {}

/-- The database of the history. -/
structure SqliteConfig where
  path : Text := []
  maxOpenConns : Int := 0
  maxIdleConns : Int := 0
  busyTimeout : Duration := 0

/-- How records are taken down. -/
structure RecorderConfig where
  asyncBuffer : Int := 0
  writeTimeout : Duration := 0
  maxFieldLength : Int := 0

/-- How long records are kept. -/
structure RetentionConfig where
  days : Int := 0
  pruneSchedule : Text := []
  maxRecords : Int := 0

/-- Limits of queries. -/
structure QueryConfig where
  defaultLimit : Int := 0
  maxLimit : Int := 0

/-- The history of conversions. -/
structure HistoryConfig where
  enabled : Option Bool := none
  backend : Text := []
  sqlite : SqliteConfig := {}
  recorder : RecorderConfig := {}
  retention : RetentionConfig := {}
  query : QueryConfig := {}

/-- The history is kept unless it is switched off. -/
def HistoryConfig.isEnabled (c : HistoryConfig) : Bool := c.enabled.getD true

/-- The directory watcher. -/
structure WatchConfig where
  dir : Text := []
  extensions : List Text := []
  suffix : Text := []
  errorSuffix : Text := []
  debounce : Duration := 0

/-- Log lines. -/
structure LoggingConfig where
  level : Text := []
  format : Text := []
  addSource : Bool := false

/-- Metrics. -/
structure MetricsConfig where
  enabled : Option Bool := none
  path : Text := []
  space : Text := []
  durationBuckets : List Float := []
  sizeBuckets : List Float := []

/-- Metrics are kept unless they are switched off. -/
def MetricsConfig.isEnabled (c : MetricsConfig) : Bool := c.enabled.getD true

/-- Traces. -/
structure TracingConfig where
  enabled : Bool := false
  sampler : Text := []
  sampleRatio : Float := 0
  endpoint : Text := []
  serviceName : Text := []
  insecure : Bool := false
  timeout : Duration := 0

/-- Health checks. -/
structure HealthConfig where
  livenessPath : Text := []
  readinessPath : Text := []
  checkTimeout : Duration := 0

/-- What the program tells about itself. -/
structure TelemetryConfig where
  logging : LoggingConfig := {}
  metrics : MetricsConfig := {}
  tracing : TracingConfig := {}
  health : HealthConfig := {}

/-- All settings. -/
structure Config where
  converter : ConverterConfig := {}
  server : ServerConfig := {}
  history : HistoryConfig := {}
  watch : WatchConfig := {}
  telemetry : TelemetryConfig := {}

namespace Config

/-- A number, or its default if it is zero. -/
def orInt (x default : Int) : Int := if x = 0 then default else x

/-- A text, or its default if it is empty. -/
def orText (x default : Text) : Text := if x.isEmpty then default else x

/-- A list, or its default if it is empty. -/
def orList {α : Type} (x default : List α) : List α := if x.isEmpty then default else x

/-- Twice a rate, rounded up, as a burst size of at least one; a rate too large to count gives
one. -/
def burstOf (requestsPerSecond : Float) : Int :=
  let burst := (requestsPerSecond * 2).ceil
  if burst < 9223372036854775808.0 then max 1 burst.toInt64.toInt else 1

/-- Fills in the defaults of the rate limit: twice the requests of a second may come at once. -/
def defaultRateLimit (c : RateLimitConfig) : RateLimitConfig :=
  if c.requestsPerSecond > 0 && c.burst == 0 then
    { c with burst := burstOf c.requestsPerSecond }
  else c

/-- Fills in the defaults of all settings that are zero or empty. -/
def applyDefaults (c : Config) : Config where
  converter :=
    { maxCleanPasses := orInt c.converter.maxCleanPasses 64
      maxDepth := orInt c.converter.maxDepth 256
      maxInputBytes := orInt c.converter.maxInputBytes 65536 }
  server :=
    { listenAddress := orText c.server.listenAddress "127.0.0.1:8080"
      readTimeout := orInt c.server.readTimeout (Duration.seconds 10)
      writeTimeout := orInt c.server.writeTimeout (Duration.seconds 10)
      idleTimeout := orInt c.server.idleTimeout (Duration.seconds 60)
      shutdownTimeout := orInt c.server.shutdownTimeout (Duration.seconds 15)
      maxBodyBytes := orInt c.server.maxBodyBytes 1048576
      rateLimit := defaultRateLimit c.server.rateLimit
      tls :=
        { c.server.tls with
          minVersion := orText c.server.tls.minVersion "1.2"
          reloadInterval := orInt c.server.tls.reloadInterval (Duration.minutes 5) } }
  history :=
    { enabled := c.history.enabled
      backend := orText c.history.backend "sqlite"
      sqlite :=
        { path := orText c.history.sqlite.path "data/history.db"
          maxOpenConns := orInt c.history.sqlite.maxOpenConns 10
          maxIdleConns := orInt c.history.sqlite.maxIdleConns 5
          busyTimeout := orInt c.history.sqlite.busyTimeout (Duration.seconds 5) }
      recorder :=
        { asyncBuffer := orInt c.history.recorder.asyncBuffer 1000
          writeTimeout := orInt c.history.recorder.writeTimeout (Duration.seconds 5)
          maxFieldLength := orInt c.history.recorder.maxFieldLength 4096 }
      retention :=
        { c.history.retention with
          pruneSchedule := orText c.history.retention.pruneSchedule "0 3 * * *" }
      query :=
        { defaultLimit := orInt c.history.query.defaultLimit 100
          maxLimit := orInt c.history.query.maxLimit 10000 } }
  watch :=
    { dir := orText c.watch.dir "."
      extensions := orList c.watch.extensions [".tex"]
      suffix := orText c.watch.suffix ".solver"
      errorSuffix := orText c.watch.errorSuffix ".err"
      debounce := orInt c.watch.debounce (Duration.milliseconds 100) }
  telemetry :=
    { logging :=
        { c.telemetry.logging with
          level := orText c.telemetry.logging.level "info"
          format := orText c.telemetry.logging.format "text" }
      metrics :=
        { c.telemetry.metrics with
          path := orText c.telemetry.metrics.path "/metrics"
          space := orText c.telemetry.metrics.space "texsolve"
          durationBuckets := orList c.telemetry.metrics.durationBuckets
            [0.0001, 0.0005, 0.001, 0.005, 0.01, 0.05, 0.1, 0.5, 1]
          sizeBuckets := orList c.telemetry.metrics.sizeBuckets
            [16, 64, 256, 1024, 4096, 16384, 65536] }
      tracing :=
        { c.telemetry.tracing with
          sampler := orText c.telemetry.tracing.sampler "ratio"
          sampleRatio :=
            if c.telemetry.tracing.sampleRatio == 0 then 0.1 else c.telemetry.tracing.sampleRatio
          serviceName := orText c.telemetry.tracing.serviceName "texsolve"
          timeout := orInt c.telemetry.tracing.timeout (Duration.seconds 10) }
      health :=
        { livenessPath := orText c.telemetry.health.livenessPath "/healthz"
          readinessPath := orText c.telemetry.health.readinessPath "/readyz"
          checkTimeout := orInt c.telemetry.health.checkTimeout (Duration.seconds 2) } }

/-- The configuration of defaults alone. -/
def default : Config := applyDefaults {}

/-! ## Formats

What a document says and which texts are schedules is decided elsewhere. Everything that depends on
it is told by two readers. -/

/-- Reads documents: what one says about settings, or the message why it is none. -/
abbrev DocumentReader := Text → Except Text Config

/-- Reads schedules: whether a text is one, or the message why it is none. -/
abbrev ScheduleReader := Text → Except Text Unit

/-- The formats that a configuration is written in. -/
structure Formats where
  document : DocumentReader
  schedule : ScheduleReader

end Config

end MathMarkup
