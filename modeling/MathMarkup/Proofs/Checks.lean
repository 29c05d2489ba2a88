import MathMarkup.Config.Validate

/-!
# What the checks of a configuration accept

A configuration is accepted if no check finds a fault. Each check is turned into what it asks for,
and all that is asked for is divided by the settings it is about. Variables of the environment can
override some settings, which are called open here. The others are fixed: what a file says about
them stands. `FixedSound` is what is asked of fixed settings alone and `OpenSound` is the rest;
together they are what validation asks for (`validate_accepts_iff`).
-/

namespace MathMarkup.Config

variable {schedule : ScheduleReader}

theorem faultIf_eq_nil {wrong : Bool} {field : String} {message : Text} :
    faultIf wrong field message = [] ↔ wrong = false := by
  cases wrong <;> simp [faultIf]

/-! ## Section by section -/

theorem checkConverter_eq_nil_iff {c : ConverterConfig} :
    checkConverter c = [] ↔ 1 ≤ c.maxCleanPasses ∧ 1 ≤ c.maxDepth ∧ 0 ≤ c.maxInputBytes := by
  unfold checkConverter
  simp only [List.append_eq_nil_iff, faultIf_eq_nil, decide_eq_false_iff_not, Int.not_lt, and_assoc]

/-- An address to listen on is one with a host and a service; the empty text is none. -/
theorem checkListenAddress_eq_nil_iff {a : Text} :
    checkListenAddress a = [] ↔ ∃ parts, Net.splitAddress a = .ok parts := by
  unfold checkListenAddress
  cases a with
  | nil => simp [Net.splitAddress, Text.findLastByte?]
  | cons b r =>
      rw [List.isEmpty_cons, if_neg Bool.false_ne_true, faultIf_eq_nil, Bool.not_eq_false']
      cases Net.splitAddress (b :: r) <;> simp [Except.toBool]

theorem checkTls_eq_nil_iff {c : TlsConfig} :
    checkTls c = [] ↔ (c.enabled = true → c.certFile ≠ [] ∧ c.keyFile ≠ [])
      ∧ (c.enabled = true →
        c.minVersion = Text.ofString "1.2" ∨ c.minVersion = Text.ofString "1.3") := by
  unfold checkTls
  cases c.enabled with
  | false => simp
  | true =>
      rw [if_pos rfl, List.append_eq_nil_iff, faultIf_eq_nil, faultIf_eq_nil]
      simp [Classical.or_iff_not_imp_left]

theorem checkServer_eq_nil_iff {c : ServerConfig} :
    checkServer c = [] ↔ checkListenAddress c.listenAddress = []
      ∧ (0 ≤ c.readTimeout ∧ 0 ≤ c.writeTimeout ∧ 0 ≤ c.idleTimeout ∧ 0 ≤ c.shutdownTimeout)
      ∧ 1 ≤ c.maxBodyBytes
      ∧ (¬ c.rateLimit.requestsPerSecond < 0 ∧ 0 ≤ c.rateLimit.burst
        ∧ 0 ≤ c.rateLimit.maxConcurrent)
      ∧ checkTls c.tls = [] := by
  unfold checkServer
  simp only [List.append_eq_nil_iff, faultIf_eq_nil, Bool.or_eq_false_iff,
    decide_eq_false_iff_not, Int.not_lt, and_assoc]

theorem checkBackend_eq_nil_iff {c : HistoryConfig} :
    checkBackend c = [] ↔ c.backend = Text.ofString "memory"
      ∨ (c.backend = Text.ofString "sqlite" ∨ c.backend = Text.ofString "sqlite3")
        ∧ c.sqlite.path ≠ [] := by
  unfold checkBackend
  simp only [beq_iff_eq, Bool.or_eq_true]
  split
  · rename_i hmemory
    simp [hmemory]
  · rename_i hmemory
    split
    · rename_i hsqlite
      simp [hmemory, hsqlite, faultIf_eq_nil]
    · rename_i hsqlite
      simp [hmemory, hsqlite]

theorem checkSchedule_eq_nil_iff {s : Text} :
    checkSchedule schedule s = [] ↔ s = [] ∨ schedule s = .ok () := by
  unfold checkSchedule
  cases s with
  | nil => simp
  | cons b r =>
      rw [List.isEmpty_cons, if_neg Bool.false_ne_true]
      cases schedule (b :: r) <;> simp

theorem checkQuery_eq_nil_iff {c : QueryConfig} :
    checkQuery c = [] ↔ 1 ≤ c.defaultLimit ∧ c.defaultLimit ≤ c.maxLimit := by
  unfold checkQuery
  split
  · rename_i hlow
    simp only [Bool.or_eq_true, decide_eq_true_eq] at hlow
    simp only [List.cons_ne_nil, false_iff]
    omega
  · rename_i hlow
    simp only [Bool.or_eq_true, decide_eq_true_eq] at hlow
    rw [faultIf_eq_nil, decide_eq_false_iff_not]
    omega

theorem checkHistory_eq_nil_iff {c : HistoryConfig} :
    checkHistory schedule c = [] ↔ checkBackend c = []
      ∧ 0 ≤ c.recorder.asyncBuffer ∧ 0 ≤ c.recorder.maxFieldLength
      ∧ 0 ≤ c.retention.days ∧ 0 ≤ c.retention.maxRecords
      ∧ checkSchedule schedule c.retention.pruneSchedule = []
      ∧ checkQuery c.query = [] := by
  unfold checkHistory
  simp only [List.append_eq_nil_iff, faultIf_eq_nil, decide_eq_false_iff_not, Int.not_lt, and_assoc]

/-- The extensions of a watcher start with a dot and differ from its suffixes, which differ. -/
theorem checkWatch_eq_nil_iff {c : WatchConfig} :
    checkWatch c = []
      ↔ (∀ x ∈ c.extensions, x.startsWith "." = true ∧ x ≠ c.suffix ∧ x ≠ c.errorSuffix)
      ∧ c.suffix ≠ c.errorSuffix ∧ 0 ≤ c.debounce := by
  unfold checkWatch checkExtension
  simp [List.append_eq_nil_iff, faultIf_eq_nil, List.flatMap_eq_nil_iff]

theorem checkTracing_eq_nil_iff {c : TracingConfig} :
    checkTracing c = [] ↔ (c.enabled = true → c.endpoint ≠ [])
      ∧ c.sampler ∈ Text.ofStrings ["always", "never", "ratio"]
      ∧ ¬ c.sampleRatio < 0 ∧ ¬ c.sampleRatio > 1 := by
  unfold checkTracing
  simp [List.append_eq_nil_iff, faultIf_eq_nil]

theorem checkTelemetry_eq_nil_iff {c : TelemetryConfig} :
    checkTelemetry c = []
      ↔ c.logging.level ∈ Text.ofStrings ["debug", "info", "warn", "error"]
      ∧ c.logging.format ∈ Text.ofStrings ["json", "text", "console"]
      ∧ (c.metrics.isEnabled = true → c.metrics.path.startsWith "/" = true)
      ∧ checkTracing c.tracing = []
      ∧ c.health.livenessPath.startsWith "/" = true
      ∧ c.health.readinessPath.startsWith "/" = true := by
  unfold checkTelemetry
  simp [List.append_eq_nil_iff, faultIf_eq_nil]

/-! ## All sections -/

/-- What is asked of settings that no variable overrides. -/
structure FixedSound (c : Config) : Prop where
  idleTimeout : 0 ≤ c.server.idleTimeout
  maxBodyBytes : 1 ≤ c.server.maxBodyBytes
  requestsPerSecond : ¬ c.server.rateLimit.requestsPerSecond < 0
  burst : 0 ≤ c.server.rateLimit.burst
  maxConcurrent : 0 ≤ c.server.rateLimit.maxConcurrent
  keyPair : c.server.tls.enabled = true → c.server.tls.certFile ≠ [] ∧ c.server.tls.keyFile ≠ []
  minVersion : c.server.tls.enabled = true →
    c.server.tls.minVersion = Text.ofString "1.2" ∨ c.server.tls.minVersion = Text.ofString "1.3"
  asyncBuffer : 0 ≤ c.history.recorder.asyncBuffer
  maxFieldLength : 0 ≤ c.history.recorder.maxFieldLength
  maxRecords : 0 ≤ c.history.retention.maxRecords
  defaultLimit : 1 ≤ c.history.query.defaultLimit
  limits_ordered : c.history.query.defaultLimit ≤ c.history.query.maxLimit
  livenessPath : c.telemetry.health.livenessPath.startsWith "/" = true
  readinessPath : c.telemetry.health.readinessPath.startsWith "/" = true

/-- What is asked of settings that variables override, some of it together with fixed settings: a
suffix differs from that of error reports, and metrics that are kept have a path. What a schedule is
is up to its reader. -/
structure OpenSound (schedule : ScheduleReader) (c : Config) : Prop where
  maxCleanPasses : 1 ≤ c.converter.maxCleanPasses
  maxDepth : 1 ≤ c.converter.maxDepth
  maxInputBytes : 0 ≤ c.converter.maxInputBytes
  listenAddress : ∃ parts, Net.splitAddress c.server.listenAddress = .ok parts
  readTimeout : 0 ≤ c.server.readTimeout
  writeTimeout : 0 ≤ c.server.writeTimeout
  shutdownTimeout : 0 ≤ c.server.shutdownTimeout
  backend : c.history.backend = Text.ofString "memory"
    ∨ (c.history.backend = Text.ofString "sqlite" ∨ c.history.backend = Text.ofString "sqlite3")
      ∧ c.history.sqlite.path ≠ []
  days : 0 ≤ c.history.retention.days
  pruneSchedule : c.history.retention.pruneSchedule = []
    ∨ schedule c.history.retention.pruneSchedule = .ok ()
  extensions : ∀ x ∈ c.watch.extensions,
    x.startsWith "." = true ∧ x ≠ c.watch.suffix ∧ x ≠ c.watch.errorSuffix
  suffixes_differ : c.watch.suffix ≠ c.watch.errorSuffix
  debounce : 0 ≤ c.watch.debounce
  level : c.telemetry.logging.level ∈ Text.ofStrings ["debug", "info", "warn", "error"]
  format : c.telemetry.logging.format ∈ Text.ofStrings ["json", "text", "console"]
  metricsPath : c.telemetry.metrics.isEnabled = true →
    c.telemetry.metrics.path.startsWith "/" = true
  endpoint : c.telemetry.tracing.enabled = true → c.telemetry.tracing.endpoint ≠ []
  sampler : c.telemetry.tracing.sampler ∈ Text.ofStrings ["always", "never", "ratio"]
  sampleRatio : ¬ c.telemetry.tracing.sampleRatio < 0 ∧ ¬ c.telemetry.tracing.sampleRatio > 1

variable {c : Config}

theorem faults_eq_nil_iff : c.faults schedule = [] ↔ c.FixedSound ∧ c.OpenSound schedule := by
  unfold faults
  simp only [List.append_eq_nil_iff, and_assoc, checkConverter_eq_nil_iff,
    checkServer_eq_nil_iff, checkListenAddress_eq_nil_iff, checkTls_eq_nil_iff,
    checkHistory_eq_nil_iff, checkBackend_eq_nil_iff, checkSchedule_eq_nil_iff,
    checkQuery_eq_nil_iff, checkWatch_eq_nil_iff, checkTelemetry_eq_nil_iff,
    checkTracing_eq_nil_iff]
  constructor
  · intro ⟨passes, depth, input, address, read, write, idle, shutdown, body, rate, burst,
      concurrent, keyPair, version, backend, buffer, field, days, records, schedule, limit, limits,
      extensions, suffixes, debounce, level, format, metrics, endpoint, sampler, low, high, live,
      ready⟩
    exact ⟨⟨idle, body, rate, burst, concurrent, keyPair, version, buffer, field, records, limit,
      limits, live, ready⟩, ⟨passes, depth, input, address, read, write, shutdown, backend, days,
      schedule, extensions, suffixes, debounce, level, format, metrics, endpoint, sampler, low,
      high⟩⟩
  · intro ⟨fixed, opened⟩
    exact ⟨opened.maxCleanPasses, opened.maxDepth, opened.maxInputBytes, opened.listenAddress,
      opened.readTimeout, opened.writeTimeout, fixed.idleTimeout, opened.shutdownTimeout,
      fixed.maxBodyBytes, fixed.requestsPerSecond, fixed.burst, fixed.maxConcurrent,
      fixed.keyPair, fixed.minVersion, opened.backend, fixed.asyncBuffer, fixed.maxFieldLength,
      opened.days, fixed.maxRecords, opened.pruneSchedule, fixed.defaultLimit,
      fixed.limits_ordered, opened.extensions, opened.suffixes_differ, opened.debounce,
      opened.level, opened.format, opened.metricsPath, opened.endpoint, opened.sampler,
      opened.sampleRatio.1, opened.sampleRatio.2, fixed.livenessPath, fixed.readinessPath⟩

theorem validate_eq (schedule : ScheduleReader) (c : Config) :
    c.validate schedule
      = if c.faults schedule = [] then .ok () else .error [.validation (c.faults schedule)] := by
  unfold validate
  split
  · rename_i hnone
    rw [if_pos hnone]
  · rename_i hsome
    rw [if_neg hsome]

theorem validate_eq_ok_iff : c.validate schedule = .ok () ↔ c.faults schedule = [] := by
  rw [validate_eq]
  split
  · rename_i hnone
    exact iff_of_true rfl hnone
  · rename_i hsome
    exact iff_of_false (by simp) hsome

/-- **Validation accepts exactly what is sound**, in fixed settings and in open ones. -/
theorem validate_accepts_iff :
    c.validate schedule = .ok () ↔ c.FixedSound ∧ c.OpenSound schedule :=
  validate_eq_ok_iff.trans faults_eq_nil_iff

end MathMarkup.Config
