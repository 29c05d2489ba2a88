import MathMarkup.Config.Document
import MathMarkup.Config.Load
import MathMarkup.Proofs.Checks

/-!
# Variables over files

A configuration has its settings from three places, each of which takes precedence over the one
before: defaults, a file, and variables of the environment. A variable that is not set or cannot be
read overrides nothing, and no variable touches the setting of another (`applyEnvironment_eq`).

One would expect that only the result of all this is checked. But a file is checked by itself before
variables are looked at, and so a file is refused for a setting that a variable would have
overridden. When that makes a difference is told exactly (`overrides_before_checks_iff`): all faults
of the file are in settings that have a variable, and the variables are such that nothing is wrong
with the result. Every file whose faults are only in such settings has variables like this
(`exists_openSound`). What the document of a file says and which texts are schedules is left to any
`Formats`; only the schedule of the defaults has to be one.
-/

namespace MathMarkup.Config

variable {env : Variables} {c : Config}

/-! ## What variables change -/

/-- The value that a variable gives, if it is set, not empty and can be read. -/
def given? {α : Type} (env : Variables) (name : String) (read : Text → Option α) : Option α :=
  (lookup? env name).bind read

/-- A setting is given the value of its variable, or else the one it has. -/
theorem override_eq {α : Type} {read : Text → Option α} {set : Config → α → Config} (name : String)
    (get : Config → α) (hsame : ∀ c, set c (get c) = c) :
    override env name read set c = set c ((given? env name read).getD (get c)) := by
  unfold override given?
  cases (lookup? env name).bind read with
  | none => exact (hsame c).symm
  | some v => rfl

/-- The same for a switch, which need not be set at all. -/
theorem override_switch_eq {α : Type} {read : Text → Option α} (name : String)
    (get : Config → Option α) (put : Config → Option α → Config)
    (hsame : ∀ c, put c (get c) = c) :
    override env name read (fun c v => put c (some v)) c
      = put c ((given? env name read).or (get c)) := by
  unfold override given?
  cases (lookup? env name).bind read with
  | none => exact (hsame c).symm
  | some v => rfl

/-- **Each variable overrides its own setting.** -/
theorem applyEnvironment_eq (env : Variables) (c : Config) :
    applyEnvironment env c =
      { converter :=
          { maxCleanPasses :=
              (given? env "CONVERTER_MAX_CLEAN_PASSES" readInt?).getD c.converter.maxCleanPasses
            maxDepth := (given? env "CONVERTER_MAX_DEPTH" readInt?).getD c.converter.maxDepth
            maxInputBytes :=
              (given? env "CONVERTER_MAX_INPUT_BYTES" readInt?).getD c.converter.maxInputBytes }
        server :=
          { c.server with
            listenAddress :=
              (given? env "SERVER_LISTEN_ADDRESS" some).getD c.server.listenAddress
            readTimeout :=
              (given? env "SERVER_READ_TIMEOUT" readDuration?).getD c.server.readTimeout
            writeTimeout :=
              (given? env "SERVER_WRITE_TIMEOUT" readDuration?).getD c.server.writeTimeout
            shutdownTimeout :=
              (given? env "SERVER_SHUTDOWN_TIMEOUT" readDuration?).getD c.server.shutdownTimeout }
        history :=
          { c.history with
            enabled :=
              (given? env "HISTORY_ENABLED" Number.readBool?).or c.history.enabled
            backend := (given? env "HISTORY_BACKEND" some).getD c.history.backend
            sqlite.path := (given? env "HISTORY_SQLITE_PATH" some).getD c.history.sqlite.path
            retention.days :=
              (given? env "HISTORY_RETENTION_DAYS" readInt?).getD c.history.retention.days
            retention.pruneSchedule :=
              (given? env "HISTORY_RETENTION_PRUNE_SCHEDULE" some).getD
                c.history.retention.pruneSchedule }
        watch :=
          { c.watch with
            dir := (given? env "WATCH_DIR" some).getD c.watch.dir
            suffix := (given? env "WATCH_SUFFIX" some).getD c.watch.suffix
            debounce := (given? env "WATCH_DEBOUNCE" readDuration?).getD c.watch.debounce
            extensions := (given? env "WATCH_EXTENSIONS" readList?).getD c.watch.extensions }
        telemetry :=
          { c.telemetry with
            logging.level :=
              (given? env "TELEMETRY_LOGGING_LEVEL" some).getD c.telemetry.logging.level
            logging.format :=
              (given? env "TELEMETRY_LOGGING_FORMAT" some).getD c.telemetry.logging.format
            metrics.enabled :=
              (given? env "TELEMETRY_METRICS_ENABLED" Number.readBool?).or
                c.telemetry.metrics.enabled
            tracing.enabled :=
              (given? env "TELEMETRY_TRACING_ENABLED" Number.readBool?).getD
                c.telemetry.tracing.enabled
            tracing.endpoint :=
              (given? env "TELEMETRY_TRACING_ENDPOINT" some).getD c.telemetry.tracing.endpoint
            tracing.sampler :=
              (given? env "TELEMETRY_TRACING_SAMPLER" some).getD c.telemetry.tracing.sampler
            tracing.sampleRatio :=
              (given? env "TELEMETRY_TRACING_SAMPLE_RATIO" readNumber?).getD
                c.telemetry.tracing.sampleRatio } } := by
  unfold applyEnvironment
  rw [override_eq "CONVERTER_MAX_CLEAN_PASSES" (·.converter.maxCleanPasses),
    override_eq "CONVERTER_MAX_DEPTH" (·.converter.maxDepth),
    override_eq "CONVERTER_MAX_INPUT_BYTES" (·.converter.maxInputBytes),
    override_eq "SERVER_LISTEN_ADDRESS" (·.server.listenAddress),
    override_eq "SERVER_READ_TIMEOUT" (·.server.readTimeout),
    override_eq "SERVER_WRITE_TIMEOUT" (·.server.writeTimeout),
    override_eq "SERVER_SHUTDOWN_TIMEOUT" (·.server.shutdownTimeout),
    override_switch_eq "HISTORY_ENABLED" (·.history.enabled)
      (fun c v => { c with history.enabled := v }),
    override_eq "HISTORY_BACKEND" (·.history.backend),
    override_eq "HISTORY_SQLITE_PATH" (·.history.sqlite.path),
    override_eq "HISTORY_RETENTION_DAYS" (·.history.retention.days),
    override_eq "HISTORY_RETENTION_PRUNE_SCHEDULE" (·.history.retention.pruneSchedule),
    override_eq "WATCH_DIR" (·.watch.dir),
    override_eq "WATCH_SUFFIX" (·.watch.suffix),
    override_eq "WATCH_DEBOUNCE" (·.watch.debounce),
    override_eq "WATCH_EXTENSIONS" (·.watch.extensions),
    override_eq "TELEMETRY_LOGGING_LEVEL" (·.telemetry.logging.level),
    override_eq "TELEMETRY_LOGGING_FORMAT" (·.telemetry.logging.format),
    override_switch_eq "TELEMETRY_METRICS_ENABLED" (·.telemetry.metrics.enabled)
      (fun c v => { c with telemetry.metrics.enabled := v }),
    override_eq "TELEMETRY_TRACING_ENABLED" (·.telemetry.tracing.enabled),
    override_eq "TELEMETRY_TRACING_ENDPOINT" (·.telemetry.tracing.endpoint),
    override_eq "TELEMETRY_TRACING_SAMPLER" (·.telemetry.tracing.sampler),
    override_eq "TELEMETRY_TRACING_SAMPLE_RATIO" (·.telemetry.tracing.sampleRatio)]
  all_goals
    intro c
    rfl

/-- **Variables leave fixed settings as they are.** -/
theorem applyEnvironment_fixedSound : (applyEnvironment env c).FixedSound ↔ c.FixedSound := by
  rw [applyEnvironment_eq]
  exact ⟨fun h => { h with }, fun h => { h with }⟩

/-! ## Variables that mend -/

/-- A suffix for outputs, and another. -/
def spareSuffix (other : Bool) : Text := if other then ".out" else ".solver"

/-- An extension of sources, and another. -/
def spareExtension (other : Bool) : Text := if other then ".latex" else ".tex"

/-- Variables that give every open setting a sound value; the schedule is that of the defaults. The
suffix and the extension have to differ from the suffix of error reports, for which there is no
variable, so there are two of each. -/
def mending (other : Bool) : Variables :=
  [("TEXSOLVE_CONVERTER_MAX_CLEAN_PASSES", "1"), ("TEXSOLVE_CONVERTER_MAX_DEPTH", "1"),
    ("TEXSOLVE_CONVERTER_MAX_INPUT_BYTES", "1"), ("TEXSOLVE_SERVER_LISTEN_ADDRESS", ":0"),
    ("TEXSOLVE_SERVER_READ_TIMEOUT", "0"), ("TEXSOLVE_SERVER_WRITE_TIMEOUT", "0"),
    ("TEXSOLVE_SERVER_SHUTDOWN_TIMEOUT", "0"), ("TEXSOLVE_HISTORY_BACKEND", "memory"),
    ("TEXSOLVE_HISTORY_RETENTION_DAYS", "0"),
    ("TEXSOLVE_HISTORY_RETENTION_PRUNE_SCHEDULE", "0 3 * * *"),
    ("TEXSOLVE_WATCH_SUFFIX", spareSuffix other), ("TEXSOLVE_WATCH_DEBOUNCE", "0"),
    ("TEXSOLVE_WATCH_EXTENSIONS", spareExtension other),
    ("TEXSOLVE_TELEMETRY_LOGGING_LEVEL", "info"), ("TEXSOLVE_TELEMETRY_LOGGING_FORMAT", "text"),
    ("TEXSOLVE_TELEMETRY_METRICS_ENABLED", "0"), ("TEXSOLVE_TELEMETRY_TRACING_ENABLED", "0"),
    ("TEXSOLVE_TELEMETRY_TRACING_SAMPLER", "never"),
    ("TEXSOLVE_TELEMETRY_TRACING_SAMPLE_RATIO", "0.5")]

/-- A configuration with the values that these variables give. -/
def mended (other : Bool) (c : Config) : Config where
  converter := { maxCleanPasses := 1, maxDepth := 1, maxInputBytes := 1 }
  server :=
    { c.server with
      listenAddress := ":0", readTimeout := 0, writeTimeout := 0, shutdownTimeout := 0 }
  history :=
    { c.history with
      backend := "memory", retention.days := 0, retention.pruneSchedule := "0 3 * * *" }
  watch :=
    { c.watch with
      suffix := spareSuffix other, debounce := 0, extensions := [spareExtension other] }
  telemetry :=
    { c.telemetry with
      logging.level := "info", logging.format := "text", metrics.enabled := some false
      tracing.enabled := false, tracing.sampler := "never", tracing.sampleRatio := 0.5 }

theorem applyEnvironment_mending (other : Bool) (c : Config) :
    applyEnvironment (mending other) c = mended other c := by
  rw [applyEnvironment_eq]
  cases other <;> rfl

/-- One of the spare suffixes and the extension with it can be used beside any suffix of error
reports. -/
theorem exists_spare (errorSuffix : Text) :
    ∃ other, spareSuffix other ≠ errorSuffix ∧ spareExtension other ≠ errorSuffix := by
  by_cases htaken : spareSuffix false = errorSuffix ∨ spareExtension false = errorSuffix
  · refine ⟨true, ?_⟩
    rcases htaken with rfl | rfl <;> decide
  · exact ⟨false, not_or.mp htaken⟩

theorem mended_openSound {other : Bool} {schedule : ScheduleReader}
    (hdaily : schedule "0 3 * * *" = .ok ()) (hsuffix : spareSuffix other ≠ c.watch.errorSuffix)
    (hextension : spareExtension other ≠ c.watch.errorSuffix) :
    (mended other c).OpenSound schedule where
  maxCleanPasses := Int.le_refl 1
  maxDepth := Int.le_refl 1
  maxInputBytes := Int.zero_le_ofNat 1
  listenAddress := ⟨⟨[], "0"⟩, rfl⟩
  readTimeout := Int.le_refl 0
  writeTimeout := Int.le_refl 0
  shutdownTimeout := Int.le_refl 0
  backend := .inl rfl
  days := Int.le_refl 0
  pruneSchedule := .inr hdaily
  extensions := by
    intro x hx
    obtain rfl := List.mem_singleton.mp hx
    have hdot : (spareExtension other).startsWith "." = true := by cases other <;> rfl
    have hapart : spareExtension other ≠ spareSuffix other := by cases other <;> decide
    exact ⟨hdot, hapart, hextension⟩
  suffixes_differ := hsuffix
  debounce := Int.le_refl 0
  level := List.contains_iff_mem.mp rfl
  format := List.contains_iff_mem.mp rfl
  metricsPath := fun hkept => absurd hkept Bool.false_ne_true
  endpoint := fun htraced => absurd htraced Bool.false_ne_true
  sampler := List.contains_iff_mem.mp rfl
  sampleRatio := by
    -- stated apart, since the goal still mentions the other settings
    have hhalf : ¬ (0.5 : Float) < 0 ∧ ¬ (0.5 : Float) > 1 := by decide
    exact hhalf

/-- **Some variables make every open setting sound**, if the schedule of the defaults is one. -/
theorem exists_openSound {schedule : ScheduleReader} (hdaily : schedule "0 3 * * *" = .ok ())
    (c : Config) : ∃ env, (applyEnvironment env c).OpenSound schedule := by
  obtain ⟨other, hsuffix, hextension⟩ := exists_spare c.watch.errorSuffix
  refine ⟨mending other, ?_⟩
  rw [applyEnvironment_mending]
  exact mended_openSound hdaily hsuffix hextension

/-! ## Loading -/

variable {formats : Formats} {read : FileReader} {path data : Text}

/-- A configuration that passes a check comes out of it, and a note is put before the faults of any
other. -/
theorem checked_eq (schedule : ScheduleReader) (note : Text) (c : Config) :
    (do let _ ← noted note (c.validate schedule); pure c) =
      if c.faults schedule = [] then .ok c
      else .error [.note note, .validation (c.faults schedule)] := by
  rw [validate_eq]
  split
  · rfl
  · rfl

/-- A file that decodes is loaded with its defaults, checked. -/
theorem load_eq (hread : read path = .ok data) (hdecode : formats.document data = .ok c) :
    load formats read path =
      if (applyDefaults c).faults formats.schedule = [] then .ok (applyDefaults c)
      else .error [.note "configuration validation failed",
        .validation ((applyDefaults c).faults formats.schedule)] := by
  have hparse : parse formats.document data = .ok (applyDefaults c) := by
    rw [parse, hdecode]
    rfl
  rw [← checked_eq]
  unfold load
  rw [hread]
  simp only [noted, bind, Except.bind, hparse]

theorem overridden_eq_ok_iff {r : Config} :
    overridden formats env c = .ok r ↔
      (applyEnvironment env c).validate formats.schedule = .ok () ∧ r = applyEnvironment env c := by
  have heq : overridden formats env c =
      if (applyEnvironment env c).faults formats.schedule = [] then .ok (applyEnvironment env c)
      else .error [.note "configuration validation failed after environment overrides",
        .validation ((applyEnvironment env c).faults formats.schedule)] := checked_eq _ _ _
  rw [heq, validate_eq_ok_iff]
  by_cases hsound : (applyEnvironment env c).faults formats.schedule = []
  · rw [if_pos hsound, Except.ok.injEq, eq_comm]
    exact (and_iff_right hsound).symm
  · rw [if_neg hsound]
    exact iff_of_false (by simp) fun h => hsound h.1

/-- **A file that decodes is checked before variables are looked at.** -/
theorem loadWithEnvironment_eq (hread : read path = .ok data)
    (hdecode : formats.document data = .ok c) :
    loadWithEnvironment formats read env path =
      if (applyDefaults c).faults formats.schedule = [] then
        overridden formats env (applyDefaults c)
      else .error [.note "configuration validation failed",
        .validation ((applyDefaults c).faults formats.schedule)] := by
  unfold loadWithEnvironment
  rw [load_eq hread hdecode]
  split
  · rfl
  · rfl

theorem loadWithEnvironment_eq_ok_iff {r : Config} (hread : read path = .ok data)
    (hdecode : formats.document data = .ok c) :
    loadWithEnvironment formats read env path = .ok r
      ↔ (applyDefaults c).validate formats.schedule = .ok ()
      ∧ (applyEnvironment env (applyDefaults c)).validate formats.schedule = .ok ()
      ∧ r = applyEnvironment env (applyDefaults c) := by
  rw [loadWithEnvironment_eq hread hdecode, validate_eq_ok_iff]
  by_cases hfile : (applyDefaults c).faults formats.schedule = []
  · rw [if_pos hfile, overridden_eq_ok_iff]
    exact (and_iff_right hfile).symm
  · rw [if_neg hfile]
    exact iff_of_false (by simp) fun h => hfile h.1

/-- A file that says `c` is loaded as if variables overrode it first and only the result were
checked. -/
def ChecksLast (formats : Formats) (read : FileReader) (env : Variables) (path : Text)
    (c : Config) : Prop :=
  ∀ r, loadWithEnvironment formats read env path = .ok r ↔
    (applyEnvironment env (applyDefaults c)).validate formats.schedule = .ok ()
      ∧ r = applyEnvironment env (applyDefaults c)

/-- **Variables come first exactly if they mend nothing.** -/
theorem checksLast_iff (hread : read path = .ok data) (hdecode : formats.document data = .ok c) :
    ChecksLast formats read env path c ↔ ((applyDefaults c).FixedSound →
      (applyEnvironment env (applyDefaults c)).OpenSound formats.schedule →
      (applyDefaults c).OpenSound formats.schedule) := by
  constructor
  · intro hlast hfixed hopen
    have hloaded := (hlast (applyEnvironment env (applyDefaults c))).mpr
      ⟨validate_accepts_iff.mpr ⟨applyEnvironment_fixedSound.mpr hfixed, hopen⟩, rfl⟩
    have hfile := ((loadWithEnvironment_eq_ok_iff hread hdecode).mp hloaded).1
    exact (validate_accepts_iff.mp hfile).2
  · intro hunmended r
    rw [loadWithEnvironment_eq_ok_iff hread hdecode]
    refine and_iff_right_of_imp fun hresult => ?_
    obtain ⟨hfixed, hopen⟩ := validate_accepts_iff.mp hresult.1
    -- what is fixed is as the file says it, so only open settings can have been mended
    rw [applyEnvironment_fixedSound] at hfixed
    exact validate_accepts_iff.mpr ⟨hfixed, hunmended hfixed hopen⟩

/-- **When variables come before checks.** The readers of documents and of schedules are any that
take the schedule of the defaults for one. A file that decodes is loaded exactly if both it, with
its defaults, and the result of overriding it are accepted, and what is loaded is that result. A
file that is not accepted is refused with all its faults whatever the variables are. So variables
come first in an environment exactly if they do not mend the open settings of a file whose fixed
ones are sound; and they do so in every environment exactly if the faults of the file, if it has
any, are not in open settings alone, since variables can mend those. -/
theorem overrides_before_checks_iff (formats : Formats) (read : FileReader) (path data : Text)
    (c : Config) (hread : read path = .ok data) (hdecode : formats.document data = .ok c)
    (hdaily : formats.schedule "0 3 * * *" = .ok ()) :
    (∀ env r, loadWithEnvironment formats read env path = .ok r
        ↔ (applyDefaults c).validate formats.schedule = .ok ()
        ∧ (applyEnvironment env (applyDefaults c)).validate formats.schedule = .ok ()
        ∧ r = applyEnvironment env (applyDefaults c))
      ∧ ((applyDefaults c).validate formats.schedule ≠ .ok () →
        ∀ env, loadWithEnvironment formats read env path =
          .error [.note "configuration validation failed",
            .validation ((applyDefaults c).faults formats.schedule)])
      ∧ (∀ env, ChecksLast formats read env path c ↔ ((applyDefaults c).FixedSound →
        (applyEnvironment env (applyDefaults c)).OpenSound formats.schedule →
        (applyDefaults c).OpenSound formats.schedule))
      ∧ ((∀ env, ChecksLast formats read env path c) ↔
        ((applyDefaults c).FixedSound → (applyDefaults c).OpenSound formats.schedule)) := by
  refine ⟨fun env r => loadWithEnvironment_eq_ok_iff hread hdecode, ?_,
    fun env => checksLast_iff hread hdecode, ?_⟩
  · intro hrefused env
    rw [ne_eq, validate_eq_ok_iff] at hrefused
    rw [loadWithEnvironment_eq hread hdecode, if_neg hrefused]
  · constructor
    · intro hall hfixed
      -- an environment that mends all there is to mend would show it
      obtain ⟨env, hopen⟩ := exists_openSound hdaily (applyDefaults c)
      exact (checksLast_iff hread hdecode).mp (hall env) hfixed hopen
    · intro hsound env
      rw [checksLast_iff hread hdecode]
      exact fun hfixed _ => hsound hfixed

/-- A document with a depth below zero. -/
def negativeDocument : Text := "converter:\n  max_depth: -1\n"

/-- Files that all hold this document. -/
def negativeFiles : FileReader := fun _ => .ok negativeDocument

/-- What the document says. -/
def negativeDepth : Config := { converter.maxDepth := -1 }

/-- A variable that overrides it. -/
def depthOverridden : Variables := [("TEXSOLVE_CONVERTER_MAX_DEPTH", "9")]

/-- With a depth of nine from a variable all would be sound, but the file is refused for its own. -/
theorem negativeDepth_refused :
    negativeFiles "config.yaml" = .ok negativeDocument
      ∧ Formats.inUse.document negativeDocument = .ok negativeDepth
      ∧ Formats.inUse.schedule "0 3 * * *" = .ok ()
      ∧ (applyEnvironment depthOverridden (applyDefaults negativeDepth)).validate
          Formats.inUse.schedule = .ok ()
      ∧ loadWithEnvironment .inUse negativeFiles depthOverridden "config.yaml"
        = .error [.note "configuration validation failed",
          .validation [⟨"converter.max_depth", "must be at least 1"⟩]]
      ∧ ¬ ChecksLast .inUse negativeFiles depthOverridden "config.yaml" negativeDepth := by
  have hread : negativeFiles "config.yaml" = .ok negativeDocument := rfl
  have hdecode : Formats.inUse.document negativeDocument = .ok negativeDepth := rfl
  have hdaily : Formats.inUse.schedule "0 3 * * *" = .ok () := rfl
  have haccepted : (applyEnvironment depthOverridden (applyDefaults negativeDepth)).validate
      Formats.inUse.schedule = .ok () := rfl
  have hfaults : (applyDefaults negativeDepth).faults Formats.inUse.schedule
      = [⟨"converter.max_depth", "must be at least 1"⟩] := rfl
  obtain ⟨hloads, hrefuses, -, -⟩ := overrides_before_checks_iff .inUse negativeFiles
    "config.yaml" negativeDocument negativeDepth hread hdecode hdaily
  have hrefused : (applyDefaults negativeDepth).validate Formats.inUse.schedule ≠ .ok () := by
    rw [ne_eq, validate_eq_ok_iff, hfaults]
    exact List.cons_ne_nil _ _
  have hrefusal := hrefuses hrefused depthOverridden
  rw [hfaults] at hrefusal
  refine ⟨hread, hdecode, hdaily, haccepted, hrefusal, fun hlast => ?_⟩
  have hloaded := (hlast _).mpr ⟨haccepted, rfl⟩
  exact hrefused ((hloads _ _).mp hloaded).1

end MathMarkup.Config
