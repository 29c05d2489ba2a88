import MathMarkup.CommandLine.Recording
import MathMarkup.Number.Fixed
import MathMarkup.Server.Lifecycle

/-!
# Serving

The command that starts the server and stops it when it is told to. Everything that the
configuration asks for is checked in turn before the server listens.
-/

namespace MathMarkup.CommandLine

open Certificate (PairFiles PairPaths Reloader Version listenerVersion)
open Engine (Service)
open History (Store Scheduler)
open Telemetry (Tracer LogEntry noting)

/-- A fault of the command. -/
def serveFault (f : Fault) : Fault := .command "serve" :: f

/-- The configuration with the address that the command is given. -/
def Setup.served (s : Setup) : Config :=
  match s.given.text "listen" [] with
  | [] => s.config
  | address => { s.config with server.listenAddress := address }

/-! ## Retention -/

/-- The name of the component that prunes on a schedule. -/
def schedulerComponent : Text := "history.scheduler"

/-- Starts the schedule of pruning. A schedule that cannot be read keeps nothing else from
working. -/
def startScheduler (s : Setup) : Action Scheduler := do
  let p := s.config.history.retention
  match ({} : Scheduler).start s.world.formats.schedule p with
  | .error f =>
    s.log [] (LogEntry.failure .warn "failed to start history retention" [] f)
    return {}
  | .ok x =>
    s.log schedulerComponent (if x.running then
      ⟨.info, "retention scheduler started", noting "schedule" (.text p.pruneSchedule)
        ++ noting "retention_days" (.int p.days) ++ noting "max_records" (.int p.maxRecords)⟩
    else ⟨.debug, "retention not configured, skipping scheduler", []⟩)
    return x

/-- Stops the schedule of pruning. -/
def stopScheduler (s : Setup) (x : Scheduler) : Action Unit :=
  if x.running then s.log schedulerComponent ⟨.info, "retention scheduler stopped", []⟩ else pure ()

/-! ## Certificates -/

/-- A text file as one of a pair. -/
def versionOf {α : Type} (fs : Files) (path : Text) (read : Text → α) : Option (Version α) :=
  (fs.contents path).toOption.map fun t => ⟨0, read t⟩

/-- The level of a report. -/
def reportLevel (name : Text) : Telemetry.Level :=
  if name == Telemetry.Level.warn.name then .warn else .debug

/-- Loads the certificate of the server, if connections are to be encrypted. -/
def loadCertificate (s : Setup) : Action Unit := do
  let c := s.config.server.tls
  if c.enabled then do
    let fs ← Action.files
    let now ← s.world.now
    let paths : PairPaths := ⟨c.certFile, c.keyFile⟩
    let pair : PairFiles :=
      ⟨versionOf fs c.certFile s.world.certificate, versionOf fs c.keyFile s.world.key⟩
    let checked : Except Fault Reloader := do
      let r ← Reloader.reload paths now.instant pair {}
      let _ ← listenerVersion c true
      pure r
    match checked with
    | .error f => throw [.configField "server.tls" f.message]
    | .ok r =>
      r.served.toList.forM fun x => do
        let (level, message) := Reloader.report x now.instant
        s.log "tls" ⟨reportLevel level, message, noting "subject" (.text x.commonName)
          ++ noting "expires_at" (.text x.notAfter.secondsText)⟩

/-! ## The server -/

/-- What is printed when the server listens at an address. -/
def banner (release : Release) (c : Config) (address : Text) : Text :=
  let scheme : Text := if c.server.tls.enabled then "https" else "http"
  let metrics := c.telemetry.metrics
  let limit := c.server.rateLimit
  let only (b : Bool) (t : Text) : Text := if b then t else []
  "texsolve v" ++ release.version ++ "\n✓ Server listening on " ++ address
    ++ "\n✓ Health endpoint: " ++ scheme ++ "://" ++ address
    ++ c.telemetry.health.livenessPath ++ "\n"
    ++ only metrics.isEnabled
      ("✓ Metrics endpoint: " ++ scheme ++ "://" ++ address ++ metrics.path ++ "\n")
    ++ only limit.isEnabled
      ("✓ Rate limit: " ++ Number.fixed 2 limit.requestsPerSecond ++ " req/s per client, burst "
        ++ Text.ofInt limit.burst ++ ", max concurrent " ++ Text.ofInt limit.maxConcurrent ++ "\n")
    ++ only c.history.isEnabled ("✓ History: " ++ c.history.backend ++ "\n")
    ++ "\nPress Ctrl+C to stop\n"

/-- Listens at the address of the configuration. -/
def listen (s : Setup) : Action Text := do
  let address := s.config.server.listenAddress
  match Server.listenFault? address with
  | some f => throw (serveFault f)
  | none =>
    match s.world.bound address with
    | some bound => return bound
    | none => throw (serveFault [.note "listen tcp", .plain "listening is not possible here"])

/-- Serves until the command is told to stop. -/
def serveUntilStopped (s : Setup) : Action Unit := do
  let address ← listen s
  let logged (message : Text) (as : List Telemetry.Attribute) : Action Unit :=
    s.log "server" ⟨.info, message, as⟩
  Action.print (banner s.world.release s.config address)
  logged "starting server" (noting "address" (.text address)
    ++ noting "tls" (.bool s.config.server.tls.enabled))
  logged "context cancelled, initiating shutdown" []
  logged "initiating graceful shutdown"
    (noting "timeout" (.text (Time.Duration.text s.config.server.shutdownTimeout)))
  logged "server stopped" []
  Action.print "✓ Server stopped\n"

/-- Serves with a service. -/
def serveWith (s : Setup) (x : Service Store) : Action (Service Store × Fault) := do
  let scheduler ← if x.recorder.isSome then startScheduler s else pure {}
  let work : Action Unit := do
    loadCertificate s
    serveUntilStopped s
  let f : Fault ← tryCatch (do work; return []) fun f => pure f
  stopScheduler s scheduler
  return (x, f)

/-- Starts the server, or only checks that it could be configured. -/
def runServe (s : Setup) : Action Unit := do
  let s := { s with config := s.served }
  if s.given.isOn "dry-run" then Action.print "✓ Configuration valid\n"
  else do
    let _ ← Action.attempt (match Tracer.ofConfig (some s.config.telemetry.tracing) false with
      | .ok t => .ok t
      | .error f => .error (serveFault (.note "failed to initialize tracing" :: f)))
    let x ← tryCatch s.openService fun f => throw (serveFault f)
    let (x, f) ← serveWith s x
    s.closeService x
    if !f.isEmpty then throw f

end MathMarkup.CommandLine
