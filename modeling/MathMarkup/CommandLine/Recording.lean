import MathMarkup.CommandLine.Session
import MathMarkup.History.Store

/-!
# Commands and the history

Commands that convert record what they do, unless the history is switched off. The store is opened
before the work and closed after it, whether the work fails or not; what was recorded is then in its
file.
-/

namespace MathMarkup.CommandLine

open Engine (Service)
open History (Store Recorder Storage)
open Telemetry (LogEntry noting)

/-- The name of the component that keeps records in a database. -/
def databaseComponent : Text := "history.storage." ++ History.Database.backend

/-- Logs something about a store that keeps records in a database. -/
def Setup.logDatabase (s : Setup) (x : Store) (e : LogEntry) : Action Unit :=
  match x with
  | .memory _ => pure ()
  | .table _ _ => s.log databaseComponent e

/-- Opens the store of the configuration. -/
def Setup.openStore (s : Setup) : Action Store := do
  let c := s.config.history
  let (x, files) ← Action.attemptFor (.note "failed to open history")
    (Store.openWith c (← Action.files))
  Action.setFiles files
  s.logDatabase x ⟨.info, "history storage initialized", noting "path" (.text c.sqlite.path)
    ++ noting "max_open_conns" (.int c.sqlite.maxOpenConns)⟩
  s.log [] ⟨.debug, "history store opened", noting "backend" (.text c.backend)⟩
  return x

/-- Closes a store, after which its file holds everything. -/
def Setup.closeStore (s : Setup) (x : Store) : Action Unit := do
  Action.setFiles (x.save (← Action.files))
  s.logDatabase x ⟨.info, "history storage closed", []⟩

/-- Works with the store, which has to be there. The work hands back the store as it left it and
what is wrong, if anything is. -/
def Setup.withStore (s : Setup) (work : Store → Action (Store × Fault)) : Action Unit := do
  if !s.config.history.isEnabled then throw [.configField "history.enabled" "history is disabled"]
  let x ← s.openStore
  let (x, f) ← tryCatch (work x) fun f => pure (x, f)
  s.closeStore x
  if !f.isEmpty then throw f

/-- A new recorder for a store. -/
def Setup.recorder (s : Setup) (x : Store) : Recorder Store :=
  { capacity := s.config.history.recorder.asyncBuffer.toNat, state := x }

/-- The service that converts for a command. -/
def Setup.openService (s : Setup) : Action (Service Store) := do
  let c := s.config.history
  let service : Service Store :=
    { config := s.config.converter, maxField := c.recorder.maxFieldLength }
  if c.isEnabled then do
    let x ← s.openStore
    s.log Recorder.componentName ⟨.debug, "history recorder initialized",
      noting "async_buffer" (.int c.recorder.asyncBuffer)
        ++ noting "write_timeout" (.duration c.recorder.writeTimeout)
        ++ noting "max_field_length" (.int c.recorder.maxFieldLength)⟩
    return { service with recorder := some (s.recorder x) }
  else return service

/-- Ends a service: what is queued is stored, and the store is closed. -/
def Setup.closeService (s : Setup) (x : Service Store) : Action Unit :=
  match x.recorder with
  | none => pure ()
  | some r => do
    let pending := r.queue.length
    let r := r.shutDown Store.storage
    s.log Recorder.componentName
      ⟨.debug, "draining history channel", noting "pending_count" (.int pending)⟩
    s.log Recorder.componentName ⟨.debug, "history recorder shut down", []⟩
    s.closeStore r.state

/-- Does work with a service, which is ended after it. The work hands back the service as it left it
and what is wrong, if anything is. -/
def Setup.withService (s : Setup) (work : Service Store → Action (Service Store × Fault)) :
    Action Unit := do
  let x ← s.openService
  let (x, f) ← work x
  s.closeService x
  if !f.isEmpty then throw f

/-- Writes what a service has logged. -/
def Setup.flushLog (s : Setup) (x : Service Store) : Action (Service Store) := do
  let (log, x) := x.takeLog
  s.logAll log
  return x

end MathMarkup.CommandLine
