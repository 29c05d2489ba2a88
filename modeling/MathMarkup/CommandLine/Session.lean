import MathMarkup.Certificate.Reload
import MathMarkup.CommandLine.Options
import MathMarkup.Config.Document
import MathMarkup.Config.Load
import MathMarkup.Engine.Service
import MathMarkup.Files.Basic

/-!
# Sessions

A command runs in a session: it reads and writes files, prints on two streams, and takes names and
times from a world that is given to it. Everything a command does is a function of the world and of
the session it starts in. An action that fails ends the command; what it has done until then stays
done.
-/

namespace MathMarkup.CommandLine

open Telemetry (Logger LogEntry)

/-- What is known of the program that runs. -/
structure Release where
  version : Text := "0.1.0"
  commit : Text := "unknown"
  date : Text := "unknown"
  compiler : Text
  platform : Text

/-- What a command finds around it. -/
structure World where
  release : Release
  /-- The standard input. -/
  input : Text := []
  /-- The variables of the environment. -/
  environment : List (Text × Text) := []
  /-- Names that nothing else has, one for every number. -/
  name : Nat → Text
  /-- The times at which names are handed out. -/
  clock : Nat → Time.Stamp
  /-- The calendar of the clock. -/
  calendar : Time.Calendar := .utc
  /-- The formats of configurations. -/
  formats : Config.Formats := .inUse
  /-- What texts of certificates hold. -/
  certificate : Text → Certificate.CertificateText := fun _ => .garbage
  /-- What texts of keys hold. -/
  key : Text → Certificate.KeyText := fun _ => .garbage
  /-- The address that listening at an address leads to, if the world lets anyone listen. -/
  bound : Text → Option Text := fun _ => none

/-- What a command has done so far. -/
structure Session where
  files : Files := {}
  /-- What stands on the standard output. -/
  out : Text := []
  /-- What stands on the standard error output. -/
  err : Text := []
  /-- How many names have been handed out. -/
  used : Nat := 0

/-- Something a command does, which may fail. -/
abbrev Action := ExceptT Fault (StateM Session)

/-- What a command works with once its configuration is read. -/
structure Setup where
  world : World
  config : Config
  logger : Logger
  given : Given

namespace Action

/-- Prints on the standard output. -/
def print (t : Text) : Action Unit := modify fun s => { s with out := s.out ++ t }

/-- Prints on the standard error output. -/
def warn (t : Text) : Action Unit := modify fun s => { s with err := s.err ++ t }

/-- Goes on with a result or fails with its fault. -/
def attempt {α : Type} : Except Fault α → Action α
  | .ok a => pure a
  | .error f => throw f

/-- Goes on with a result or fails with its fault under a layer. -/
def attemptFor {α : Type} (layer : Layer) : Except Fault α → Action α
  | .ok a => pure a
  | .error f => throw (layer :: f)

/-- The files as they are. -/
def files : Action Files := do return (← get).files

/-- Puts other files in place. -/
def setFiles (files : Files) : Action Unit := modify fun s => { s with files }

end Action

/-! ## Names, times and the log -/

namespace World

/-- The surroundings of the `n`-th piece of work: two names and a time. -/
def surroundings (w : World) (n : Nat) : Engine.Surroundings :=
  { fresh := w.name (2 * n), recordName := w.name (2 * n + 1), now := w.clock n }

end World

/-- Hands out the surroundings of a piece of work. -/
def World.next (w : World) : Action Engine.Surroundings := do
  let n := (← get).used
  modify fun s => { s with used := n + 1 }
  return w.surroundings n

/-- The time. -/
def World.now (w : World) : Action Time.Stamp := do return w.clock (← get).used

namespace Setup

/-- Writes an entry of a component to the log; an entry of no component belongs to the command. -/
def log (s : Setup) (component : Text) (e : LogEntry) : Action Unit := do
  let now ← s.world.now
  let logger := if component.isEmpty then s.logger else s.logger.component component
  Action.warn (logger.entryLine (some now.millisText) e)

/-- Writes entries to the log. -/
def logAll (s : Setup) (es : List (Text × LogEntry)) : Action Unit :=
  es.forM fun (component, e) => s.log component e

end Setup

end MathMarkup.CommandLine
