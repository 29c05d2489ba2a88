import MathMarkup.CommandLine.Converting
import MathMarkup.Watch.Watcher

/-!
# Watching

The command that converts the markup files of a directory tree: once, or until it is told to stop.
-/

namespace MathMarkup.CommandLine

open Engine (Service)
open History (Store)
open Watch (Watcher Workplace Result convertAll)

/-- Prints what became of a source, after what was logged about it. -/
def reportSource (s : Setup) (r : Result) : Action Unit := do
  s.logAll r.log
  if r.failure.isEmpty then Action.print ("✓ " ++ r.source ++ " -> " ++ r.output ++ "\n")
  else Action.warn ("✗ " ++ r.source ++ ": " ++ r.failure.printed ++ "\n")

/-- What is watched: the directory and the suffix may be given with the command. -/
def Setup.watched (s : Setup) : WatchConfig :=
  let c := s.config.watch
  { c with
    dir := s.given.arguments.headD c.dir
    suffix := if (s.given.text "suffix" []).isEmpty then c.suffix else s.given.text "suffix" [] }

/-- Runs a watcher on the files of the session and prints what became of the sources. -/
def watchFiles (s : Setup) (x : Service Store)
    (run : (Nat → Engine.Surroundings) → Workplace Store → Workplace Store × List Result × Fault) :
    Action (Service Store × List Result × Fault) := do
  let first := (← get).used
  let (place, rs, f) := run (fun i => s.world.surroundings (first + i)) ⟨x, ← Action.files⟩
  modify fun t => { t with files := place.files, used := first + rs.length + 1 }
  rs.forM (reportSource s)
  let x ← s.flushLog place.service
  return (x, rs, f)

/-- A fault of the command, if there is one. -/
def watchFault (f : Fault) : Fault := if f.isEmpty then [] else .command "watch" :: f

/-- Converts all sources once. -/
def watchOnce (s : Setup) (x : Service Store) : Action (Service Store × Fault) := do
  let (x, rs, f) ← watchFiles s x fun w => convertAll Store.storage w s.watched none
  let failed := (rs.filter fun r => !r.failure.isEmpty).length
  let fault :=
    if f.isEmpty then someFailed failed rs.length "files failed to convert" else watchFault f
  return (x, fault)

/-- Converts all sources and watches for changes until the command is told to stop. -/
def watchOn (s : Setup) (x : Service Store) : Action (Service Store × Fault) := do
  Action.print ("Watching " ++ s.watched.dir ++ " (Ctrl+C to stop)\n")
  let (x, _, f) ← watchFiles s x fun w place =>
    let (y, rs, f) := Watcher.start Store.storage w s.watched none { workplace := place }
    (y.stop.workplace, rs, f)
  return (x, watchFault f)

/-- Watches a directory tree. -/
def runWatch (s : Setup) : Action Unit :=
  s.withService (if s.given.isOn "once" then watchOnce s else watchOn s)

end MathMarkup.CommandLine
