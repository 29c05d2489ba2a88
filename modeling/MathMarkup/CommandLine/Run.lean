import MathMarkup.CommandLine.Command
import MathMarkup.CommandLine.Converting
import MathMarkup.CommandLine.Help
import MathMarkup.CommandLine.Inspecting
import MathMarkup.CommandLine.Serving
import MathMarkup.CommandLine.Watching

/-!
# Running the program

The program finds the command among its arguments, reads the options of the command, loads the
configuration and runs the command. What went wrong is printed at the end, unless the command has
printed it, and decides the exit code.
-/

namespace MathMarkup.CommandLine

open Telemetry (Logger noting)

/-- The file of the configuration, unless another one is given. -/
def configPath : Text := "texsolve.yaml"

/-- What the program says about itself. -/
def versionText (r : Release) : Text :=
  "texsolve " ++ r.version ++ "\nGit Commit: " ++ r.commit ++ "\nBuild Date: " ++ r.date
    ++ "\nGo Version: " ++ r.compiler ++ "\nOS/Arch: " ++ r.platform ++ "\n"

/-- Reads the configuration that a command is given and makes its logger. -/
def setUp (w : World) (g : Given) : Action Setup := do
  let path := g.text "config" configPath
  let c ← Action.attempt
    (Config.loadOrDefault w.formats (← Action.files).contents w.environment path)
  let level := if g.isOn "verbose" then Text.ofString "debug" else c.telemetry.logging.level
  let c := { c with telemetry.logging.level := level }
  let logging := c.telemetry.logging
  match Logger.ofConfig logging.level logging.format logging.addSource with
  | .error f => throw [.configField "telemetry.logging" f.message]
  | .ok logger =>
    let s : Setup := { world := w, config := c, logger, given := g }
    s.log [] ⟨.debug, "configuration loaded", noting "path" (.text path)⟩
    return s

/-- Runs a command that is given something. -/
def runCommand (w : World) (c : Command) (g : Given) : Action Unit :=
  match c with
  | .convert => setUp w g >>= runConvert
  | .clean => setUp w g >>= runClean
  | .serve => setUp w g >>= runServe
  | .watch => setUp w g >>= runWatch
  | .list => setUp w g >>= runList
  | .showOne => setUp w g >>= runShow
  | .exportAll => setUp w g >>= runExport
  | .prune => setUp w g >>= runPrune
  | .version => Action.print (versionText w.release)
  | .help => Action.print (Command.helpFor g.arguments)
  | .program | .history | .completion => Action.print c.helpText

/-- Runs the program with arguments. -/
def runArguments (w : World) (args : List Text) : Action Unit := do
  let (c, rest) ← Action.attempt (Command.find args)
  match readGiven c.options rest with
  | .error message => throw [.usage message]
  | .ok g =>
    if g.isOn "help" || !c.isRunnable && !g.isOn "version" then Action.print c.helpText
    else if c = .program && g.isOn "version" then
      Action.print ("texsolve version " ++ w.release.version ++ "\n")
    else
      match c.argumentFault? g.arguments with
      | some message => throw [.usage message]
      | none => runCommand w c g

/-- How the program ended. -/
structure Ending where
  exitCode : Nat
  session : Session

/-- Runs the program in a session. -/
def run (w : World) (args : List Text) (s : Session) : Ending :=
  match (runArguments w args).run.run s with
  | (.ok _, s) => ⟨0, s⟩
  | (.error f, s) =>
    let printed := if f.isPrinted then [] else f.printed ++ "\n"
    ⟨f.exitCode, { s with err := s.err ++ printed }⟩

end MathMarkup.CommandLine
