import MathMarkup.CommandLine.Recording
import MathMarkup.Output.Format
import MathMarkup.Output.Progress
import MathMarkup.Text.Space

/-!
# Converting and cleaning

The commands that work on pieces of markup. Each piece is an argument, a file or the standard input,
and each has a result of its own; a piece that fails does not keep the others from being worked on.
-/

namespace MathMarkup.CommandLine

open Engine (Service Reply)
open History (Store)
open Output (Format Progress)

/-! ## Inputs -/

/-- A piece of markup and where it comes from. -/
structure Input where
  source : Text
  text : Text

/-- The source of a piece that is an argument. -/
def argumentSource : Text := "arg"

/-- The source of a piece that is the standard input. -/
def streamSource : Text := "stdin"

/-- The pieces of markup that a command is given: arguments, then files, then the standard input. -/
def Setup.inputs (s : Setup) : Action (List Input) := do
  let read (path : Text) : Action Input := do
    let t ← Action.attemptFor (.note ("failed to read " ++ path)) ((← Action.files).contents path)
    return ⟨path, t.trimSpace⟩
  let files ← (s.given.texts "file").mapM read
  let stream := if s.given.isOn "stdin" then [⟨streamSource, s.world.input.trimSpace⟩] else []
  match s.given.arguments.map (Input.mk argumentSource) ++ files ++ stream with
  | [] => throw [.usage "no input: pass markup as arguments, --file or --stdin"]
  | inputs => return inputs

/-- What stands in front of the result of a piece, so that results of several can be told apart. -/
def Input.label (x : Input) (several : Bool) : Text :=
  if !several || x.source == argumentSource then [] else x.source ++ ": "

/-! ## Results -/

/-- What became of a piece. -/
structure PieceResult where
  input : Input
  reply : Reply

namespace PieceResult

/-- Whether the work on a piece failed. -/
def failed (r : PieceResult) : Bool := !r.reply.fault.isEmpty

/-- The place in the piece at which the work failed, if it is known. -/
def position? (r : PieceResult) : Option Int :=
  match r.reply.fault.fromReport? with
  | some (.report _ _ p _ :: _) => if 0 ≤ p then some p else none
  | _ => none

/-- A result as JSON; what is not there is left out. -/
def json (r : PieceResult) (showOutput showCleaned : Bool) : Json :=
  let o := r.reply.outcome
  let only (b : Bool) (fields : List (Text × Json)) : List (Text × Json) := if b then fields else []
  .object
    (Json.textField "source" r.input.source ++ Json.textField "input" r.input.text
      ++ only showOutput (Json.textUnlessEmpty "output" o.output)
      ++ only showCleaned (Json.textUnlessEmpty "cleaned" o.cleaned)
      ++ only (showCleaned && o.passes != 0) (Json.intField "clean_passes" o.passes)
      ++ only r.failed (Json.textField "error" r.reply.fault.printed
        ++ Json.textField "error_type" r.reply.fault.typeName)
      ++ ((r.position?.map fun p => Json.intField "position" p).getD [])
      ++ Json.textField "request_id" o.requestId)

end PieceResult

/-- Results as they are printed in JSON: a single one stands alone. -/
def resultsJson : List Json → Json
  | [j] => j
  | js => .array js

/-- The fault of a command some of whose pieces failed. What is wrong with them has been printed. -/
def someFailed (failed total : Nat) (what : Text) : Fault :=
  if failed = 0 then []
  else [.printed, .plain (Text.ofNat failed ++ " of " ++ Text.ofNat total ++ " " ++ what)]

/-! ## The commands -/

/-- The formats of results. -/
def resultFormats : List Text := [Format.text.name, Format.json.name]

/-- How a command works on pieces of markup. -/
structure PieceWork where
  /-- Works on one piece. -/
  run : Service Store → Engine.Surroundings → Input → Service Store × Reply
  /-- What is printed for a piece that did not fail. -/
  shown : Engine.Outcome → Text
  /-- Whether the output is a part of the result. -/
  showOutput : Bool
  /-- Whether the cleaned markup is a part of the result. -/
  showCleaned : Bool
  /-- Whether the cleaned markup is printed beside the result. -/
  printCleaned : Bool
  /-- What is said when pieces fail. -/
  complaint : Text

/-- How far a batch has come is shown on the standard error output. -/
def showProgress (p : Option Progress) : Action Unit :=
  match p with
  | none => pure ()
  | some p => Action.warn (p.line (p.rateText 0))

/-- Prints a result as text. -/
def printResult (w : PieceWork) (several : Bool) (r : PieceResult) : Action Unit := do
  let label := r.input.label several
  let o := r.reply.outcome
  if w.printCleaned && !o.cleaned.isEmpty then
    Action.print (label ++ "cleaned: " ++ o.cleaned ++ "\n")
  if r.failed then Action.warn (label ++ r.reply.fault.printed ++ "\n")
  else Action.print (label ++ w.shown o ++ "\n")

/-- Works on pieces one after the other; `done` of them have been worked on before. -/
def runPieces (s : Setup) (w : PieceWork) (asText several : Bool) (progress : Option Progress) :
    Nat → List Input → Service Store → Action (Service Store × List PieceResult)
  | _, [], x => return (x, [])
  | done, i :: rest, x => do
    let (x, reply) := w.run x (← s.world.next) i
    let x ← s.flushLog x
    let r : PieceResult := ⟨i, reply⟩
    if asText then printResult w several r
    showProgress (progress.map fun p => p.update (done + 1))
    let (x, rs) ← runPieces s w asText several progress (done + 1) rest x
    return (x, r :: rs)

/-- Works on all pieces with a service and prints what came out. -/
def workOnPieces (s : Setup) (w : PieceWork) (format : Text) (inputs : List Input)
    (x : Service Store) : Action (Service Store × Fault) := do
  let asText := format == Format.text.name
  let several := inputs.length > 1
  let progress := if s.given.isOn "progress" && several then some (Progress.start inputs.length)
    else none
  showProgress progress
  let (x, rs) ← runPieces s w asText several progress 0 inputs x
  if let some p := progress then do
    showProgress (some p.finish)
    Action.warn "\n"
  if !asText then
    Action.print
      ((resultsJson (rs.map fun r => r.json w.showOutput w.showCleaned)).indented ++ "\n")
  return (x, someFailed (rs.filter (·.failed)).length inputs.length w.complaint)

/-- Converts pieces of markup and records what came out. -/
def runConvert (s : Setup) : Action Unit := do
  let format ← Action.attempt (Format.read (s.given.text "format" Format.text.name) resultFormats)
  let inputs ← s.inputs
  let showCleaned := s.given.isOn "show-cleaned"
  let work : PieceWork :=
    { run := fun x w i => x.convert Store.storage w none
        { input := i.text, origin := Engine.originCommand }
      shown := fun o => o.output
      showOutput := true
      showCleaned
      printCleaned := showCleaned
      complaint := "conversions failed" }
  s.withService (workOnPieces s work format inputs)

/-- Cleans pieces of markup; nothing is recorded. -/
def runClean (s : Setup) : Action Unit := do
  let format ← Action.attempt (Format.read (s.given.text "format" Format.text.name) resultFormats)
  let inputs ← s.inputs
  let work : PieceWork :=
    { run := fun x w i => x.clean Store.storage w none
        { input := i.text, origin := Engine.originCommand }
      shown := fun o => o.cleaned
      showOutput := false
      showCleaned := true
      printCleaned := false
      complaint := "inputs failed to clean" }
  let (_, f) ← workOnPieces s work format inputs { config := s.config.converter }
  if !f.isEmpty then throw f

end MathMarkup.CommandLine
