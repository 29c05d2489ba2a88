import MathMarkup.Failure.Stage

/-!
# Reports

A conversion fails with one report, whatever stage the failure comes from. The report says what went
wrong in words that can be shown to anyone, where in the text of the failing stage it happened, and
keeps the failure of the stage as its cause.
-/

namespace MathMarkup

/-- What is shown for failures that must not reveal more. -/
def genericMessage : Text := "Error."

/-- The failure of a conversion. -/
structure Report where
  category : Category
  message : Text
  /-- The byte offset of the failure, -1 if it is not known. -/
  position : Int
  node : Option Node := none
  cause : StageError

namespace SyntaxError

/-- The text of the failing stage from the start of the refused bytes to `contextLength` bytes past
the byte behind them. -/
def window (e : SyntaxError) (t : Text) : Text :=
  let start := if e.start < 0 then 0 else e.start
  let stop := e.stop + contextLength + 1
  let stop := if stop > t.length then (t.length : Int) else stop
  if start ≥ stop then [] else t.slice start.toNat stop.toNat

/-- The wording of a syntax error in a report. -/
def reportMessage (e : SyntaxError) (t : Text) : Text :=
  "Error: Unexpected token \"" ++ e.found ++ "\" at line " ++ Text.ofInt e.line ++ ", column "
    ++ Text.ofInt e.column ++ ", within context: " ++ e.window t

end SyntaxError

namespace RenderError

/-- The start of the node that could not be rendered, if its place is known. -/
def position (e : RenderError) : Int :=
  match e.node with
  | some n => if n.span.isValid then n.span.start else -1
  | none => -1

end RenderError

namespace StageError

/-- The report of a stage failure; `t` is the text the stage was given. -/
def report (e : StageError) (t : Text) : Report :=
  match e with
  | delimiter d =>
    { category := .delimiter, message := "Error: " ++ d.message, position := d.position,
      cause := e }
  | cleaning c =>
    { category := .cleaning, message := "Error: " ++ c.message, position := c.position, cause := e }
  | markup s =>
    { category := .markup, message := s.reportMessage t, position := s.start, cause := e }
  | rendering r =>
    { category := .rendering, message := "Error: " ++ r.message, position := r.position
      node := r.node, cause := e }
  | limit _ => { category := .limit, message := genericMessage, position := -1, cause := e }

end StageError

end MathMarkup
