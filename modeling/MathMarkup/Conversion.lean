import MathMarkup.Cleaning.Rule
import MathMarkup.Failure.Report
import MathMarkup.Grammar.Parse
import MathMarkup.Solver.Render
import MathMarkup.Tree.Walk

/-!
# Conversion

Markup becomes solver syntax in three stages: it is cleaned, read as a tree, and the tree is
rendered. A conversion can be cancelled between stages; whether it has been is asked before each of
them.
-/

namespace MathMarkup

/-- The limits of a conversion. -/
structure Limits where
  passes : Nat := Cleaning.defaultPasses
  depth : Nat := Grammar.defaultDepth

namespace Limits

/-- The limits for requested numbers; anything below one asks for the default. -/
def ofRequest (passes depth : Int) : Limits :=
  ⟨Cleaning.passLimit passes, Grammar.depthLimit depth⟩

end Limits

/-- A conversion that succeeded, with what its stages saw. -/
structure Conversion where
  output : Text
  cleaned : Text
  passes : Nat
  nodes : Nat

namespace Conversion

/-- Converts a text. -/
def convert (limits : Limits) (source : Text) : Except Report Conversion :=
  let outcome := Cleaning.clean limits.passes source
  match outcome.result with
  | .error e => .error (e.report source)
  | .ok cleaned =>
    match Grammar.parse limits.depth cleaned with
    | .error e => .error (e.report cleaned)
    | .ok tree =>
      match Solver.render limits.depth tree with
      | .error e => .error (e.report cleaned)
      | .ok output => .ok { output, cleaned, passes := outcome.passes, nodes := tree.count }

end Conversion

/-- When work is cancelled: after a number of times it has been asked about, or never. -/
abbrev Cancellation := Option Nat

namespace Cancellation

/-- Asks whether the work is cancelled: none if it is, else what is left to be asked. -/
def check? : Cancellation → Option Cancellation
  | none => some none
  | some 0 => none
  | some (n + 1) => some (some n)

end Cancellation

/-- How a conversion that can be cancelled fails. -/
inductive Interrupted where
  | cancelled
  | failed (report : Report)

namespace Conversion

/-- Converts a text unless it is cancelled before one of the stages. -/
def convertUnless (limits : Limits) (cancel : Cancellation) (source : Text) :
    Except Interrupted Text :=
  match cancel.check? with
  | none => .error .cancelled
  | some cancel =>
    match (Cleaning.clean limits.passes source).result with
    | .error e => .error (.failed (e.report source))
    | .ok cleaned =>
      match cancel.check? with
      | none => .error .cancelled
      | some cancel =>
        match Grammar.parse limits.depth cleaned with
        | .error e => .error (.failed (e.report cleaned))
        | .ok tree =>
          match cancel.check? with
          | none => .error .cancelled
          | some _ =>
            match Solver.render limits.depth tree with
            | .error e => .error (.failed (e.report cleaned))
            | .ok output => .ok output

end Conversion

end MathMarkup
