import MathMarkup.Time.Duration

/-!
# Measurements

What the parts of the program report about their work. A registry of metrics is a summary of the
measurements made so far, so the parts only have to list them.
-/

namespace MathMarkup.Telemetry

/-- How the writing of a record ended. -/
inductive WriteResult where
  | ok
  | error
  | dropped
deriving DecidableEq, Repr

/-- The name of a result. -/
def WriteResult.name : WriteResult → Text
  | ok => "ok"
  | error => "error"
  | dropped => "dropped"

/-- One measurement. -/
inductive Measurement where
  | conversion (status errorType : Text) (duration : Time.Duration) (inputBytes : Nat)
  | stage (name : Text) (duration : Time.Duration)
  | cleaningPasses (n : Nat)
  | historyWrite (result : WriteResult)
  | queueDepth (n : Nat)
  | request (route : Text) (code : Nat) (duration : Time.Duration)
deriving DecidableEq, Repr

end MathMarkup.Telemetry
