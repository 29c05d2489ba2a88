import MathMarkup.Tree.Basic

/-!
# Failures of the stages

A text is cleaned, read and rendered; each stage has its own way to fail. A failure is kept as its
cause, with the place in the text it concerns, and `StageError.message` is the one place that words
it.
-/

namespace MathMarkup

/-- The causes that a failure can be traced back to. -/
inductive Reason where
  | delimiterStart
  | unbalancedDelimiter
  | missingArgument
  | unknownNodeKind
  | unknownFunctionName
  | unknownEnvironmentType
  | unsupportedDeterminantOrder
  | arityMismatch
  | nonConvergence
  | depthLimit
deriving DecidableEq, Repr

namespace Reason

/-- All reasons in the order in which they are looked for. -/
def all : List Reason :=
  [delimiterStart, unbalancedDelimiter, missingArgument, unknownNodeKind, unknownFunctionName,
    unknownEnvironmentType, unsupportedDeterminantOrder, arityMismatch, nonConvergence, depthLimit]

/-- The wording of a reason. -/
def message : Reason → Text
  | delimiterStart => "expression not starting with a bracket was sent to bracket parser"
  | unbalancedDelimiter => "missing closing brace"
  | missingArgument => "missing arguments"
  | unknownNodeKind => "unknown node kind"
  | unknownFunctionName => "unknown function name"
  | unknownEnvironmentType => "unknown environment type"
  | unsupportedDeterminantOrder => "unsupported determinant order"
  | arityMismatch => "wrong number of arguments"
  | nonConvergence => "cleaning did not converge"
  | depthLimit => "nesting depth limit exceeded"

end Reason

/-- The number of bytes of context shown with a position. -/
def contextLength : Nat := 10

/-- The first bytes of a text from a position on; empty if the position is outside the text. -/
def contextAt (t : Text) (pos : Int) : Text :=
  if pos < 0 then [] else (t.drop pos.toNat).take contextLength

/-- A bracket scan that failed. -/
structure DelimiterError where
  reason : Option Reason
  position : Int
  context : Text
deriving DecidableEq, Repr

/-- A command that lacks its `argument`-th argument. -/
structure MissingArgument where
  command : Text
  argument : Int
  position : Int
deriving DecidableEq, Repr

/-- A cleaning failure: a command without enough arguments. -/
structure CleaningError where
  position : Int
  context : Text
  missing : MissingArgument
deriving DecidableEq, Repr

/-- A place where the text is no markup. Offsets are in bytes; lines and columns count from 1. -/
structure SyntaxError where
  detail : Text
  start : Int
  stop : Int
  line : Int
  column : Int
  found : Text
  expected : List Text := []
  suggestion : Text := []
deriving DecidableEq, Repr

/-- A tree, or a part of one, that solver syntax cannot express. -/
structure RenderError where
  reason : Option Reason
  node : Option Node := none
  detail : Text := []
  suggestion : Text := []

/-- A limit that was reached. -/
structure LimitError where
  reason : Option Reason
  detail : Text
deriving DecidableEq, Repr

namespace DelimiterError

/-- The wording of a failed bracket scan. -/
def message (e : DelimiterError) : Text :=
  if e.reason = some .unbalancedDelimiter then "Missing closing brace: " ++ e.context
  else
    "Expression not starting with a bracket was sent to bracket parser (position "
      ++ Text.ofInt e.position ++ ")"

end DelimiterError

namespace MissingArgument

/-- The wording of a missing argument. -/
def message (e : MissingArgument) : Text :=
  Reason.missingArgument.message ++ ": argument " ++ Text.ofInt e.argument ++ " of " ++ e.command
    ++ " not found"

end MissingArgument

namespace CleaningError

/-- The failure at a command of a text that lacks an argument. -/
def atCommand (t : Text) (command : Text) (argument pos : Int) : CleaningError :=
  { position := pos, context := contextAt t pos, missing := ⟨command, argument, pos⟩ }

/-- The wording of a cleaning failure. -/
def message (e : CleaningError) : Text := "Missing arguments:" ++ e.context

end CleaningError

namespace SyntaxError

/-- The wording of a syntax error. -/
def message (e : SyntaxError) : Text :=
  "line " ++ Text.ofInt e.line ++ ", column " ++ Text.ofInt e.column ++ ": " ++ e.detail
    ++ Text.when (!e.expected.isEmpty) (" (expected " ++ Text.join ", " e.expected ++ ")")
    ++ Text.when (!e.suggestion.isEmpty) (": " ++ e.suggestion)

end SyntaxError

namespace RenderError

/-- The wording of a rendering failure. -/
def message (e : RenderError) : Text :=
  "Unknown entity encountered"
    ++ Text.when (!e.detail.isEmpty) (": " ++ e.detail)
    ++ Text.when (!e.suggestion.isEmpty) (" (" ++ e.suggestion ++ ")")

end RenderError

namespace LimitError

/-- The wording of a limit that was reached. -/
def message (e : LimitError) : Text :=
  let reason : Text := (e.reason.map Reason.message).getD "<nil>"
  if e.detail.isEmpty then reason else reason ++ ": " ++ e.detail

end LimitError

/-- The ways in which a stage fails. -/
inductive StageError where
  | delimiter (e : DelimiterError)
  | cleaning (e : CleaningError)
  | markup (e : SyntaxError)
  | rendering (e : RenderError)
  | limit (e : LimitError)

/-- Failures sorted by the stage they come from. -/
inductive Category where
  | delimiter
  | cleaning
  | markup
  | rendering
  | limit
  | unknown
deriving DecidableEq, Repr

namespace Category

/-- The name of a category. -/
def name : Category → Text
  | delimiter => "delimiter"
  | cleaning => "cleaning"
  | markup => "syntax"
  | rendering => "translation"
  | limit => "internal"
  | unknown => "unknown"

end Category

namespace StageError

/-- The category of a stage failure. -/
def category : StageError → Category
  | delimiter _ => .delimiter
  | cleaning _ => .cleaning
  | markup _ => .markup
  | rendering _ => .rendering
  | limit _ => .limit

/-- The cause that a stage failure can be traced back to. -/
def reason? : StageError → Option Reason
  | delimiter e => e.reason
  | cleaning _ => some .missingArgument
  | markup _ => none
  | rendering e => e.reason
  | limit e => e.reason

/-- The wording of a stage failure. -/
def message : StageError → Text
  | delimiter e => e.message
  | cleaning e => e.message
  | markup e => e.message
  | rendering e => e.message
  | limit e => e.message

end StageError

end MathMarkup
