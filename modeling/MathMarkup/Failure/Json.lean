import MathMarkup.Failure.Fault
import MathMarkup.Tree.Json

/-!
# Faults as JSON

A fault is an object with its kind, its wording, the reason in it, and what its outermost layer
knows.
-/

namespace MathMarkup

/-- The word for a reason. -/
def Reason.word : Reason → Text
  | .delimiterStart => "delimiter_start"
  | .unbalancedDelimiter => "unbalanced_delimiter"
  | .missingArgument => "missing_argument"
  | .unknownNodeKind => "unknown_node_kind"
  | .unknownFunctionName => "unknown_function_name"
  | .unknownEnvironmentType => "unknown_environment_type"
  | .unsupportedDeterminantOrder => "unsupported_determinant_order"
  | .arityMismatch => "arity_mismatch"
  | .nonConvergence => "non_convergence"
  | .depthLimit => "depth_limit"

/-- The reason of a word. -/
def Reason.ofWord? (t : Text) : Option Reason := Reason.all.find? (·.word == t)

namespace Fault

/-- The field of a node, if there is one. -/
def nodeField (n : Option Node) : List (String × Json) :=
  (n.map fun n => ("node", (n.describe : Json))).toList

/-- The name of the kind of a fault: a report says it, else it is the category. -/
def kindName : Fault → Text
  | .report c _ _ _ :: _ => c
  | f => f.category.name

/-- What the outermost layer of a fault knows, given the fault inside it as fields. -/
def details (layer : Layer) (inside : List (String × Json)) : List (String × Json) :=
  let cause : List (String × Json) := if inside.isEmpty then [] else [("cause", inside)]
  match layer with
  | .delimiter e => [("position", e.position), ("context", e.context)]
  | .cleaning p c => [("position", (p : Json)), ("context", c)] ++ cause
  | .missingArgument e =>
    [("macro", e.command), ("argument", e.argument), ("position", e.position)]
  | .markup e =>
    [("detail", e.detail), ("start", e.start), ("end", e.stop), ("line", e.line),
      ("column", e.column), ("found", e.found), ("expected", e.expected),
      ("suggestion", e.suggestion)]
  | .rendering e =>
    [("detail", (e.detail : Json)), ("suggestion", e.suggestion)] ++ nodeField e.node
  | .limit e => [("detail", e.detail)]
  | .report _ _ p n => [("position", (p : Json))] ++ nodeField n ++ cause
  | _ => []

/-- The fields of a fault; no failure has none. -/
def fields : Fault → List (String × Json)
  | [] => []
  | layer :: inside =>
    let f : Fault := layer :: inside
    [("error", (kindName f : Json)), ("message", f.message)]
      ++ (f.reason?.map fun r => ("reason", (r.word : Json))).toList
      ++ details layer (fields inside)

/-- A fault as JSON. -/
def json (f : Fault) : Json := f.fields

end Fault

end MathMarkup
