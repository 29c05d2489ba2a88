import MathMarkup.Solver.Format

/-!
# Rendering trees

A tree is written in solver syntax from the leaves up. Each argument of a function loses one pair of
curly or square brackets around it. The depth of the tree is bounded.
-/

namespace MathMarkup.Solver

/-- The depth allowed unless another is asked for. -/
def defaultDepth : Nat := 256

/-- The depth to use when `requested` is asked for: anything below one asks for the default. -/
def depthLimit (requested : Int) : Nat := if requested > 0 then requested.toNat else defaultDepth

/-- The failure of a tree that is nested too deeply. -/
def tooDeep (limit : Nat) : StageError :=
  .limit
    { reason := some .depthLimit, detail := "translation nesting exceeds " ++ Text.ofNat limit }

/-- How messages name the type of a missing node. -/
def typeName : Option NodeKind → Text
  | none => "<nil>"
  | some .root => "*ast.Root"
  | some .expression => "*ast.Expression"
  | some .function => "*ast.Function"
  | some .calcunit => "*ast.Calcunit"
  | some .char => "*ast.Character"
  | some .environment => "*ast.Environment"

/-- The failure of a missing node. -/
def missingNode (kind : Option NodeKind) : StageError :=
  .rendering
    { reason := some .unknownNodeKind, detail := "nil node of type " ++ typeName kind }

/-- The failure of a node one of whose expressions is missing. -/
def missingExpression (node : Node) (place : Text) : StageError :=
  .rendering
    { reason := some .unknownNodeKind, node := some node
      detail := "nil expression in " ++ place }

/-- A rendered argument without the curly or square brackets around it. -/
def stripArgument (t : Text) : Except StageError Text :=
  if t.head?.any fun b => b == Bracket.curly.opening || b == Bracket.square.opening then
    (Bracket.inner t 0).mapError .delimiter
  else .ok t

/-- A function written as the base of a power. -/
def power (base exponent : Text) : Text := "\x7b" ++ base ++ "\x7d^" ++ exponent

/-- The failure of an environment of an unknown type. -/
def unknownEnvironment (node : Node) (type : EnvironmentType) : StageError :=
  .rendering
    { reason := some .unknownEnvironmentType, node := some node
      detail := "environment type " ++ type.name.quote
      suggestion := Text.suggestName type.name
        [EnvironmentType.system.name, EnvironmentType.determinant.name] }

/-- An environment with its rendered parts. Determinants have four or nine cells. -/
def formatEnvironment (node : Node) (type : EnvironmentType) (parts : List Text) :
    Except StageError Text :=
  match type with
  | .system => .ok ("system(" ++ Text.join "," parts ++ ")")
  | .determinant =>
    if parts.length = 4 then .ok ("det2(" ++ Text.join "," parts ++ ")")
    else if parts.length = 9 then .ok ("det3(" ++ Text.join "," parts ++ ")")
    else
      .error (.rendering
        { reason := some .unsupportedDeterminantOrder, node := some node
          detail := "determinant with " ++ Text.ofNat parts.length ++ " cells, want 4 or 9" })
  | .other _ => .error (unknownEnvironment node type)

/-- Whether a node is missing. -/
def isAbsent : Node → Bool
  | .absent _ => true
  | _ => false

mutual

/-- A tree at a depth, written in solver syntax. -/
def renderAt (limit depth : Nat) (n : Node) : Except StageError Text :=
  if depth > limit then .error (tooDeep limit)
  else
    match n with
    | .absent kind => .error (missingNode kind)
    | .root es s => do
      let parts ← renderPresent limit (depth + 1) (missingExpression (.root es s) "root") es
      pure parts.flatten
    | .expression w ns _ => do
      let parts ← renderList limit (depth + 1) ns
      pure (w.delimiters.1 ++ parts.flatten ++ w.delimiters.2)
    | .function name args exponent s => do
      let parts ← renderArguments limit (depth + 1) args
      let base ← format (.function name args exponent s) name parts
      renderPower limit (depth + 1) base exponent
    | .unit cs _ => pure (Node.unitText cs)
    | .char c => pure c.text
    | .environment type es s =>
      if type.isKnown then do
        let parts ← renderPresent limit (depth + 1)
          (missingExpression (.environment type es s) "environment") es
        formatEnvironment (.environment type es s) type parts
      else .error (unknownEnvironment (.environment type es s) type)

/-- The rendered nodes of a list. -/
def renderList (limit depth : Nat) : List Node → Except StageError (List Text)
  | [] => .ok []
  | n :: ns => do
    let first ← renderAt limit depth n
    let rest ← renderList limit depth ns
    pure (first :: rest)

/-- The rendered expressions of a list in which none may be missing. -/
def renderPresent (limit depth : Nat) (missing : StageError) :
    List Node → Except StageError (List Text)
  | [] => .ok []
  | n :: ns =>
    if isAbsent n then .error missing
    else do
      let first ← renderAt limit depth n
      let rest ← renderPresent limit depth missing ns
      pure (first :: rest)

/-- The rendered arguments of a function, each without the brackets around it. -/
def renderArguments (limit depth : Nat) : List Node → Except StageError (List Text)
  | [] => .ok []
  | n :: ns => do
    let first ← renderAt limit depth n
    let stripped ← stripArgument first
    let rest ← renderArguments limit depth ns
    pure (stripped :: rest)

/-- A written function raised to its exponent, if it has one. -/
def renderPower (limit depth : Nat) (base : Text) : Option Node → Except StageError Text
  | none => .ok base
  | some n => do
    let exponent ← renderAt limit depth n
    pure (power base exponent)

end

/-- A tree written in solver syntax. -/
def render (limit : Nat) (n : Node) : Except StageError Text := renderAt limit 1 n

end MathMarkup.Solver
