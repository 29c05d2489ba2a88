import MathMarkup.Bracket
import MathMarkup.Text.Distance

/-!
# Functions in solver syntax

Solver syntax writes a function as a call. Every known function takes certain numbers of arguments
and has one way of being written.
-/

namespace MathMarkup.Solver

/-- The numbers of arguments that a function takes; an unknown function takes none. -/
def arities : FunctionName → List Nat
  | .regular => [2]
  | .abs => [1]
  | .sqrt => [1, 2]
  | .integral => [2, 4]
  | .fraction => [2]
  | .derivative => [3]
  | .definition => [3]
  | .inverseDefinition => [3]
  | .binomial => [2]
  | .logarithm => [2]
  | .logarithm10 => [1]
  | .logarithmLn => [1]
  | .limit => [3]
  | .mean => [1]
  | .degrees => [1]
  | .other _ => []

/-- A call with the arguments separated by a comma and a space. -/
def call (name : Text) (args : List Text) : Text := name ++ "(" ++ Text.join ", " args ++ ")"

/-- The variable of a definition without the brackets around it. -/
def unwrap (t : Text) : Except DelimiterError Text :=
  if t.head?.any fun b => (Bracket.ofOpening? b).isSome then Bracket.inner t 0 else .ok t

/-- The written form of a function, given its rendered arguments; none if it does not take that many
or is not known. -/
def format? (name : FunctionName) (args : List Text) : Option (Except DelimiterError Text) :=
  match name, args with
  | .regular, [f, x] => some (.ok (f ++ "(" ++ x ++ ")"))
  | .abs, [x] => some (.ok (call "abs" [x]))
  | .sqrt, [x] => some (.ok (call "root2" [x]))
  | .sqrt, [n, x] => some (.ok (call "root" [n, x]))
  | .integral, [f, x] => some (.ok (call "integral" [f, x]))
  | .integral, [a, b, f, x] => some (.ok (call "definiteintegral" [a, b, f, x]))
  | .fraction, [a, b] => some (.ok ("\x7b\x7b" ++ a ++ "\x7d/\x7b" ++ b ++ "\x7d\x7d"))
  | .derivative, [_, x, f] => some (.ok (call "derivation" [x, f]))
  | .definition, [f, x, body] =>
    some ((unwrap x).map fun v => call "function" [f, v] ++ "=" ++ body)
  | .inverseDefinition, [f, x, body] =>
    some ((unwrap x).map fun v => call "function_inverse" [f, v] ++ "=" ++ body)
  | .binomial, [n, k] => some (.ok (call "choose" [n, k]))
  | .logarithm, [b, x] => some (.ok (call "log" [b, x]))
  | .logarithm10, [x] => some (.ok (call "log10" [x]))
  | .logarithmLn, [x] => some (.ok (call "ln" [x]))
  | .limit, [x, c, f] => some (.ok (call "lim" [x, c, f]))
  | .mean, [x] => some (.ok (call "mean" [x]))
  | .degrees, [x] => some (.ok (call "deg" [x]))
  | _, _ => none

/-- The failure of a function that is not known. -/
def unknownFunction (node : Node) (name : FunctionName) : RenderError :=
  { reason := some .unknownFunctionName, node := some node
    detail := "function " ++ name.name.quote
    suggestion := Text.suggestName name.name (FunctionName.known.map (·.name)) }

/-- The failure of a known function with a number of arguments that it does not take. -/
def arityMismatch (node : Node) (name : FunctionName) (count : Nat) : RenderError :=
  { reason := some .arityMismatch, node := some node
    detail := name.name ++ " takes " ++ Text.join " or " ((arities name).map Text.ofNat)
      ++ " arguments, got " ++ Text.ofNat count }

/-- The written form of a function node, given its rendered arguments. -/
def format (node : Node) (name : FunctionName) (args : List Text) : Except StageError Text :=
  match format? name args with
  | some (.ok t) => .ok t
  | some (.error e) => .error (.delimiter e)
  | none =>
    if name.isKnown then .error (.rendering (arityMismatch node name args.length))
    else .error (.rendering (unknownFunction node name))

end MathMarkup.Solver
