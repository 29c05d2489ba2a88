import MathMarkup.Text.Quoted

/-!
# Syntax trees

A tree holds what a markup text says: expressions made of literal units, functions and environments,
each with the span of bytes it was read from. Trees can also be given from outside, so a name may be
unknown, a node may be missing, and a literal character may have any number as its code.
-/

namespace MathMarkup

/-- The half-open range of bytes a node was read from. -/
structure Span where
  start : Int
  stop : Int
deriving DecidableEq, Repr

namespace Span

/-- Whether the span covers at least one byte. -/
def isValid (s : Span) : Bool := s.stop > s.start && s.start ≥ 0

/-- A span as `start:stop`. -/
def text (s : Span) : Text := Text.ofInt s.start ++ ":" ++ Text.ofInt s.stop

end Span

/-- The brackets around an expression. -/
inductive Wrapping where
  | none
  | curly
  | round
  | square
  | other (name : Text)
deriving DecidableEq, Repr

namespace Wrapping

/-- The name of a wrapping. -/
def name : Wrapping → Text
  | none => "none"
  | curly => "curly"
  | round => "round"
  | square => "square"
  | other n => n

/-- The wrapping of a name. -/
def ofName (n : Text) : Wrapping :=
  ([none, curly, round, square].find? (·.name == n)).getD (other n)

/-- The opening and closing text around the expression; an unknown wrapping adds nothing. -/
def delimiters : Wrapping → Text × Text
  | curly => ("\x7b", "\x7d")
  | round => ("(", ")")
  | square => ("[", "]")
  | _ => ([], [])

/-- The wrapping that a byte opens. -/
def ofOpening? (b : UInt8) : Option Wrapping :=
  if b == Text.byte '{' then some curly
  else if b == Text.byte '(' then some round
  else if b == Text.byte '[' then some square
  else .none

end Wrapping

/-- The functions that solver syntax knows, and names it does not know. -/
inductive FunctionName where
  | regular
  | abs
  | sqrt
  | integral
  | fraction
  | derivative
  | definition
  | inverseDefinition
  | binomial
  | logarithm
  | logarithm10
  | logarithmLn
  | limit
  | mean
  | degrees
  | other (name : Text)
deriving DecidableEq, Repr

namespace FunctionName

/-- The known functions in their listed order. -/
def known : List FunctionName :=
  [regular, abs, sqrt, integral, fraction, derivative, definition, inverseDefinition, binomial,
    logarithm, logarithm10, logarithmLn, limit, mean, degrees]

/-- The name of a function. -/
def name : FunctionName → Text
  | regular => "regular"
  | abs => "abs"
  | sqrt => "sqrt"
  | integral => "integral"
  | fraction => "fraction"
  | derivative => "derivative"
  | definition => "latex_function"
  | inverseDefinition => "latex_function_inverse"
  | binomial => "binomial"
  | logarithm => "logarithm"
  | logarithm10 => "logarithm_10"
  | logarithmLn => "logarithm_ln"
  | limit => "limit"
  | mean => "mean"
  | degrees => "degrees"
  | other n => n

/-- The function of a name. -/
def ofName (n : Text) : FunctionName := (known.find? (·.name == n)).getD (other n)

/-- Whether the function is a known one. -/
def isKnown : FunctionName → Bool
  | other _ => false
  | _ => true

end FunctionName

/-- What a `\begin … \end` block holds: the equations of a system, or the cells of a determinant row
by row. -/
inductive EnvironmentType where
  | system
  | determinant
  | other (name : Text)
deriving DecidableEq, Repr

namespace EnvironmentType

/-- The name of an environment type. -/
def name : EnvironmentType → Text
  | system => "system"
  | determinant => "determinant"
  | other n => n

/-- The environment type of a name. -/
def ofName (n : Text) : EnvironmentType :=
  ([system, determinant].find? (·.name == n)).getD (other n)

/-- Whether the environment type is a known one. -/
def isKnown : EnvironmentType → Bool
  | other _ => false
  | _ => true

end EnvironmentType

/-- The kinds of nodes. -/
inductive NodeKind where
  | root
  | expression
  | function
  | calcunit
  | char
  | environment
deriving DecidableEq, Repr

namespace NodeKind

/-- All kinds. -/
def all : List NodeKind := [root, expression, function, calcunit, char, environment]

/-- The name of a kind. -/
def name : NodeKind → Text
  | root => "root"
  | expression => "expression"
  | function => "function"
  | calcunit => "calcunit"
  | char => "char"
  | environment => "environment"

/-- The kind of a name. -/
def ofName? (n : Text) : Option NodeKind := all.find? (·.name == n)

end NodeKind

/-- A literal character and the bytes it was read from. -/
structure Character where
  code : Int
  span : Span
deriving DecidableEq, Repr

namespace Character

/-- The bytes of a character; a code that is no code point gives U+FFFD. -/
def text (c : Character) : Text := Text.ofChar (Text.charOfCode c.code)

end Character

/-- The nodes of a syntax tree. -/
inductive Node where
  /-- A missing node, of a kind or of none. -/
  | absent (kind : Option NodeKind)
  /-- The top of a tree. -/
  | root (expressions : List Node) (span : Span)
  /-- A sequence of nodes, possibly in brackets. -/
  | expression (wrapping : Wrapping) (nodes : List Node) (span : Span)
  /-- A function applied to arguments, possibly raised to a power. -/
  | function (name : FunctionName) (args : List Node) (exponent : Option Node) (span : Span)
  /-- A run of literal characters. -/
  | unit (chars : List Character) (span : Span)
  /-- A single literal character. -/
  | char (c : Character)
  /-- A `\begin … \end` block. -/
  | environment (type : EnvironmentType) (expressions : List Node) (span : Span)

namespace Node

instance : Inhabited Node := ⟨.absent none⟩

/-- The kind of a node; a node missing altogether has none. -/
def kind? : Node → Option NodeKind
  | absent k => k
  | root _ _ => some .root
  | expression _ _ _ => some .expression
  | function _ _ _ _ => some .function
  | unit _ _ => some .calcunit
  | char _ => some .char
  | environment _ _ _ => some .environment

/-- The span of a node; a missing node has the empty span at zero. -/
def span : Node → Span
  | absent _ => ⟨0, 0⟩
  | root _ s => s
  | expression _ _ s => s
  | function _ _ _ s => s
  | unit _ s => s
  | char c => c.span
  | environment _ _ s => s

/-- The direct children in order: the arguments of a function come before its exponent. -/
def children : Node → List Node
  | absent _ => []
  | root es _ => es
  | expression _ ns _ => ns
  | function _ args exponent _ => args ++ exponent.toList
  | unit cs _ => cs.map char
  | char _ => []
  | environment _ es _ => es

/-- The text of a run of characters. -/
def unitText (cs : List Character) : Text := cs.flatMap (·.text)

/-- A unit of the characters of a text, with empty spans. -/
def unitOfText (t : Text) (s : Span) : Node :=
  unit (t.chars.map fun c => ⟨c.toNat, ⟨0, 0⟩⟩) s

/-- A short description of a node for messages. -/
def describe : Node → Text
  | absent none => "<nil>"
  | absent (some k) => k.name
  | root _ _ => "root"
  | function name args _ _ =>
    "function " ++ name.name.quote ++ " (" ++ Text.ofNat args.length ++ " args)"
  | environment type es _ =>
    "environment " ++ type.name.quote ++ " (" ++ Text.ofNat es.length ++ " expressions)"
  | unit cs _ => "calcunit " ++ (unitText cs).quote
  | char c => "char " ++ Text.quoteSingle (Text.charOfCode c.code)
  | expression w ns _ =>
    "expression (" ++ w.name ++ ", " ++ Text.ofNat ns.length ++ " nodes)"

end Node

end MathMarkup
