import MathMarkup.Grammar.Group
import MathMarkup.Text.Distance

/-!
# Commands

Each command introduces a construct of its own: a constant, a named function, a fraction, a root, an
integral, a limit, a logarithm, or an environment. Commands that only affect the presentation
produce nothing.
-/

namespace MathMarkup.Grammar

open MathMarkup.Grammar.Parser

/-- Commands for named functions and the name that stands in the output. -/
def namedFunctions : List (Text × Text) :=
  [("sin", "sin"), ("cos", "cos"), ("tan", "tan"), ("tg", "tan"), ("cot", "cot"), ("ctg", "cot"),
    ("sec", "sec"), ("csc", "csc"), ("arcsin", "arcsin"), ("arccos", "arccos"),
    ("arctan", "arctan"), ("sinh", "sinh"), ("cosh", "cosh"), ("tanh", "tanh"), ("exp", "exp")]

/-- Commands that stand for their own name. -/
def constants : List Text :=
  ["pi", "infty", "alpha", "beta", "gamma", "delta", "epsilon", "theta", "lambda", "mu", "sigma",
    "phi", "omega", "Delta"]

/-- Commands that only affect the presentation. -/
def ignored : List Text :=
  ["displaystyle", "textstyle", "limits", "quad", "qquad", ",", ";", ":", "!", " "]

/-- The names suggested for unknown commands, in byte order. -/
def suggested : List Text :=
  Text.ofStrings ["Delta", "alpha", "arccos", "arcsin", "arctan", "bar", "begin", "beta", "binom",
    "circ", "cos", "cosh", "cot", "csc", "ctg", "delta", "dfrac", "end", "epsilon", "exp", "frac",
    "gamma", "infty", "int", "lambda", "lg", "lim", "ln", "log", "mu", "omega", "overline", "phi",
    "pi", "sec", "sigma", "sin", "sinh", "sqrt", "tan", "tanh", "tfrac", "tg", "theta", "to"]

/-- The differentials of a derivative `{d}{dx}` at the head of a list of tokens: the `d` and the
variable. -/
def derivativeHead? (ts : List Token) : Option (Token × Token) :=
  match ts with
  | a :: d :: b :: c :: e :: x :: f :: _ =>
    if a.kind == .opening .curly && d.isChar "d" && b.kind == .closing .curly
        && c.kind == .opening .curly && e.isChar "d" && x.isLetter && f.kind == .closing .curly then
      some (d, x)
    else none
  | _ => none

/-- A command followed by one script argument. -/
def unary (rules : Rules) (name : FunctionName) : Parser Node := do
  let head ← next
  let arg ← scriptArg rules
  pure (.function name [arg] none ⟨head.start, ← lastStop⟩)

/-- A command followed by two script arguments. -/
def binary (rules : Rules) (name : FunctionName) : Parser Node := do
  let head ← next
  let first ← scriptArg rules
  let second ← scriptArg rules
  pure (.function name [first, second] none ⟨head.start, ← lastStop⟩)

/-- A named function such as `\sin x` or `\cos^2{x}`; `name` stands in the output. -/
def named (rules : Rules) (name : Text) : Parser Node := do
  let head ← next
  let exponent ←
    if (← peek).kind = .caret then do
      let _ ← next
      some <$> scriptArg rules
    else pure none
  let arg ← operand rules
  pure (.function .regular [unitAt name head.span, arg] exponent ⟨head.start, ← lastStop⟩)

/-- A fraction, or a derivative if the fraction is `\frac{d}{dx}`. -/
def fraction (rules : Rules) : Parser Node := do
  let head ← next
  match derivativeHead? (← lookahead) with
  | some (d, x) =>
    skip 7
    let arg ← operand rules
    pure (.function .derivative [unitAt d.text d.span, unitAt x.text x.span, arg] none
      ⟨head.start, ← lastStop⟩)
  | none =>
    let above ← scriptArg rules
    let below ← scriptArg rules
    pure (.function .fraction [above, below] none ⟨head.start, ← lastStop⟩)

/-- A root `\sqrt{x}` or `\sqrt[n]{x}`. -/
def root (rules : Rules) : Parser Node := do
  let head ← next
  let degree ←
    if (← peek).kind = .opening .square then some <$> group rules .square else pure none
  let radicand ← scriptArg rules
  pure (.function .sqrt (degree.toList ++ [radicand]) none ⟨head.start, ← lastStop⟩)

/-- The scripts after a command, each present at most once. -/
structure Scripts where
  sub : Option Node := none
  super : Option Node := none

/-- Reads one script that is still free, if one stands at the cursor. -/
def script (rules : Rules) (subAllowed : Bool) (s : Scripts) : Parser Scripts := do
  let t ← peek
  if t.kind = .underscore ∧ s.sub.isNone ∧ subAllowed then do
    let _ ← next
    let arg ← scriptArg rules
    pure { s with sub := some arg }
  else if t.kind = .caret ∧ s.super.isNone then do
    let _ ← next
    let arg ← scriptArg rules
    pure { s with super := some arg }
  else pure s

/-- Reads over the commands `\limits` at the cursor. -/
def skipLimits : Parser Unit := do
  skip ((← lookahead).takeWhile (·.isCommand ["limits"])).length

/-- The body of an integral: a braced group, or everything up to the differential. -/
def integralBody (rules : Rules) : Parser Node := do
  let t ← peek
  if t.kind = .opening .curly then group rules .curly
  else do
    let nodes ← rules.sequence .differential false
    pure (argument nodes ⟨t.start, (← peek).start⟩)

/-- An integral with both bounds or none. -/
def integral (rules : Rules) : Parser Node := do
  let head ← next
  skipLimits
  let one ← script rules true {}
  skipLimits
  let both ← script rules true one
  skipLimits
  if both.sub.isSome ≠ both.super.isSome then do
    failAt head.start (← peek).start head.display "integral needs both bounds or neither"
  else do
    let body ← integralBody rules
    let d ← peek
    let letter ← peekAt 1
    if d.isChar "d" && letter.isLetter then do
      skip 2
      pure (.function .integral
        (both.sub.toList ++ both.super.toList ++ [body, unitAt letter.text letter.span]) none
        ⟨head.start, letter.stop⟩)
    else unexpected d ["differential"]

/-- A limit `\lim_{x \to c} f`. -/
def limit (rules : Rules) : Parser Node := do
  let head ← next
  let _ ← expect .underscore
  let first ← expect (.opening .curly)
  let name ← rules.sequence .arrow false
  let arrow ← peek
  if arrow.isCommand arrows then do
    let _ ← next
    let target ← rules.sequence (.kind (.closing .curly)) false
    let last ← expect (.closing .curly)
    let arg ← operand rules
    pure (.function .limit
      [argument name ⟨first.stop, arrow.start⟩, argument target ⟨arrow.stop, last.start⟩, arg] none
      ⟨head.start, ← lastStop⟩)
  else unexpected arrow ["\\to"]

/-- A logarithm `\log_b x`, `\log x`, `\lg x` or `\ln x`; an exponent may follow the name or the
base, and only `\log` has a base. -/
def logarithm (rules : Rules) : Parser Node := do
  let head ← next
  let one ← script rules (head.text == "log") {}
  let both ← script rules (head.text == "log") one
  let arg ← operand rules
  let span : Span := ⟨head.start, ← lastStop⟩
  match both.sub with
  | some base => pure (.function .logarithm [base, arg] both.super span)
  | none =>
    if head.text = "ln" then pure (.function .logarithmLn [arg] both.super span)
    else pure (.function .logarithm10 [arg] both.super span)

/-- Fails because of a command that is none of the grammar. -/
def unsupported {α : Type} (t : Token) : Parser α :=
  failAt t.start t.stop t.display ("unsupported command " ++ t.display)
    (Text.suggestName t.text suggested)

end MathMarkup.Grammar
