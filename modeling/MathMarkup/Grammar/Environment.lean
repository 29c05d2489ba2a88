import MathMarkup.Grammar.Command

/-!
# Environments

A block `\begin{name} … \end{name}` is a system, one expression for each row, or a determinant, one
expression for each cell, row by row. Rows that hold nothing are dropped.
-/

namespace MathMarkup.Grammar

open MathMarkup.Grammar.Parser

/-- The environments in byte order of their names. -/
def environments : List (Text × EnvironmentType) :=
  [("Bmatrix", .determinant), ("Vmatrix", .determinant), ("align", .system), ("align*", .system),
    ("aligned", .system), ("array", .system), ("bmatrix", .determinant), ("cases", .system),
    ("gather", .system), ("gather*", .system), ("gathered", .system), ("matrix", .determinant),
    ("pmatrix", .determinant), ("smallmatrix", .determinant), ("system", .system),
    ("vmatrix", .determinant)]

/-- The name in braces after `\begin` or `\end`, and its place. -/
def environmentName : Parser (Text × Nat) := do
  let _ ← expect (.opening .curly)
  let start := (← peek).start
  let letters := (← lookahead).takeWhile (·.kind == .char)
  skip letters.length
  let _ ← expect (.closing .curly)
  pure (letters.flatMap (·.text), start)

/-- Whether a row, given most recent cell first, is a single cell that holds nothing. -/
def isEmptyRow : List Node → Bool
  | [.expression _ [] _] => true
  | _ => false

/-- The rows of an environment up to its `\end`. -/
def rows (rules : Rules) (matrix : Bool) (name : Text) (row before : List Node) :
    Parser (List Node) := do
  let start := (← peek).start
  let nodes ← rewordAtEnd ("missing \\end\x7b" ++ name ++ "\x7d")
    (rules.sequence (.cell matrix) (!matrix))
  let row := Node.expression .none nodes ⟨start, (← peek).start⟩ :: row
  let separator ← next
  if separator.kind = .ampersand then rules.rows matrix name row before
  else
    let before := if isEmptyRow row then before else row ++ before
    if separator.kind = .command then pure before.reverse
    else rules.rows matrix name [] before

/-- An environment. -/
def environment (rules : Rules) : Parser Node := do
  let head ← next
  let (name, nameStart) ← environmentName
  match environments.lookup name with
  | none =>
    failAt nameStart (← lastStop) name ("unsupported environment " ++ name.quote)
      (Text.suggestName name (environments.map (·.1)))
  | some type =>
    if name = "array" ∧ (← peek).kind = .opening .curly then
      let _ ← group rules .curly
    let cells ← rules.rows (type == .determinant) name [] []
    let (last, lastStart) ← environmentName
    if last = name then pure (.environment type cells ⟨head.start, ← lastStop⟩)
    else
      failAt lastStart (← lastStop) last
        ("\\begin\x7b" ++ name ++ "\x7d ended by \\end\x7b" ++ last ++ "\x7d")

end MathMarkup.Grammar
