import MathMarkup.Cleaning.Command
import MathMarkup.Cleaning.Operators
import MathMarkup.Cleaning.Separators

/-!
# Cleaning

Cleaning takes a text to the part of markup that the grammar knows. Seven rules are applied in
order, again and again, until a whole pass changes nothing; a pass may uncover work for the next
one. The number of passes is bounded.
-/

namespace MathMarkup.Cleaning

/-- The rules of a cleaning pass. -/
inductive Rule where
  /-- `\textcolor{a}{b}` becomes `b`. -/
  | textcolor
  /-- Operator commands become operators. -/
  | operators
  /-- `\left` and `\right` disappear. -/
  | leftRight
  /-- `\text{a}` disappears. -/
  | text
  /-- `[12pt]` disappears. -/
  | spacing
  /-- `&` outside matrices becomes a space. -/
  | ampersand
  /-- Separating commas disappear. -/
  | comma
deriving DecidableEq, Repr

namespace Rule

/-- The rules in the order in which a pass applies them. -/
def all : List Rule := [textcolor, operators, leftRight, text, spacing, ampersand, comma]

/-- The name of a rule. -/
def name : Rule → Text
  | textcolor => "textcolor"
  | operators => "operators"
  | leftRight => "left_right"
  | text => "text"
  | spacing => "spacing"
  | ampersand => "ampersand"
  | comma => "comma"

/-- One rule applied to a text. -/
def apply : Rule → Text → Except StageError Text
  | textcolor, t => keepArgument "\\textcolor" 2 2 t
  | operators, t => .ok (convertOperators t)
  | leftRight, t => .ok (removeSizing t)
  | text, t => removeCommand "\\text" 1 t
  | spacing, t => .ok (removeSpacing t)
  | ampersand, t => .ok (blankSeparators t)
  | comma, t => .ok (removeCommas t)

end Rule

/-- One pass: every rule once, in order. -/
def pass (t : Text) : Except StageError Text := Rule.all.foldlM (fun t rule => rule.apply t) t

/-- The number of passes allowed unless another is asked for. -/
def defaultPasses : Nat := 64

/-- The outcome of cleaning: how many passes ran, and the cleaned text or the failure. -/
structure Outcome where
  result : Except StageError Text
  passes : Nat

/-- The failure of a text that still changes after the allowed number of passes. -/
def nonConvergence (limit : Nat) : StageError :=
  .limit
    { reason := some .nonConvergence
      detail := "text still changing after " ++ Text.ofNat limit ++ " passes" }

/-- Up to `left` more passes of `limit`; the last one confirms that nothing changes. -/
def cleanFrom (limit : Nat) : Nat → Text → Outcome
  | 0, _ => ⟨.error (nonConvergence limit), limit⟩
  | left + 1, t =>
    match pass t with
    | .error e => ⟨.error e, limit - left⟩
    | .ok next => if next = t then ⟨.ok next, limit - left⟩ else cleanFrom limit left next

/-- Cleans a text with at most `limit` passes. -/
def clean (limit : Nat) (t : Text) : Outcome := cleanFrom limit limit t

/-- The number of passes to use when `requested` are asked for: anything below one asks for the
default. -/
def passLimit (requested : Int) : Nat := if requested > 0 then requested.toNat else defaultPasses

end MathMarkup.Cleaning
