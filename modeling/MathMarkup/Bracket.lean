import MathMarkup.Failure.Stage

/-!
# Matching brackets

`findEnd` finds the bracket that closes the one at a position. Only brackets of the opening one's
own kind are counted: in `{(}` the round bracket is transparent and the curly one closes at index 2.
Cleaning finds the arguments of commands with it, and rendering strips the brackets of arguments.
-/

namespace MathMarkup

/-- The three kinds of brackets. -/
inductive Bracket where
  | round
  | square
  | curly
deriving DecidableEq, Repr

namespace Bracket

/-- The byte that opens a bracket. -/
def opening : Bracket → UInt8
  | round => Text.byte '('
  | square => Text.byte '['
  | curly => Text.byte '{'

/-- The byte that closes a bracket. -/
def closing : Bracket → UInt8
  | round => Text.byte ')'
  | square => Text.byte ']'
  | curly => Text.byte '}'

/-- The bracket that a byte opens. -/
def ofOpening? (b : UInt8) : Option Bracket :=
  if b == round.opening then some round
  else if b == square.opening then some square
  else if b == curly.opening then some curly
  else none

/-- The bracket that a byte closes. -/
def ofClosing? (b : UInt8) : Option Bracket :=
  if b == round.closing then some round
  else if b == square.closing then some square
  else if b == curly.closing then some curly
  else none

/-- The offset in a text of the byte that closes the innermost of `depth + 1` open brackets of one
kind last, that is, the first byte after which none of them is open. -/
def closeOffset? (kind : Bracket) : Nat → Text → Option Nat
  | _, [] => none
  | depth, b :: r =>
    if b == kind.opening then (closeOffset? kind (depth + 1) r).map (· + 1)
    else if b == kind.closing then
      match depth with
      | 0 => some 0
      | outer + 1 => (closeOffset? kind outer r).map (· + 1)
    else (closeOffset? kind depth r).map (· + 1)

/-- The failure to start a scan at a position that holds no opening bracket. -/
def noStart (t : Text) (pos : Int) : DelimiterError :=
  { reason := some .delimiterStart, position := pos, context := contextAt t pos }

/-- The failure to find the end of the bracket at a position. -/
def unbalanced (t : Text) (pos : Int) : DelimiterError :=
  { reason := some .unbalancedDelimiter, position := pos, context := contextAt t pos }

/-- The index of the bracket that closes the one at `pos`. -/
def findEnd (t : Text) (pos : Int) : Except DelimiterError Nat :=
  if pos < 0 then .error (noStart t pos)
  else
    match t.drop pos.toNat with
    | [] => .error (noStart t pos)
    | b :: r =>
      match ofOpening? b with
      | none => .error (noStart t pos)
      | some kind =>
        match closeOffset? kind 0 r with
        | none => .error (unbalanced t pos)
        | some k => .ok (pos.toNat + 1 + k)

/-- The text between the bracket at `pos` and the one that closes it. -/
def inner (t : Text) (pos : Int) : Except DelimiterError Text := do
  let stop ← findEnd t pos
  pure (t.slice (pos.toNat + 1) stop)

end Bracket

end MathMarkup
