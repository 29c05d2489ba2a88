import MathMarkup.Grammar.Environment

/-!
# Reading a text

The grammar is the record of rules unfolded from itself. Every reference of a rule to the record
comes after a token has been read, or leads to one that reads a token first, so unfolding it twice
for each token of a text, and twice more, is enough.
-/

namespace MathMarkup.Grammar

open MathMarkup.Grammar.Parser

/-- The construct that the command at the cursor introduces. -/
def command (rules : Rules) : Parser (Option Node) := do
  let t ← peek
  if ignored.contains t.text then do
    let _ ← next
    pure none
  else if constants.contains t.text then do
    let _ ← next
    pure (some (unitAt t.text t.span))
  else
    match namedFunctions.lookup t.text with
    | some name => some <$> named rules name
    | none =>
      if t.isCommand ["frac", "dfrac", "tfrac"] then some <$> fraction rules
      else if t.isCommand ["sqrt"] then some <$> root rules
      else if t.isCommand ["int"] then some <$> integral rules
      else if t.isCommand ["lim"] then some <$> limit rules
      else if t.isCommand ["log", "lg", "ln"] then some <$> logarithm rules
      else if t.isCommand ["binom"] then some <$> binary rules .binomial
      else if t.isCommand ["overline", "bar"] then some <$> unary rules .mean
      else if t.isCommand ["begin"] then some <$> environment rules
      else unsupported t

/-- The rules that refer to given ones. -/
def Rules.unfold (rules : Rules) : Rules where
  sequence := Grammar.sequence rules
  items := Grammar.items rules
  command := Grammar.command rules
  operand := Grammar.operand rules
  scriptArg := Grammar.scriptArg rules
  rows := Grammar.rows rules

/-- The rules unfolded a number of times. -/
def rulesTo : Nat → Rules
  | 0 => .none
  | n + 1 => (rulesTo n).unfold

/-- The number of sequences that may be nested unless another is asked for. -/
def defaultDepth : Nat := 256

/-- The depth to use when `requested` is asked for: anything below one asks for the default. -/
def depthLimit (requested : Int) : Nat := if requested > 0 then requested.toNat else defaultDepth

/-- How often the rules are unfolded for a list of tokens. -/
def unfoldings (ts : List Token) : Nat := 2 * ts.length + 2

/-- The nodes of a list of tokens of a text. -/
def parseTokens (limit : Nat) (t : Text) (ts : List Token) : Except Halt (List Node) := do
  let (nodes, _) ← (rulesTo (unfoldings ts)).sequence .finish true ⟨t, limit, 0⟩ ⟨ts, 0⟩
  pure nodes

/-- The failure that stands for a grammar not unfolded often enough. -/
def unfinished : StageError := .limit { reason := none, detail := "grammar not unfolded" }

/-- The syntax tree of a cleaned text: a root with one expression. -/
def parse (limit : Nat) (t : Text) : Except StageError Node :=
  match tokens t with
  | .error e => .error (.markup e)
  | .ok ts =>
    match parseTokens limit t ts with
    | .ok nodes =>
      let span : Span := ⟨0, t.length⟩
      .ok (.root [.expression .none nodes span] span)
    | .error (.failed e _) => .error e
    | .error .spent => .error unfinished

end MathMarkup.Grammar
