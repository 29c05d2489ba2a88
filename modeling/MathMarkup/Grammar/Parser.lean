import MathMarkup.Grammar.Builder

/-!
# Parsers

A parser reads tokens from a cursor and gives a value and the cursor behind it, or halts. The
nesting of sequences is counted and bounded. Productions refer to each other through a record of
`Rules`, so that each of them is a plain function, and the grammar as a whole is the record built
from itself a sufficient number of times (`MathMarkup.Grammar.Parse`).
-/

namespace MathMarkup.Grammar

/-- What a parser reads from but does not change: the text for the places of errors, the bound on
nesting and the number of sequences it is inside of. -/
structure Scope where
  text : Text
  limit : Nat
  depth : Nat

/-- The tokens still to be read, and the end of the last token that was. -/
structure Cursor where
  rest : List Token
  lastStop : Nat

/-- Why a parser stops without a value. -/
inductive Halt where
  /-- The text is refused; `atEnd` tells whether all tokens had been read. -/
  | failed (error : StageError) (atEnd : Bool)
  /-- The grammar was not unfolded often enough; this does not happen to a whole text. -/
  | spent

/-- A parser for values of a type. -/
def Parser (α : Type) := Scope → Cursor → Except Halt (α × Cursor)

namespace Parser

instance : Monad Parser where
  pure a := fun _ c => .ok (a, c)
  bind p f := fun s c =>
    match p s c with
    | .ok (a, c') => f a s c'
    | .error h => .error h

/-- Halts with a failure. -/
def fail {α : Type} (e : StageError) : Parser α := fun _ c => .error (.failed e c.rest.isEmpty)

/-- Halts because the grammar was not unfolded often enough. -/
def spent {α : Type} : Parser α := fun _ _ => .error .spent

/-- The token `n` places after the cursor. -/
def peekAt (n : Nat) : Parser Token := fun s c =>
  match c.rest[n]? with
  | some t => .ok (t, c)
  | none => .ok (Token.finish s.text.length, c)

/-- The token at the cursor. -/
def peek : Parser Token := peekAt 0

/-- The tokens from the cursor on. -/
def lookahead : Parser (List Token) := fun _ c => .ok (c.rest, c)

/-- Reads a token; at the end of the text the cursor stays where it is. -/
def next : Parser Token := fun s c =>
  match c.rest with
  | [] => .ok (Token.finish s.text.length, c)
  | t :: ts => .ok (t, ⟨ts, t.stop⟩)

/-- Reads `n` tokens and forgets them. -/
def skip : Nat → Parser Unit
  | 0 => pure ()
  | n + 1 => do
    let _ ← next
    skip n

/-- The end of the last token that was read. -/
def lastStop : Parser Nat := fun _ c => .ok (c.lastStop, c)

/-- Fails with a syntax error for the bytes from `start` to `stop`. -/
def failAt {α : Type} (start stop : Nat) (found detail : Text) (suggestion : Text := []) :
    Parser α := fun s c =>
  fail (.markup { syntaxError s.text start stop found detail with suggestion }) s c

/-- Fails because of a token; `expected` lists what could have stood there. -/
def unexpected {α : Type} (t : Token) (expected : List Text) : Parser α := fun s c =>
  fail (.markup
    { syntaxError s.text t.start t.stop t.display ("unexpected " ++ t.kind.name) with
      expected }) s c

/-- Reads a token of a kind. -/
def expect (kind : TokenKind) : Parser Token := do
  let t ← peek
  if t.kind = kind then next else unexpected t [kind.name]

/-- The failure of a text that is nested too deeply. -/
def tooDeep (limit : Nat) : StageError :=
  .limit
    { reason := some .depthLimit, detail := "parser nesting exceeds " ++ Text.ofNat limit }

/-- Runs a parser one sequence further in. -/
def nested {α : Type} (p : Parser α) : Parser α := fun s c =>
  if s.depth + 1 > s.limit then fail (tooDeep s.limit) s c
  else p { s with depth := s.depth + 1 } c

/-- Gives the syntax errors of a parser that had read all tokens another wording. -/
def rewordAtEnd {α : Type} (detail : Text) (p : Parser α) : Parser α := fun s c =>
  match p s c with
  | .error (.failed (.markup e) true) => .error (.failed (.markup { e with detail }) true)
  | r => r

end Parser

/-- Where a sequence ends. The token that ends it is left to be read. -/
inductive Stop where
  /-- At the end of the text. -/
  | finish
  /-- At a token of a kind. -/
  | kind (k : TokenKind)
  /-- At the differential of an integral, a `d` and a letter, or at the end of the text. -/
  | differential
  /-- At the arrow of a limit, or at the brace behind it. -/
  | arrow
  /-- At the end of a row or, in a matrix, of a cell. -/
  | cell (matrix : Bool)
deriving DecidableEq, Repr

/-- The arrows of limits. -/
def arrows : List Text := ["to", "rightarrow"]

/-- Whether a sequence ends before the tokens `ts`. -/
def Stop.holds (stop : Stop) (ts : List Token) : Bool :=
  match stop, ts with
  | finish, [] => true
  | finish, _ => false
  | kind k, [] => k == .finish
  | kind k, t :: _ => t.kind == k
  | differential, [] => true
  | differential, t :: u :: _ => t.isChar "d" && u.isLetter
  | differential, _ => false
  | arrow, [] => false
  | arrow, t :: _ => t.isCommand arrows || t.kind == .closing .curly
  | cell _, [] => false
  | cell matrix, t :: _ =>
    t.kind == .rowBreak || (matrix && t.kind == .ampersand) || t.isCommand ["end"]

/-- The productions that others refer to. -/
structure Rules where
  /-- A sequence up to a stop, which may begin with a definition. -/
  sequence : Stop → Bool → Parser (List Node)
  /-- The rest of a sequence that has been begun. -/
  items : Stop → Builder → Parser (List Node)
  /-- The construct that a command introduces; some commands produce nothing. -/
  command : Parser (Option Node)
  /-- The argument of a named function. -/
  operand : Parser Node
  /-- The argument of a script. -/
  scriptArg : Parser Node
  /-- The rows of an environment: whether it is a matrix, its name, and, most recent first, the
  cells of the row so far and the cells of the rows before. -/
  rows : Bool → Text → List Node → List Node → Parser (List Node)

/-- Rules that produce nothing. -/
def Rules.none : Rules where
  sequence _ _ := Parser.spent
  items _ _ := Parser.spent
  command := Parser.spent
  operand := Parser.spent
  scriptArg := Parser.spent
  rows _ _ _ _ := Parser.spent

end MathMarkup.Grammar
