import MathMarkup.Bracket

/-!
# Tokens

Cleaned text is cut into tokens. Blanks separate tokens and are dropped; every other byte belongs to
exactly one token. A token keeps the range of bytes it was read from. The end of the text is no
token of the list: it is what the grammar sees past the last one.
-/

namespace MathMarkup.Grammar

/-- The kinds of tokens. -/
inductive TokenKind where
  /-- The end of the text. -/
  | finish
  /-- A literal character. -/
  | char
  /-- A backslash and a name, or a backslash and one byte. -/
  | command
  /-- Two backslashes. -/
  | rowBreak
  | opening (bracket : Bracket)
  | closing (bracket : Bracket)
  | pipe
  | caret
  | underscore
  | ampersand
deriving DecidableEq, Repr

/-- The name of a token kind in messages. -/
def TokenKind.name : TokenKind → Text
  | finish => "end of input"
  | char => "character"
  | command => "macro"
  | rowBreak => "\\\\"
  | opening b => [b.opening]
  | closing b => [b.closing]
  | pipe => "|"
  | caret => "^"
  | underscore => "_"
  | ampersand => "&"

/-- A token and the half-open range of bytes it was read from. The text of a command is its name
without the backslash. -/
structure Token where
  kind : TokenKind
  text : Text
  start : Nat
  stop : Nat
deriving DecidableEq, Repr

namespace Token

/-- The end of a text of `n` bytes. -/
def finish (n : Nat) : Token := ⟨.finish, [], n, n⟩

/-- A token as it stands in the text. -/
def display (t : Token) : Text :=
  match t.kind with
  | .finish => "end of input"
  | .command => Text.byte '\\' :: t.text
  | _ => t.text

/-- The range of a token. -/
def span (t : Token) : Span := ⟨t.start, t.stop⟩

/-- Whether the token is a single ASCII letter. -/
def isLetter (t : Token) : Bool :=
  t.kind == .char &&
    match t.text with
    | [b] => Text.isLetter b
    | _ => false

/-- Whether the token is a single ASCII letter, digit or point. -/
def isOperand (t : Token) : Bool :=
  t.kind == .char &&
    match t.text with
    | [b] => Text.isLetter b || Text.isDigit b || b == Text.byte '.'
    | _ => false

/-- Whether the token is the literal character `c`. -/
def isChar (t : Token) (c : Text) : Bool := t.kind == .char && t.text == c

/-- Whether the token is one of the commands of the given names. -/
def isCommand (t : Token) (names : List Text) : Bool :=
  t.kind == .command && names.contains t.text

end Token

/-- What stands at the head of a text. -/
inductive Lexeme where
  /-- A blank, which is dropped. -/
  | blank
  /-- A backslash with nothing after it. -/
  | dangling
  /-- A token of `width` bytes. -/
  | token (kind : TokenKind) (text : Text) (width : Nat)

/-- The lexeme after a backslash. -/
def commandLexeme (r : Text) : Lexeme :=
  match r with
  | [] => .dangling
  | c :: _ =>
    if c == Text.byte '\\' then .token .rowBreak "\\\\" 2
    else if Text.isLetter c then
      let name := r.takeWhile Text.isLetter
      .token .command name (name.length + 1)
    else .token .command [c] 2

/-- The kind of the token that a byte other than a backslash starts. -/
def byteKind (b : UInt8) : TokenKind :=
  match Bracket.ofOpening? b, Bracket.ofClosing? b with
  | some kind, _ => .opening kind
  | none, some kind => .closing kind
  | none, none =>
    if b == Text.byte '|' then .pipe
    else if b == Text.byte '^' then .caret
    else if b == Text.byte '_' then .underscore
    else if b == Text.byte '&' then .ampersand
    else .char

/-- The lexeme at the head of a text whose first byte is `b`; multi-byte characters are kept
whole. -/
def headLexeme (b : UInt8) (r : Text) : Lexeme :=
  if Text.isBlank b then .blank
  else if b == Text.byte '\\' then commandLexeme r
  else
    let width := (Text.headRune b r).width
    .token (byteKind b) ((b :: r).take width) width

/-- The tokens of a text that starts at offset `pos`, after `skip` bytes that belong to a token
already read; the offset of a dangling backslash if there is one. -/
def tokensFrom (pos : Nat) : Nat → Text → Except Nat (List Token)
  | _, [] => .ok []
  | skip + 1, _ :: r => tokensFrom (pos + 1) skip r
  | 0, b :: r =>
    match headLexeme b r with
    | .blank => tokensFrom (pos + 1) 0 r
    | .dangling => .error pos
    | .token kind text width => do
      let more ← tokensFrom (pos + 1) (width - 1) r
      .ok (⟨kind, text, pos, pos + width⟩ :: more)

/-- The line of an offset, counted from 1. -/
def lineAt (t : Text) (offset : Nat) : Nat := (t.take offset).count (Text.byte '\n') + 1

/-- The column of an offset, counted from 1 after the last line feed before it. -/
def columnAt (t : Text) (offset : Nat) : Nat :=
  ((t.take offset).reverse.takeWhile (· != Text.byte '\n')).length + 1

/-- A syntax error for the bytes from `start` to `stop` of a text. -/
def syntaxError (t : Text) (start stop : Nat) (found detail : Text) : SyntaxError :=
  { detail, start, stop, line := lineAt t start, column := columnAt t start, found }

/-- The tokens of a text. -/
def tokens (t : Text) : Except SyntaxError (List Token) :=
  match tokensFrom 0 0 t with
  | .ok ts => .ok ts
  | .error pos => .error (syntaxError t pos (pos + 1) "\\" "dangling backslash")

end MathMarkup.Grammar
