import MathMarkup.Grammar.Parser

/-!
# Groups, scripts and definitions

The productions that are not tied to one command: bracketed groups, absolute values, degree signs,
the arguments of functions and scripts, and definitions such as `f(x)=x+1`.
-/

namespace MathMarkup.Grammar

open MathMarkup.Grammar.Parser

/-- The expression wrapping of a bracket. -/
def wrappingOf : Bracket → Wrapping
  | .round => .round
  | .square => .square
  | .curly => .curly

/-- A run of nodes as one argument of a function. The curly brackets are what rendering strips, so
an argument that begins with brackets of its own is kept whole. -/
def argument (nodes : List Node) (span : Span) : Node := .expression .curly nodes span

/-- One node as an argument. -/
def wrapCurly (n : Node) : Node := .expression .curly [n] n.span

/-- The contents of a bracketed group and its span, from the opening bracket on. -/
def groupContents (rules : Rules) (kind : Bracket) : Parser (List Node × Span) := do
  let first ← next
  let nodes ← rules.sequence (.kind (.closing kind)) false
  let last ← expect (.closing kind)
  pure (nodes, ⟨first.start, last.stop⟩)

/-- A bracketed group, kept with its brackets. -/
def group (rules : Rules) (kind : Bracket) : Parser Node := do
  let (nodes, span) ← groupContents rules kind
  pure (.expression (wrappingOf kind) nodes span)

/-- An absolute value `|…|`. -/
def absolute (rules : Rules) : Parser Node := do
  let first ← next
  let nodes ← rules.sequence (.kind .pipe) false
  let last ← expect .pipe
  pure (.function .abs [argument nodes ⟨first.stop, last.start⟩] none ⟨first.start, last.stop⟩)

/-- The number of tokens of a degree sign, `^\circ` or `^{\circ}`, at the head of a list. -/
def degreeWidth? : List Token → Option Nat
  | _ :: t :: ts =>
    if t.isCommand ["circ"] then some 2
    else
      match ts with
      | u :: v :: _ =>
        if t.kind == .opening .curly && u.isCommand ["circ"] && v.kind == .closing .curly then
          some 4
        else none
      | _ => none
  | _ => none

/-- A caret in running text: a degree sign turns the operand before it into a function, any other
caret is a literal character. -/
def caret (b : Builder) : Parser Builder := do
  let sign ← peek
  match degreeWidth? (← lookahead) with
  | none =>
    let _ ← next
    pure (b.addToken sign)
  | some width =>
    let last ← peekAt (width - 1)
    match b.popOperand with
    | none => failAt sign.start last.stop "^\\circ" "degree sign without a preceding value"
    | some (operand, before) =>
      skip width
      pure (before.add (.function .degrees [operand] none ⟨operand.span.start, last.stop⟩))

/-- The offset of the token that closes the round bracket at the head of a list, when `depth` more
round brackets are open. -/
def matchingParen? : Nat → List Token → Option Nat
  | _, [] => none
  | depth, t :: ts =>
    if t.kind == .opening .round then (matchingParen? (depth + 1) ts).map (· + 1)
    else if t.kind == .closing .round then
      match depth with
      | 0 => none
      | 1 => some 0
      | outer + 2 => (matchingParen? (outer + 1) ts).map (· + 1)
    else (matchingParen? depth ts).map (· + 1)

/-- Whether a list of tokens goes on with `^{-1}`. -/
def startsInverse (ts : List Token) : Bool :=
  match ts with
  | a :: b :: c :: d :: e :: _ =>
    a.kind == .caret && b.kind == .opening .curly && c.isChar "-" && d.isChar "1"
      && e.kind == .closing .curly
  | _ => false

/-- Whether a list of tokens begins with a parenthesised group followed by `=`. -/
def startsVariable (ts : List Token) : Bool :=
  match ts with
  | t :: _ =>
    t.kind == .opening .round &&
      match matchingParen? 0 ts with
      | some k => (ts[k + 1]?).any (·.isChar "=")
      | none => false
  | [] => false

/-- The definition at the head of a list of tokens: which one it is and the number of tokens before
its variable. -/
def definitionHead? (ts : List Token) : Option (FunctionName × Nat) :=
  match ts with
  | t :: rest =>
    if !t.isLetter then none
    else if startsInverse rest then
      if startsVariable (rest.drop 5) then some (.inverseDefinition, 6) else none
    else if startsVariable rest then some (.definition, 1)
    else none
  | [] => none

/-- A definition `f(x)=…` or `f^{-1}(x)=…` that takes in the rest of the sequence; nothing is read
if the tokens do not begin with one. -/
def definition (rules : Rules) (stop : Stop) : Parser (Option Node) := do
  match definitionHead? (← lookahead) with
  | none => pure none
  | some (name, width) =>
    let letter ← peek
    skip width
    let inner ← group rules .round
    let sign ← next
    let body ← rules.sequence stop false
    let last := (← peek).start
    pure (some (.function name
      [unitAt letter.text letter.span, inner, argument body ⟨sign.stop, last⟩] none
      ⟨letter.start, last⟩))

/-- The rest of a sequence that has been begun. -/
def items (rules : Rules) (stop : Stop) (b : Builder) : Parser (List Node) := do
  if stop.holds (← lookahead) then pure b.finish
  else
    let t ← peek
    match t.kind with
    | .char | .underscore =>
      let _ ← next
      rules.items stop (b.addToken t)
    | .opening kind =>
      let n ← group rules kind
      rules.items stop (b.add n)
    | .pipe =>
      let n ← absolute rules
      rules.items stop (b.add n)
    | .caret =>
      let b' ← caret b
      rules.items stop b'
    | .command =>
      match ← rules.command with
      | some n => rules.items stop (b.add n)
      | none => rules.items stop b
    | .finish | .rowBreak | .closing _ | .ampersand => unexpected t []

/-- A sequence up to a stop; with `definable`, it may begin with a definition. -/
def sequence (rules : Rules) (stop : Stop) (definable : Bool) : Parser (List Node) :=
  nested do
    let first ← if definable then definition rules stop else pure none
    match first with
    | some n => items rules stop (Builder.add {} n)
    | none => items rules stop {}

/-- The argument of a named function such as `\sin`: a group, whose parentheses are dropped, an
absolute value, a command, or a run of letters and digits. -/
def operand (rules : Rules) : Parser Node := do
  let t ← peek
  match t.kind with
  | .opening .round =>
    let (nodes, span) ← groupContents rules .round
    pure (.expression .curly nodes span)
  | .opening kind => group rules kind
  | .pipe => absolute rules
  | .command =>
    match ← rules.command with
    | some n => pure (wrapCurly n)
    | none => rules.operand
  | .char =>
    if t.isOperand then
      let run := (← lookahead).takeWhile Token.isOperand
      skip run.length
      let text := run.flatMap (·.text)
      pure (unitAt text ⟨t.start, t.start + text.length⟩)
    else unexpected t ["operand"]
  | _ => unexpected t ["operand"]

/-- The argument of a sub- or superscript, or of a command such as `\frac`: a braced group, a single
character, or a command. -/
def scriptArg (rules : Rules) : Parser Node := do
  let t ← peek
  match t.kind with
  | .opening .curly => group rules .curly
  | .char =>
    let _ ← next
    pure (unitAt t.text t.span)
  | .command =>
    match ← rules.command with
    | some n => pure (wrapCurly n)
    | none => rules.scriptArg
  | _ => unexpected t ["\x7b", "character"]

end MathMarkup.Grammar
