import MathMarkup.Grammar.Token

/-!
# Building a sequence

The nodes of a sequence are collected from left to right. Adjacent literal characters are merged
into one unit: they wait until a structural node or the end of the sequence closes the unit. A
degree sign takes back the operand directly before it.
-/

namespace MathMarkup.Grammar

/-- The characters of a text laid out from an offset on, each as wide as its encoding. -/
def layOut (offset : Int) : List Char → List Character
  | [] => []
  | c :: cs =>
    let stop := offset + Text.encodedWidth c
    ⟨c.toNat, ⟨offset, stop⟩⟩ :: layOut stop cs

/-- The unit of a text with a given span; its characters are laid out from the start of the span. -/
def unitAt (t : Text) (span : Span) : Node := .unit (layOut span.start t.chars) span

/-- Literal characters waiting for their unit to be closed, most recent first. -/
structure Pending where
  chars : List Character
  span : Span

/-- A sequence under construction: the nodes so far, most recent first, and the open unit. -/
structure Builder where
  nodes : List Node := []
  pending : Option Pending := none

namespace Builder

/-- The end of the last of some characters laid out from an offset on. -/
def endOf (offset : Int) (cs : List Character) : Int :=
  match cs.getLast? with
  | some c => c.span.stop
  | none => offset

/-- Appends literal text that starts at an offset. -/
def addText (b : Builder) (t : Text) (start : Int) : Builder :=
  let chars := layOut start t.chars
  let before := b.pending.getD ⟨[], ⟨start, start⟩⟩
  { b with
    pending := some
      ⟨chars.reverse ++ before.chars, ⟨before.span.start, endOf start chars⟩⟩ }

/-- Appends the text of a token. -/
def addToken (b : Builder) (t : Token) : Builder := b.addText t.text t.start

/-- Closes the open unit. -/
def flush (b : Builder) : Builder :=
  match b.pending with
  | some ⟨c :: cs, span⟩ => { nodes := .unit (c :: cs).reverse span :: b.nodes, pending := none }
  | _ => { b with pending := none }

/-- Appends a structural node. -/
def add (b : Builder) (n : Node) : Builder :=
  let closed := b.flush
  { closed with nodes := n :: closed.nodes }

/-- The collected nodes in order. -/
def finish (b : Builder) : List Node := b.flush.nodes.reverse

/-- Characters that belong to an operand: ASCII letters, digits and the point. -/
def isOperandCode (n : Int) : Bool :=
  (0x61 ≤ n && n ≤ 0x7A) || (0x41 ≤ n && n ≤ 0x5A) || (0x30 ≤ n && n ≤ 0x39) || n == 0x2E

/-- Takes the trailing run of operand characters from an open unit. -/
def popPending (nodes : List Node) (p : Pending) : Option (Node × Builder) :=
  let run := p.chars.takeWhile (isOperandCode ·.code)
  let before := p.chars.dropWhile (isOperandCode ·.code)
  match run.reverse with
  | [] => none
  | first :: more =>
    let operand := Node.unit (first :: more) ⟨first.span.start, p.span.stop⟩
    let left : Pending :=
      ⟨before, ⟨p.span.start, (before.head?.map (·.span.stop)).getD p.span.stop⟩⟩
    some (operand, { nodes, pending := some left })

/-- Takes back the operand at the end of the sequence: the trailing letters and digits of the open
unit, or else the last node. -/
def popOperand (b : Builder) : Option (Node × Builder) :=
  match b.pending with
  | some ⟨c :: cs, span⟩ => popPending b.nodes ⟨c :: cs, span⟩
  | _ =>
    match b.nodes with
    | [] => none
    | .unit (c :: cs) span :: before => popPending before ⟨(c :: cs).reverse, span⟩
    | n :: before => some (n, { nodes := before, pending := none })

end Builder

end MathMarkup.Grammar
