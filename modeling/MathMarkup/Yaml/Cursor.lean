import MathMarkup.Text.Rune

/-!
# Places in a document

Indentation carries meaning, so a document is read from place to place, and a place knows its line
and its column. Between the parts of a scalar there are gaps of blanks and breaks. A gap within a
line stands for itself; a gap over the end of a line is folded: one break reads as a space, and of
several breaks the first is dropped.
-/

namespace MathMarkup.Yaml

/-- Spaces and tabs. -/
def isBlank (c : Char) : Bool := c == ' ' || c == '\t'

/-- The characters that end a line. -/
def isBreak (c : Char) : Bool :=
  c == '\n' || c == '\r' || c == '\x85' || c == '\u2028' || c == '\u2029'

/-- Whether a text starts with a blank or a break, or is at its end. -/
def startsGap : List Char → Bool
  | [] => true
  | c :: _ => isBlank c || isBreak c

/-- A place in a document: what is still unread, and the line and the column it stands at. -/
structure Cursor where
  rest : List Char
  line : Nat
  column : Nat

namespace Cursor

/-- The place at the start of a text. A byte order mark there takes a column and is not read. -/
def start (cs : List Char) : Cursor :=
  if cs.head? == some '\uFEFF' then ⟨cs.tail, 0, 1⟩ else ⟨cs, 0, 0⟩

/-- The next character. -/
def head? (p : Cursor) : Option Char := p.rest.head?

/-- The place a number of characters further on the line. -/
def skip (n : Nat) (p : Cursor) : Cursor := { p with rest := p.rest.drop n, column := p.column + n }

/-- The characters at a place as long as they are of a kind, and the place after them. -/
def takeWhile (keep : Char → Bool) (p : Cursor) : List Char × Cursor :=
  let run := p.rest.takeWhile keep
  (run, p.skip run.length)

/-- The place after the characters of a kind. -/
def skipWhile (drop : Char → Bool) (p : Cursor) : Cursor := (p.takeWhile drop).2

/-- The start of the next line, where `rest` is unread. -/
def newLine (p : Cursor) (rest : List Char) : Cursor := ⟨rest, p.line + 1, 0⟩

/-- The break at a place, as it reads in a scalar, and the place after it. A carriage return and a
line feed are one break; all breaks read as a line feed but for the separators of lines and of
paragraphs. -/
def takeBreak? (p : Cursor) : Option (Char × Cursor) :=
  match p.rest with
  | [] => none
  | c :: r =>
    if !isBreak c then none
    else if c == '\u2028' || c == '\u2029' then some (c, p.newLine r)
    else if c == '\r' && r.head? == some '\n' then some ('\n', p.newLine r.tail)
    else some ('\n', p.newLine r)

/-- The start of the next line, if nothing but blanks and a comment is left on this one. -/
def endLine? (p : Cursor) : Option Cursor :=
  let p := p.skipWhile isBlank
  let p := if p.head? == some '#' then p.skipWhile (!isBreak ·) else p
  match p.takeBreak? with
  | some (_, q) => some q
  | none => if p.rest.isEmpty then some p else none

/-- Whether a line starts with a mark: three times the character `c` and then a gap. -/
def atMark (c : Char) (p : Cursor) : Bool :=
  p.column == 0 && p.rest.take 3 == [c, c, c] && startsGap (p.rest.drop 3)

/-- Whether a line starts or ends a document. -/
def atDocumentMark (p : Cursor) : Bool := p.atMark '-' || p.atMark '.'

end Cursor

/-! ## Gaps -/

/-- The blanks and breaks between two parts of a scalar. -/
structure Gap where
  /-- The blanks before the first break. -/
  blanks : List Char := []
  /-- Whether the gap goes over the end of a line. -/
  crossed : Bool := false
  /-- The first break, unless it was escaped. -/
  first : Option Char := none
  /-- The breaks after the first. -/
  more : List Char := []
  /-- Whether a tab stands where only spaces can indent. -/
  tabbed : Bool := false

/-- What a gap reads as. -/
def Gap.text (g : Gap) : List Char :=
  if !g.crossed then g.blanks
  else if g.first == some '\n' then if g.more.isEmpty then [' '] else g.more
  else g.first.toList ++ g.more

/-- The gap at a place after the part `g` of it, and the place behind it. Before the column `least`
only spaces can indent. The number bounds the length of the gap. -/
def readGap (least : Nat) : Nat → Gap → Cursor → Gap × Cursor
  | 0, g, p => (g, p)
  | bound + 1, g, p =>
    match p.takeBreak? with
    | some (b, q) =>
      if g.crossed then readGap least bound { g with more := g.more ++ [b] } q
      else readGap least bound { g with crossed := true, first := some b } q
    | none =>
      match p.rest with
      | [] => (g, p)
      | c :: _ =>
        if !isBlank c then (g, p)
        else if g.crossed then
          let tabbed := g.tabbed || (c == '\t' && p.column < least)
          readGap least bound { g with tabbed } (p.skip 1)
        else readGap least bound { g with blanks := g.blanks ++ [c] } (p.skip 1)

/-- The place after a comment and after the comments on the lines below, if nothing but blanks is
between them. -/
def skipComments : Nat → Cursor → Cursor
  | 0, p => p
  | bound + 1, p =>
    let p := p.skipWhile (!isBreak ·)
    let (_, q) := readGap 0 (bound + 1) {} p
    if q.head? == some '#' then skipComments bound q else p

/-- The place of the next token, and whether a key may stand there. Spaces, comments and breaks are
passed over; tabs are so only between brackets (`flow`) and where no key may stand. Outside of
brackets a key may stand at the start of a line. -/
def skipToToken (flow : Bool) : Nat → Bool → Cursor → Bool × Cursor
  | 0, allowed, p => (allowed, p)
  | bound + 1, allowed, p =>
    let p := p.skipWhile fun c => c == ' ' || (c == '\t' && (flow || !allowed))
    let p := if p.head? == some '#' then skipComments (bound + 1) p else p
    match p.takeBreak? with
    | some (_, q) => skipToToken flow bound (allowed || !flow) q
    | none => (allowed, p)

/-- The place after a comment that ends the line. -/
def skipLineComment (p : Cursor) : Cursor :=
  let q := p.skipWhile isBlank
  if q.head? == some '#' then q.skipWhile (!isBreak ·) else p

end MathMarkup.Yaml
