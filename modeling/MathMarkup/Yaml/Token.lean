import MathMarkup.Yaml.Property

/-!
# Tokens

A document is read as a list of tokens. The tokens make explicit what the layout of the lines says:
where collections that are written by indentation start and end, and which scalars are keys. A
scalar shows to be a key only by the colon behind it, so the tokens for a key are put in when its
colon is found.
-/

namespace MathMarkup.Yaml

/-- A token of a document. -/
inductive Token where
  | version (major minor : Nat)
  | handle (name meaning : Text)
  | documentStart
  | documentEnd
  /-- The end of the text. -/
  | finish
  /-- The start of a sequence or a mapping written by indentation, and the end of either. -/
  | sequenceStart
  | mappingStart
  | blockEnd
  | openSequence
  | closeSequence
  | openMapping
  | closeMapping
  /-- The dash of an item. -/
  | item
  | comma
  | key
  | value
  | reference (name : Text)
  | anchor (name : Text)
  | tag (handle suffix : Text)
  | scalar (plain : Bool) (text : Text)
  /-- From here on the text cannot be read. `undecided` are the numbers of the tokens of which it is
  not known whether they begin a key. -/
  | fault (undecided : List Nat)
deriving DecidableEq

/-- The token of a directive. -/
def Directive.token : Directive → Token
  | .version major minor => .version major minor
  | .handle name meaning => .handle name meaning

/-- A place at which a key may have begun. -/
structure Candidate where
  /-- The number of tokens before it. -/
  number : Nat
  line : Nat
  column : Nat
  /-- Whether nothing but a key can stand there: it is in the column of a collection. -/
  required : Bool

/-- The state in which a document is read. -/
structure Layout where
  place : Cursor
  /-- The tokens so far, the last one first, and their number. -/
  tokens : List Token := []
  count : Nat := 0
  /-- The columns of the open collections that are written by indentation, the innermost first. -/
  blocks : List Nat := []
  /-- Where a key may have begun between the innermost brackets, and between those around them. -/
  candidate : Option Candidate := none
  outer : List (Option Candidate) := []
  /-- Whether a key may begin here. -/
  keyAllowed : Bool := true

/-- Collections are nested no deeper than this, by brackets or by indentation. -/
def maxNesting : Nat := 10000

/-- A key ends at most this many characters after its start. -/
def maxKeyLength : Nat := 1024

namespace Layout

/-- Whether the place is between brackets. -/
def inFlow (s : Layout) : Bool := !s.outer.isEmpty

/-- The least column of what belongs to the innermost collection. -/
def least (s : Layout) : Nat := (s.blocks.head?.map (· + 1)).getD 0

/-- A token put at the end. -/
def emit (t : Token) (s : Layout) : Layout :=
  { s with tokens := t :: s.tokens, count := s.count + 1 }

/-- A token put behind the first `number` ones. -/
def insert (number : Nat) (t : Token) (s : Layout) : Layout :=
  let back := s.count - number
  { s with tokens := s.tokens.take back ++ t :: s.tokens.drop back, count := s.count + 1 }

/-- Closes the collections written by indentation that stand deeper than a column, or all of
them. -/
def closeBlocks (column : Option Nat) (s : Layout) : Layout :=
  if s.inFlow then s
  else
    let (closed, kept) := s.blocks.span fun b => column.all (· < b)
    closed.foldl (fun s _ => s.emit .blockEnd) { s with blocks := kept }

/-- Opens a collection at a column, unless that is the column of the innermost one already; its
token is put behind the first `number` ones. -/
def openBlock? (column number : Nat) (t : Token) (s : Layout) : Option Layout :=
  if s.inFlow || s.blocks.head?.any (column ≤ ·) then some s
  else if s.blocks.length ≥ maxNesting then none
  else some ({ s with blocks := column :: s.blocks }.insert number t)

/-- Gives up the candidate for a key; one that is required cannot be given up. -/
def dropCandidate? (s : Layout) : Option Layout :=
  if s.candidate.any (·.required) then none else some { s with candidate := none }

/-- Makes the place a candidate for a key, if a key may begin there. -/
def saveCandidate? (s : Layout) : Option Layout :=
  if !s.keyAllowed then some s
  else
    s.dropCandidate?.map fun s =>
      let required := !s.inFlow && s.blocks.head? == some s.place.column
      { s with candidate := some ⟨s.count, s.place.line, s.place.column, required⟩ }

/-- Whether a key that began at a candidate can end here: on its line, and not too far from its
start. -/
def reaches (s : Layout) (k : Candidate) : Bool :=
  k.line == s.place.line && s.place.column ≤ k.column + maxKeyLength

/-- The state behind a token of one character. A comment behind it on its line belongs to it, except
behind the dash of an item, where blanks are indentation. -/
def took (t : Token) (s : Layout) : Layout :=
  let p := s.place.skip 1
  { s.emit t with place := if t == .item then p else skipLineComment p }

/-- A mark between documents, which closes everything. -/
def mark? (t : Token) (s : Layout) : Option Layout :=
  (s.closeBlocks none).dropCandidate?.map fun s =>
    { s.emit t with place := s.place.skip 3, keyAllowed := false }

/-- A directive. -/
def directive? (bound : Nat) (s : Layout) : Option Layout := do
  let s ← (s.closeBlocks none).dropCandidate?
  let (d, p) ← readDirective? bound (s.place.skip 1)
  pure { s.emit d.token with place := p, keyAllowed := false }

/-- An opening bracket, which may begin a key. -/
def openBracket? (t : Token) (s : Layout) : Option Layout := do
  let s ← s.saveCandidate?
  if s.outer.length ≥ maxNesting then none
  else pure { s.took t with candidate := none, outer := s.candidate :: s.outer, keyAllowed := true }

/-- A closing bracket. -/
def closeBracket? (t : Token) (s : Layout) : Option Layout := do
  let s ← s.dropCandidate?
  let s := { s.took t with keyAllowed := false }
  match s.outer with
  | [] => pure s
  | candidate :: outer => pure { s with candidate, outer }

/-- A comma. -/
def comma? (s : Layout) : Option Layout :=
  s.dropCandidate?.map fun s => { s.took .comma with keyAllowed := true }

/-- The dash of an item or the question mark of a key: outside of brackets it may stand only where a
key may begin, and opens a collection of its kind. -/
def indicator? (block t : Token) (keyAllowed : Bool) (s : Layout) : Option Layout := do
  if !s.inFlow && !s.keyAllowed then none
  else
    let s ← s.openBlock? s.place.column s.count block
    let s ← s.dropCandidate?
    pure { s.took t with keyAllowed }

/-- A colon. If it ends a key, the tokens for the key are put in where it began. -/
def colon? (s : Layout) : Option Layout := do
  match s.candidate with
  | some k =>
    if s.reaches k then
      let s ← (s.insert k.number .key).openBlock? k.column k.number .mappingStart
      pure { s.took .value with candidate := none, keyAllowed := false }
    else if k.required then none
    else ({ s with candidate := none }.indicator? .mappingStart .value (!s.inFlow))
  | none => s.indicator? .mappingStart .value (!s.inFlow)

/-- Something that may begin a key and is no key's end: `read` gives its token and the place behind
it. -/
def atom? (read : Cursor → Option (Token × Cursor)) (s : Layout) : Option Layout := do
  let s ← s.saveCandidate?
  let (t, p) ← read s.place
  pure { s.emit t with place := skipLineComment p, keyAllowed := false }

/-- The name of a value. -/
def anchor? (s : Layout) : Option Layout :=
  s.atom? fun p => (readName? (p.skip 1)).map fun (name, q) => (.anchor name, q)

/-- A reference by name. -/
def reference? (s : Layout) : Option Layout :=
  s.atom? fun p => (readName? (p.skip 1)).map fun (name, q) => (.reference name, q)

/-- A tag. -/
def tag? (bound : Nat) (s : Layout) : Option Layout :=
  s.atom? fun p => (readTag? bound p).map fun (handle, suffix, q) => (.tag handle suffix, q)

/-- A double-quoted scalar. -/
def double? (bound : Nat) (s : Layout) : Option Layout :=
  s.atom? fun p =>
    (readDouble bound [] (p.skip 1)).map fun (cs, q) => (.scalar false (Text.ofChars cs), q)

/-- A single-quoted scalar. -/
def single? (bound : Nat) (s : Layout) : Option Layout :=
  s.atom? fun p =>
    (readSingle bound [] (p.skip 1)).map fun (cs, q) => (.scalar false (Text.ofChars cs), q)

/-- A plain scalar. If it ends with its line, a key may begin behind it. -/
def plain? (bound : Nat) (s : Layout) : Option Layout := do
  let s ← s.saveCandidate?
  let (cs, crossed, p) ← readPlain s.inFlow s.least bound [] {} s.place
  let place := if crossed then p else skipLineComment p
  pure { s.emit (.scalar true (Text.ofChars cs)) with place, keyAllowed := crossed }

/-- A block scalar, which is no key. -/
def block? (literal : Bool) (bound : Nat) (s : Layout) : Option Layout := do
  let s ← s.dropCandidate?
  let (cs, p) ← readBlock literal s.blocks.head? bound (s.place.skip 1)
  pure { s.emit (.scalar false (Text.ofChars cs)) with place := p, keyAllowed := true }

/-- The state behind the token that starts with the character `c` before `r`. -/
def token? (bound : Nat) (c : Char) (r : List Char) (s : Layout) : Option Layout :=
  let spaced := startsGap r
  if s.place.column == 0 && c == '%' then s.directive? bound
  else if s.place.atMark '-' then s.mark? .documentStart
  else if s.place.atMark '.' then s.mark? .documentEnd
  else if c == '[' then s.openBracket? .openSequence
  else if c == '{' then s.openBracket? .openMapping
  else if c == ']' then s.closeBracket? .closeSequence
  else if c == '}' then s.closeBracket? .closeMapping
  else if c == ',' then s.comma?
  else if c == '-' && spaced then s.indicator? .sequenceStart .item true
  else if c == '?' && (s.inFlow || spaced) then s.indicator? .mappingStart .key (!s.inFlow)
  else if c == ':' && (s.inFlow || spaced) then s.colon?
  else if c == '*' then s.reference?
  else if c == '&' then s.anchor?
  else if c == '!' then s.tag? bound
  else if c == '|' && !s.inFlow then s.block? true bound
  else if c == '>' && !s.inFlow then s.block? false bound
  else if c == '\'' then s.single? bound
  else if c == '"' then s.double? bound
  else if startsPlain s.inFlow (c :: r) then s.plain? bound
  else none

/-- The state at the next token. -/
def toToken (bound : Nat) (s : Layout) : Layout :=
  let (keyAllowed, place) := skipToToken s.inFlow bound s.keyAllowed s.place
  { s with keyAllowed, place }.closeBlocks (some place.column)

/-- The tokens if the text cannot be read on. -/
def faulty (s : Layout) : List Token :=
  let held := (s.candidate :: s.outer).filterMap fun k => k.filter s.reaches
  (.fault (held.map (·.number)) :: s.tokens).reverse

/-- The tokens of the text from a state on. The number bounds how many steps are taken; it has to be
greater than the number of unread characters. -/
def run : Nat → Layout → List Token
  | 0, s => s.faulty
  | bound + 1, s =>
    let next := s.toToken (bound + 1)
    match next.place.rest with
    | [] =>
      match (next.closeBlocks none).dropCandidate? with
      | none => s.faulty
      | some final => (.finish :: final.tokens).reverse
    | c :: r =>
      match next.token? (bound + 1) c r with
      | none => s.faulty
      | some after => run bound after

end Layout

/-- The tokens of a text. -/
def tokens (cs : List Char) : List Token := Layout.run (cs.length + 1) { place := Cursor.start cs }

end MathMarkup.Yaml
