import MathMarkup.Yaml.Cursor

/-!
# Scalars

The texts of scalars. A plain scalar has no marks of its own and ends where something else begins; a
quoted scalar ends with its quote; a block scalar is a block of lines that are indented deeper than
what they belong to.
-/

namespace MathMarkup.Yaml

/-! ## Plain scalars -/

/-- The characters that end a plain scalar between brackets. -/
def endsPlain (c : Char) : Bool := [',', '?', '[', ']', '{', '}'].contains c

/-- The part of a plain scalar up to the next gap, to a colon before a gap or, between brackets, to
one of their signs. -/
def plainRun (flow : Bool) : List Char → List Char
  | [] => []
  | c :: r =>
    if isBlank c || isBreak c || (c == ':' && startsGap r) || (flow && endsPlain c) then []
    else c :: plainRun flow r

/-- The signs that begin something other than a plain scalar. -/
def isSign (c : Char) : Bool :=
  [',', '[', ']', '{', '}', '#', '&', '*', '!', '|', '>', '\'', '"', '%', '@', '\x60'].contains c

/-- Whether a plain scalar may start with these characters. -/
def startsPlain (flow : Bool) : List Char → Bool
  | [] => false
  | c :: r =>
    if c == '-' then !(r.head?.any isBlank)
    else if c == '?' || c == ':' then !flow && !startsGap r
    else !(isBlank c || isBreak c || isSign c)

/-- A plain scalar from a place on: its text, whether the gap behind it goes over the end of a line,
and the place after that gap. Its lines stand at the column `least` or further right. `acc` is what
has been read, the last character first, and `gap` what lies between it and the place. -/
def readPlain (flow : Bool) (least : Nat) : Nat → List Char → Gap → Cursor →
    Option (List Char × Bool × Cursor)
  | 0, _, _, _ => none
  | bound + 1, acc, gap, p =>
    if p.atDocumentMark || p.head? == some '#' then some (acc.reverse, gap.crossed, p)
    else
      let run := plainRun flow p.rest
      let acc := if run.isEmpty then acc else run.reverseAux (gap.text.reverseAux acc)
      let p := p.skip run.length
      if run.isEmpty || !startsGap p.rest || p.rest.isEmpty then
        some (acc.reverse, run.isEmpty && gap.crossed, p)
      else
        let (gap, p) := readGap least (bound + 1) {} p
        if gap.tabbed then none
        else if !flow && p.column < least then some (acc.reverse, gap.crossed, p)
        else readPlain flow least bound acc gap p

/-! ## Quoted scalars -/

/-- The escape sequences of double-quoted scalars that are one character long. -/
def escapes : List (Char × Nat) :=
  [('0', 0), ('a', 7), ('b', 8), ('t', 9), ('\t', 9), ('n', 10), ('v', 11), ('f', 12), ('r', 13),
    ('e', 27), (' ', 32), ('"', 34), ('\'', 39), ('\\', 92), ('N', 0x85), ('_', 0xA0),
    ('L', 0x2028), ('P', 0x2029)]

/-- The number of hexadecimal digits that follow an escape character. -/
def escapeWidth (e : Char) : Nat :=
  if e == 'x' then 2 else if e == 'u' then 4 else if e == 'U' then 8 else 0

/-- The value of a hexadecimal digit. -/
def hexValue? (c : Char) : Option Nat :=
  if c.toNat < 128 then Text.hexValue? (Text.byte c) else none

/-- The number written by exactly `n` hexadecimal digits at the head of a text. -/
def hexNumber? (n : Nat) (cs : List Char) : Option Nat :=
  let ds := cs.take n
  if ds.length < n then none
  else ds.foldlM (fun acc c => (hexValue? c).map (acc * 16 + ·)) 0

/-- The character that an escape sequence after its backslash stands for, and the length of the
sequence. -/
def escape? : List Char → Option (Char × Nat)
  | [] => none
  | e :: r =>
    match escapeWidth e with
    | 0 => (escapes.lookup e).map fun n => (Char.ofNat n, 1)
    | width =>
      (hexNumber? width r).bind fun n =>
        if n.isValidChar then some (Char.ofNat n, width + 1) else none

/-- A double-quoted scalar from a place behind its opening quote, and the place behind the closing
one. An escaped break is no part of the scalar, nor is the indentation after it. -/
def readDouble : Nat → List Char → Cursor → Option (List Char × Cursor)
  | 0, _, _ => none
  | bound + 1, acc, p =>
    match p.rest with
    | [] => none
    | c :: r =>
      if p.atDocumentMark then none
      else if isBlank c || isBreak c then
        let (gap, q) := readGap 0 (bound + 1) {} p
        readDouble bound (gap.text.reverseAux acc) q
      else if c == '"' then some (acc.reverse, p.skip 1)
      else if c == '\\' then
        match (p.skip 1).takeBreak? with
        | some (_, q) =>
          let (gap, q) := readGap 0 (bound + 1) { crossed := true } q
          readDouble bound (gap.text.reverseAux acc) q
        | none =>
          match escape? r with
          | none => none
          | some (e, n) => readDouble bound (e :: acc) (p.skip (n + 1))
      else readDouble bound (c :: acc) (p.skip 1)

/-- A single-quoted scalar from a place behind its opening quote, and the place behind the closing
one. A quote in the scalar is written twice. -/
def readSingle : Nat → List Char → Cursor → Option (List Char × Cursor)
  | 0, _, _ => none
  | bound + 1, acc, p =>
    match p.rest with
    | [] => none
    | c :: r =>
      if p.atDocumentMark then none
      else if isBlank c || isBreak c then
        let (gap, q) := readGap 0 (bound + 1) {} p
        readSingle bound (gap.text.reverseAux acc) q
      else if c == '\'' then
        if r.head? == some '\'' then readSingle bound (c :: acc) (p.skip 2)
        else some (acc.reverse, p.skip 1)
      else readSingle bound (c :: acc) (p.skip 1)

/-! ## Block scalars -/

/-- What becomes of the breaks at the end of a block scalar: all are dropped, one is kept, or all
are kept. -/
inductive Chomping where
  | strip
  | clip
  | keep
deriving DecidableEq

/-- The sign for what becomes of the last breaks, if there is one. -/
def takeChomping (p : Cursor) : Option Chomping × Cursor :=
  if p.head? == some '-' then (some .strip, p.skip 1)
  else if p.head? == some '+' then (some .keep, p.skip 1)
  else (none, p)

/-- The digit that gives the indentation, if there is one. -/
def takeDigit (p : Cursor) : Option Nat × Cursor :=
  match p.head? with
  | some c => if c.isDigit then (some (c.toNat - 48), p.skip 1) else (none, p)
  | none => (none, p)

/-- The signs behind the sign of a block scalar: both may be missing, and they stand in either
order. -/
def takeHeader (p : Cursor) : Chomping × Option Nat × Cursor :=
  match takeChomping p with
  | (some chomping, p) =>
    let (digit, p) := takeDigit p
    (chomping, digit, p)
  | (none, p) =>
    let (digit, p) := takeDigit p
    if digit.isNone then (.clip, none, p)
    else
      let (chomping, p) := takeChomping p
      (chomping.getD .clip, digit, p)

/-- The breaks of the empty lines from a place on, the deepest indentation on the way, and the place
at which the next line begins, its indentation read over. Without an indentation given all spaces
count as such. A tab cannot indent. -/
def readEmptyLines (indent : Option Nat) : Nat → List Char → Nat → Cursor →
    Option (List Char × Nat × Cursor)
  | 0, _, _, _ => none
  | bound + 1, breaks, deepest, p =>
    let spaces := (p.rest.takeWhile (· == ' ')).length
    let p := p.skip ((indent.map fun i => min spaces (i - p.column)).getD spaces)
    let deepest := max deepest p.column
    if p.head? == some '\t' && indent.all (p.column < ·) then none
    else
      match p.takeBreak? with
      | some (b, q) => readEmptyLines indent bound (breaks ++ [b]) deepest q
      | none => some (breaks, deepest, p)

/-- A block scalar without its last breaks, the break that ends its last line, the breaks after
that, and the place behind it. `last` and `more` are those breaks for what has been read so far, and
`indented` says whether its last line started with a blank: next to such a line breaks are not
folded. -/
def readLines (literal : Bool) (indent : Nat) : Nat → List Char → Option Char → List Char → Bool →
    Cursor → Option (List Char × Option Char × List Char × Cursor)
  | 0, _, _, _, _, _ => none
  | bound + 1, acc, last, more, indented, p =>
    match p.rest with
    | [] => some (acc.reverse, last, more, p)
    | c :: _ =>
      if p.column != indent then some (acc.reverse, last, more, p)
      else
        let joint :=
          if !literal && !indented && !isBlank c && last == some '\n' then
            if more.isEmpty then [' '] else []
          else last.toList
        let (line, p) := p.takeWhile (!isBreak ·)
        let acc := line.reverseAux (more.reverseAux (joint.reverseAux acc))
        let (last, p) :=
          match p.takeBreak? with
          | some (b, q) => (some b, q)
          | none => (none, p)
        match readEmptyLines (some indent) (bound + 1) [] 0 p with
        | none => none
        | some (more, _, p) => readLines literal indent bound acc last more (isBlank c) p

/-- A block scalar from a place behind its first sign, and the place behind it. `outer` is the
column of the collection it stands in. -/
def readBlock (literal : Bool) (outer : Option Nat) (bound : Nat) (p : Cursor) :
    Option (List Char × Cursor) :=
  let (chomping, digit, p) := takeHeader p
  if digit == some 0 then none
  else
    match p.endLine? with
    | none => none
    | some p =>
      let given := digit.map (outer.getD 0 + ·)
      match readEmptyLines given bound [] 0 p with
      | none => none
      | some (breaks, deepest, p) =>
        let indent := given.getD (max deepest ((outer.map (· + 1)).getD 1))
        match readLines literal indent bound [] none breaks false p with
        | none => none
        | some (text, last, more, p) =>
          match chomping with
          | .strip => some (text, p)
          | .clip => some (text ++ last.toList, p)
          | .keep => some (text ++ last.toList ++ more, p)

end MathMarkup.Yaml
