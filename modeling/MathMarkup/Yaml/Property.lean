import MathMarkup.Yaml.Scalar

/-!
# Names, tags and directives

A value may have properties in front of it: a name to refer to it by, and a tag that tells its type.
A tag is given in full between angle brackets, or in two parts: a handle and a suffix. What a handle
stands for is said by directives at the head of the document.
-/

namespace MathMarkup.Yaml

/-- The characters of names and of the handles of tags. -/
def isNameChar (c : Char) : Bool := c.isAlphanum || c == '_' || c == '-'

/-- A name at a place, which a gap or one of a few signs has to follow. -/
def readName? (p : Cursor) : Option (Text × Cursor) :=
  let (name, q) := p.takeWhile isNameChar
  let ended := startsGap q.rest || q.head?.any ['?', ':', ',', ']', '}', '%', '@', '\x60'].contains
  if name.isEmpty || !ended then none else some (Text.ofChars name, q)

/-! ## Tags -/

/-- The characters that a tag consists of. -/
def isTagChar (c : Char) : Bool :=
  isNameChar c || [';', '/', '?', ':', '@', '&', '=', '+', '$', '.', ',', '!', '~', '*', '\'',
    '(', ')', '[', ']'].contains c

/-- A byte written as a percent sign and two hexadecimal digits. -/
def percentByte? : List Char → Option UInt8
  | c :: r => if c == '%' then (hexNumber? 2 r).map Nat.toUInt8 else none
  | [] => none

/-- A number of bytes that continue a character, each written with a percent sign. -/
def readTail? : Nat → Cursor → Option (Text × Cursor)
  | 0, p => some ([], p)
  | n + 1, p => do
    let b ← percentByte? p.rest
    if !Text.isTail b then none
    else
      let (tail, q) ← readTail? n (p.skip 3)
      pure (b :: tail, q)

/-- The number of bytes that follow the first byte of a character. -/
def tailLength? (b : UInt8) : Option Nat :=
  if b < 0x80 then some 0
  else if 0xC0 ≤ b && b < 0xE0 then some 1
  else if 0xE0 ≤ b && b < 0xF0 then some 2
  else if 0xF0 ≤ b && b < 0xF8 then some 3
  else none

/-- The characters of a tag from a place on. A character can be written by percent signs and the
digits of its bytes. -/
def readTagText : Nat → Text → Cursor → Option (Text × Cursor)
  | 0, _, _ => none
  | bound + 1, acc, p =>
    match p.rest with
    | [] => some (acc, p)
    | c :: _ =>
      if c == '%' then do
        let b ← percentByte? p.rest
        let n ← tailLength? b
        let (tail, q) ← readTail? n (p.skip 3)
        readTagText bound (acc ++ b :: tail) q
      else if isTagChar c then readTagText bound (acc ++ Text.ofChar c) (p.skip 1)
      else some (acc, p)

/-- Something that looks like a handle: an exclamation mark, the characters of a name, and a second
exclamation mark if it follows. -/
def readHandle? (p : Cursor) : Option (Text × Cursor) :=
  if p.head? != some '!' then none
  else
    let (name, q) := (p.skip 1).takeWhile isNameChar
    let (close, q) := if q.head? == some '!' then (Text.ofString "!", q.skip 1) else ([], q)
    some ("!" ++ Text.ofChars name ++ close, q)

/-- Whether a text is a handle that has a name or two exclamation marks. -/
def isNamedHandle (handle : Text) : Bool :=
  handle.length > 1 && handle.getLast? == some (Text.byte '!')

/-- A tag from a place at its exclamation mark on: its handle, its suffix, and the place behind it.
The handle is empty if the tag is given in full; a lone exclamation mark counts as that. -/
def readTag? (bound : Nat) (p : Cursor) : Option (Text × Text × Cursor) := do
  let (handle, suffix, q) ←
    if (p.skip 1).head? == some '<' then do
      let (suffix, q) ← readTagText bound [] (p.skip 2)
      if suffix.isEmpty || q.head? != some '>' then none else some ([], suffix, q.skip 1)
    else do
      let (handle, q) ← readHandle? p
      if isNamedHandle handle then
        let (suffix, q) ← readTagText bound [] q
        if suffix.isEmpty then none else some (handle, suffix, q)
      else
        let (suffix, q) ← readTagText bound handle.tail q
        if suffix.isEmpty then some ([], handle, q) else some ([Text.byte '!'], suffix, q)
  if startsGap q.rest then pure (handle, suffix, q) else none

/-! ## Directives -/

/-- What a directive says: the version of the format, or what a handle stands for. -/
inductive Directive where
  | version (major minor : Nat)
  | handle (name meaning : Text)

/-- A number of one or two digits. -/
def readVersionNumber? (p : Cursor) : Option (Nat × Cursor) :=
  let (ds, q) := p.takeWhile Char.isDigit
  if ds.isEmpty || ds.length > 2 then none
  else some (ds.foldl (fun n d => n * 10 + (d.toNat - 48)) 0, q)

/-- The version that a directive gives. -/
def readVersion? (p : Cursor) : Option (Directive × Cursor) := do
  let (major, p) ← readVersionNumber? (p.skipWhile isBlank)
  if p.head? != some '.' then none
  else
    let (minor, p) ← readVersionNumber? (p.skip 1)
    pure (.version major minor, p)

/-- The handle that a directive gives, and what it stands for. -/
def readHandleMeaning? (bound : Nat) (p : Cursor) : Option (Directive × Cursor) := do
  let (handle, p) ← readHandle? (p.skipWhile isBlank)
  if !(handle.length == 1 || isNamedHandle handle) || !p.head?.any isBlank then none
  else
    let (meaning, p) ← readTagText bound [] (p.skipWhile isBlank)
    if meaning.isEmpty || !startsGap p.rest then none else some (.handle handle meaning, p)

/-- A directive from a place behind its percent sign on, and the start of the next line. -/
def readDirective? (bound : Nat) (p : Cursor) : Option (Directive × Cursor) := do
  let (name, p) := p.takeWhile isNameChar
  if !startsGap p.rest then none
  else
    let (d, p) ←
      if name == ['Y', 'A', 'M', 'L'] then readVersion? p
      else if name == ['T', 'A', 'G'] then readHandleMeaning? bound p
      else none
    let q ← p.endLine?
    pure (d, q)

end MathMarkup.Yaml
