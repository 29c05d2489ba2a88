/-!
# Texts

A text is a string of bytes. Positions, spans and lengths are byte counts, and nothing is assumed
about the encoding: markup arrives from files and requests, and a byte that is no part of a well
formed character is carried through like any other. `MathMarkup.Text.Rune` gives the view of a text
as characters.
-/

namespace MathMarkup

/-- A text is its list of bytes. -/
abbrev Text := List UInt8

namespace Text

/-- The bytes of a string in UTF-8. -/
def ofString (s : String) : Text := s.toUTF8.data.toList

instance : Coe String Text := ⟨ofString⟩

instance : HAppend String Text Text := ⟨fun s t => ofString s ++ t⟩

instance : HAppend Text String Text := ⟨fun t s => t ++ ofString s⟩

/-- The texts of several strings. -/
def ofStrings (ss : List String) : List Text := ss.map ofString

/-- The string a text encodes, if its bytes are well formed UTF-8. -/
def toString? (t : Text) : Option String := String.fromUTF8? (ByteArray.mk t.toArray)

/-- The byte of an ASCII character. -/
abbrev byte (c : Char) : UInt8 := c.toUInt8

/-- The decimal digits of a natural number. -/
def ofNat (n : Nat) : Text := ofString (toString n)

/-- The decimal digits of an integer, after a minus sign if it is negative. -/
def ofInt (n : Int) : Text := ofString (toString n)

/-- The texts one after another with `sep` between neighbours. -/
def join (sep : Text) (parts : List Text) : Text := List.intercalate sep parts

/-- A text that is there only under a condition. -/
def when (b : Bool) (t : Text) : Text := if b then t else []

/-- The part of a text from `start` up to `stop`. -/
def slice (t : Text) (start stop : Nat) : Text := (t.drop start).take (stop - start)

/-! ## Byte classes -/

/-- The letters `a` to `z` and `A` to `Z`. -/
def isLetter (b : UInt8) : Bool :=
  (byte 'a' ≤ b && b ≤ byte 'z') || (byte 'A' ≤ b && b ≤ byte 'Z')

/-- The digits `0` to `9`. -/
def isDigit (b : UInt8) : Bool := byte '0' ≤ b && b ≤ byte '9'

/-- Letters, digits and the underscore. -/
def isWordByte (b : UInt8) : Bool := isLetter b || isDigit b || b == byte '_'

/-- The blanks of markup: space, tab, line feed and carriage return. -/
def isBlank (b : UInt8) : Bool :=
  b == byte ' ' || b == byte '\t' || b == byte '\n' || b == byte '\r'

/-- The lower-case form of an ASCII letter; every other byte is itself. -/
def lowerByte (b : UInt8) : UInt8 := if byte 'A' ≤ b && b ≤ byte 'Z' then b + 32 else b

/-- The upper-case form of an ASCII letter; every other byte is itself. -/
def upperByte (b : UInt8) : UInt8 := if byte 'a' ≤ b && b ≤ byte 'z' then b - 32 else b

/-! ## Searching -/

/-- Whether a text starts with `pat`. -/
def startsWith (t pat : Text) : Bool := pat.isPrefixOf t

/-- The offset of the first occurrence of `pat`. -/
def find? (pat : Text) : Text → Option Nat
  | [] => if pat.isEmpty then some 0 else none
  | b :: r => if pat.isPrefixOf (b :: r) then some 0 else (find? pat r).map (· + 1)

/-- Whether `pat` occurs in a text. -/
def includes (t pat : Text) : Bool := (find? pat t).isSome

/-- The offset of the first occurrence of a byte. -/
def findByte? (x : UInt8) (t : Text) : Option Nat := t.findIdx? (· == x)

/-- The offset of the last occurrence of a byte. -/
def findLastByte? (x : UInt8) (t : Text) : Option Nat :=
  (t.reverse.findIdx? (· == x)).map fun k => t.length - 1 - k

/-- The parts of a text between the occurrences of the byte `sep`; there is always one part. -/
def splitByte (sep : UInt8) : Text → List Text
  | [] => [[]]
  | b :: r =>
    if b == sep then [] :: splitByte sep r
    else
      match splitByte sep r with
      | [] => [[b]]
      | part :: parts => (b :: part) :: parts

/-- A text split at the first occurrence of the byte `sep`, which is dropped. -/
def cutByte? (sep : UInt8) (t : Text) : Option (Text × Text) :=
  match findByte? sep t with
  | some k => some (t.take k, t.drop (k + 1))
  | none => none

/-- A text with every occurrence of the byte `x` replaced by the text `by'`. -/
def replaceByte (x : UInt8) (by' : Text) (t : Text) : Text :=
  t.flatMap fun b => if b == x then by' else [b]

/-- Replaces occurrences from left to right: where `find` recognises a beginning of the unread text
it gives the number of bytes taken and what stands in their place. The first argument counts the
bytes still to be dropped; a match of no bytes is no match. -/
def replaceFrom (find : Text → Option (Nat × Text)) : Nat → Text → Text
  | _, [] => []
  | k + 1, _ :: r => replaceFrom find k r
  | 0, b :: r =>
    match find (b :: r) with
    | some (n + 1, out) => out ++ replaceFrom find n r
    | _ => b :: replaceFrom find 0 r

/-- All occurrences that `find` recognises replaced, from left to right, without looking into what
was put in. -/
def replaceAll (find : Text → Option (Nat × Text)) (t : Text) : Text := replaceFrom find 0 t

/-- All occurrences of `pat` replaced by `out`. -/
def replace (pat out t : Text) : Text :=
  replaceAll (fun s => if pat.isPrefixOf s then some (pat.length, out) else none) t

/-! ## Padding -/

/-- A text padded on the right with spaces to a number of bytes. -/
def padRight (n : Nat) (t : Text) : Text := t ++ List.replicate (n - t.length) (byte ' ')

/-! ## Hexadecimal -/

/-- The lower-case hexadecimal digit of a number below sixteen. -/
def hexDigit (n : Nat) : UInt8 := if n < 10 then (48 + n).toUInt8 else (87 + n).toUInt8

/-- The value of a hexadecimal digit of either case. -/
def hexValue? (b : UInt8) : Option Nat :=
  if isDigit b then some (b.toNat - 48)
  else if byte 'a' ≤ b && b ≤ byte 'f' then some (b.toNat - 87)
  else if byte 'A' ≤ b && b ≤ byte 'F' then some (b.toNat - 55)
  else none

/-- The last `width` hexadecimal digits of a number. -/
def hexFixed : Nat → Nat → Text
  | 0, _ => []
  | width + 1, n => hexFixed width (n / 16) ++ [hexDigit (n % 16)]

/-- The bytes of a text as pairs of hexadecimal digits. -/
def toHex (t : Text) : Text := t.flatMap fun b => hexFixed 2 b.toNat

/-- The text whose bytes are given by pairs of hexadecimal digits. -/
def ofHex? : Text → Option Text
  | [] => some []
  | h :: l :: r => do
    let hi ← hexValue? h
    let lo ← hexValue? l
    let rest ← ofHex? r
    pure ((hi * 16 + lo).toUInt8 :: rest)
  | [_] => none

end Text

end MathMarkup
