import MathMarkup.Text.Rune

/-!
# The characters of a document

A document is written in UTF-8, or in UTF-16 if it starts with a byte order mark that says so. The
mark belongs to the encoding and not to the text. A document whose bytes are not well formed, or
that holds a control character, cannot be read.
-/

namespace MathMarkup.Yaml

/-- Whether a character may stand in a document. -/
def isReadable (c : Char) : Bool :=
  let n := c.toNat
  n == 0x09 || n == 0x0A || n == 0x0D || (0x20 ≤ n && n ≤ 0x7E) || n == 0x85
    || (0xA0 ≤ n && n ≤ 0xFFFD) || n ≥ 0x10000

/-- The 16-bit units of a text; `high` gives the more significant of two bytes and `low` the other.
An odd number of bytes makes no units. -/
def units? (high low : UInt8 → UInt8 → UInt8) : Text → Option (List Nat)
  | [] => some []
  | a :: b :: r => (units? high low r).map (((high a b).toNat * 256 + (low a b).toNat) :: ·)
  | [_] => none

/-- The characters of 16-bit units: a unit that starts a surrogate pair needs its partner, and the
partner cannot stand alone. -/
def charsOfUnits? : List Nat → Option (List Char)
  | [] => some []
  | u :: r =>
    if 0xDC00 ≤ u ∧ u ≤ 0xDFFF then none
    else if 0xD800 ≤ u ∧ u ≤ 0xDBFF then
      match r with
      | v :: r' =>
        if 0xDC00 ≤ v ∧ v ≤ 0xDFFF then
          (charsOfUnits? r').map (Char.ofNat (0x10000 + (u - 0xD800) * 1024 + (v - 0xDC00)) :: ·)
        else none
      | [] => none
    else (charsOfUnits? r).map (Char.ofNat u :: ·)

/-- The characters of a text in UTF-8. -/
def utf8? (t : Text) : Option (List Char) :=
  if Text.isValidUtf8 t then some (Text.chars t) else none

/-- The characters of the bytes of a document in the encoding that its byte order mark names. -/
def decode? : Text → Option (List Char)
  | 0xFF :: 0xFE :: r => (units? (fun _ b => b) (fun a _ => a) r).bind charsOfUnits?
  | 0xFE :: 0xFF :: r => (units? (fun a _ => a) (fun _ b => b) r).bind charsOfUnits?
  | 0xEF :: 0xBB :: 0xBF :: r => utf8? r
  | t => utf8? t

/-- The characters of a document; none if it cannot be read. -/
def chars? (t : Text) : Option (List Char) :=
  (decode? t).bind fun cs => if cs.all isReadable then some cs else none

end MathMarkup.Yaml
