import MathMarkup.Text.Basic

/-!
# The characters of a text

Texts are bytes; where the job is about characters (widths, quoting, case, the leaves of a syntax
tree) they are read as UTF-8. A byte that begins no well formed sequence reads as U+FFFD and takes
one byte, so every text has exactly one reading and no byte is skipped.
-/

namespace MathMarkup.Text

/-- A character together with the number of bytes it was read from. -/
structure Rune where
  char : Char
  width : Nat
deriving DecidableEq, Repr

/-- What stands for bytes that encode nothing. -/
def replacementChar : Char := Char.ofNat 0xFFFD

/-- A byte that continues a multi-byte sequence. -/
def isTail (b : UInt8) : Bool := 0x80 ≤ b && b ≤ 0xBF

/-- The six payload bits of a continuation byte. -/
def tailBits (b : UInt8) : Nat := b.toNat % 64

/-- The second bytes allowed after the first byte of a sequence: overlong forms, surrogates and
values past U+10FFFF are excluded here. -/
def secondAllowed (first second : UInt8) : Bool :=
  if first == 0xE0 then 0xA0 ≤ second && second ≤ 0xBF
  else if first == 0xED then 0x80 ≤ second && second ≤ 0x9F
  else if first == 0xF0 then 0x90 ≤ second && second ≤ 0xBF
  else if first == 0xF4 then 0x80 ≤ second && second ≤ 0x8F
  else isTail second

/-- The character at the head of a text whose first byte is `b`. -/
def headRune (b : UInt8) (rest : Text) : Rune :=
  let invalid : Rune := ⟨replacementChar, 1⟩
  if b < 0x80 then ⟨Char.ofNat b.toNat, 1⟩
  else if 0xC2 ≤ b && b ≤ 0xDF then
    match rest with
    | c :: _ =>
      if isTail c then ⟨Char.ofNat (b.toNat % 32 * 64 + tailBits c), 2⟩ else invalid
    | _ => invalid
  else if 0xE0 ≤ b && b ≤ 0xEF then
    match rest with
    | c :: d :: _ =>
      if secondAllowed b c && isTail d then
        ⟨Char.ofNat (b.toNat % 16 * 4096 + tailBits c * 64 + tailBits d), 3⟩
      else invalid
    | _ => invalid
  else if 0xF0 ≤ b && b ≤ 0xF4 then
    match rest with
    | c :: d :: e :: _ =>
      if secondAllowed b c && isTail d && isTail e then
        ⟨Char.ofNat (b.toNat % 8 * 262144 + tailBits c * 4096 + tailBits d * 64 + tailBits e), 4⟩
      else invalid
    | _ => invalid
  else invalid

/-- The characters of a text after the first `skip` bytes, which belong to a character already
read. -/
def runesFrom : Nat → Text → List Rune
  | _, [] => []
  | skip + 1, _ :: r => runesFrom skip r
  | 0, b :: r =>
    let rune := headRune b r
    rune :: runesFrom (rune.width - 1) r

/-- The characters of a text from left to right. -/
def runes (t : Text) : List Rune := runesFrom 0 t

/-- The characters of a text without their widths. -/
def chars (t : Text) : List Char := (runes t).map (·.char)

/-- The number of characters of a text. -/
def runeCount (t : Text) : Nat := (runes t).length

/-- Whether a character was read from bytes that encode nothing. -/
def Rune.isInvalid (r : Rune) : Bool := r.char == replacementChar && r.width == 1

/-- Whether the whole text is well formed UTF-8. -/
def isValidUtf8 (t : Text) : Bool := (runes t).all (!·.isInvalid)

/-- The bytes of one character. -/
def ofChar (c : Char) : Text := String.utf8EncodeChar c

/-- The bytes of a sequence of characters. -/
def ofChars (cs : List Char) : Text := cs.flatMap ofChar

/-- The number of bytes that encode a character. -/
def encodedWidth (c : Char) : Nat := (ofChar c).length

/-- The character with a given code point; a number that is no code point gives U+FFFD. -/
def charOfCode (n : Int) : Char :=
  if 0 ≤ n ∧ n.toNat.isValidChar then Char.ofNat n.toNat else replacementChar

/-- A text in which every byte that encodes nothing is replaced by U+FFFD. -/
def toValid (t : Text) : Text := ofChars (chars t)

end MathMarkup.Text
