import MathMarkup.Text.Rune

/-!
# White space

White space of any script, texts without it at their ends, and the words it separates.
-/

namespace MathMarkup.Text

/-- White space of any script. -/
def isSpaceChar (c : Char) : Bool :=
  c == ' ' || (9 ≤ c.toNat && c.toNat ≤ 13) || c.toNat == 0x85 || c.toNat == 0xA0
    || c.toNat == 0x1680 || (0x2000 ≤ c.toNat && c.toNat ≤ 0x200A) || c.toNat == 0x2028
    || c.toNat == 0x2029 || c.toNat == 0x202F || c.toNat == 0x205F || c.toNat == 0x3000

/-- The number of bytes of the white space in front of other characters. -/
def spaceWidth (rs : List Rune) : Nat :=
  (rs.takeWhile fun r => isSpaceChar r.char).foldl (fun n r => n + r.width) 0

/-- A text without white space at its ends. -/
def trimSpace (t : Text) : Text :=
  let rest : Text := t.drop (spaceWidth t.runes)
  rest.take (rest.length - spaceWidth rest.runes.reverse)

/-- White space at the head of a text: its width and the plain space that can stand for it. -/
def spaceAtHead? : Text → Option (Nat × Text)
  | [] => none
  | b :: r =>
    let rune := headRune b r
    if isSpaceChar rune.char then some (rune.width, [byte ' ']) else none

/-- The words of a text between white space. -/
def words (t : Text) : List Text :=
  (splitByte (byte ' ') (replaceAll spaceAtHead? t)).filter (!·.isEmpty)

end MathMarkup.Text
