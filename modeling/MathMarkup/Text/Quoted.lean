import MathMarkup.Text.Printable

/-!
# Quoted texts

Names and values inside messages are written between quotes. Printable characters stand for
themselves, the quote and the backslash are escaped, and everything else, bytes that encode nothing
included, is written as an escape sequence, so that a quoted text is printable and on one line.
-/

namespace MathMarkup.Text

/-- The escape sequence of a character that cannot be shown. -/
def escapeChar (c : Char) : Text :=
  if c.toNat == 7 then "\\a"
  else if c.toNat == 8 then "\\b"
  else if c.toNat == 12 then "\\f"
  else if c.toNat == 10 then "\\n"
  else if c.toNat == 13 then "\\r"
  else if c.toNat == 9 then "\\t"
  else if c.toNat == 11 then "\\v"
  else if c.toNat < 0x20 || c.toNat == 0x7F then "\\x" ++ hexFixed 2 c.toNat
  else if c.toNat < 0x10000 then "\\u" ++ hexFixed 4 c.toNat
  else "\\U" ++ hexFixed 8 c.toNat

/-- One character between quotes of the kind `mark`. -/
def quoteChar (mark : Char) (c : Char) : Text :=
  if c == mark || c == '\\' then byte '\\' :: ofChar c
  else if isPrintable c then ofChar c
  else escapeChar c

/-- One character of a text between quotes; a byte that encodes nothing is written as `\xhh`. -/
def quoteRune (mark : Char) (r : Rune) (source : Text) : Text :=
  if r.isInvalid then "\\x" ++ hexFixed 2 ((source.head?.map UInt8.toNat).getD 0)
  else quoteChar mark r.char

/-- The quoted characters of a text, after the first `skip` bytes. -/
def quoteFrom (mark : Char) : Nat → Text → Text
  | _, [] => []
  | skip + 1, _ :: r => quoteFrom mark skip r
  | 0, b :: r =>
    let rune := headRune b r
    quoteRune mark rune (b :: r) ++ quoteFrom mark (rune.width - 1) r

/-- A text between double quotes. -/
def quote (t : Text) : Text := "\"" ++ quoteFrom '"' 0 t ++ "\""

/-- A character between single quotes. -/
def quoteSingle (c : Char) : Text := "'" ++ quoteChar '\'' c ++ "'"

end MathMarkup.Text
