import MathMarkup.Text.Basic

/-!
# Base 64

Bytes written in base 64: four digits for three bytes, the last group filled up with equals signs.
Line breaks between the digits do not count.
-/

namespace MathMarkup.Text

/-- The value of a digit of base 64. -/
def base64Value? (b : UInt8) : Option Nat :=
  if byte 'A' ≤ b && b ≤ byte 'Z' then some (b.toNat - 65)
  else if byte 'a' ≤ b && b ≤ byte 'z' then some (b.toNat - 71)
  else if isDigit b then some (b.toNat + 4)
  else if b == byte '+' then some 62
  else if b == byte '/' then some 63
  else none

/-- The number written by some digits of base 64. -/
def base64Number? (ds : Text) : Option Nat :=
  ds.foldlM (fun n d => (base64Value? d).map (n * 64 + ·)) 0

/-- The bytes that groups of four digits stand for; only the last group may be filled up. -/
def ofBase64Groups? : Text → Option Text
  | [] => some []
  | a :: b :: c :: d :: r =>
    if r.isEmpty && d == byte '=' then
      if c == byte '=' then (base64Number? [a, b]).map fun n => [(n / 16).toUInt8]
      else (base64Number? [a, b, c]).map fun n => [(n / 1024).toUInt8, (n / 4).toUInt8]
    else do
      let n ← base64Number? [a, b, c, d]
      let rest ← ofBase64Groups? r
      pure ((n / 65536).toUInt8 :: (n / 256).toUInt8 :: n.toUInt8 :: rest)
  | _ => none

/-- The text that is written in base 64. -/
def ofBase64? (t : Text) : Option Text :=
  ofBase64Groups? (t.filter fun b => b != byte '\n' && b != byte '\r')

end MathMarkup.Text
