import MathMarkup.Text.Digest
import MathMarkup.Text.Rune

/-!
# Texts in records

A record holds texts of any length only up to a limit, and the digest of the whole input beside
them, so that equal inputs can be found whatever was cut off.
-/

namespace MathMarkup.History

/-- How many bytes of an input are digested at most. -/
def digestLimit : Nat := 1024 * 1024

/-- The digest of a text; the empty text has none. -/
def digest (t : Text) : Text :=
  if t.isEmpty then [] else Text.Digest.sha256 (t.take digestLimit)

/-- The last place at or before `k` where a character starts. -/
def charStart (t : Text) : Nat → Nat
  | 0 => 0
  | k + 1 => if (t[k + 1]?).any (!Text.isTail ·) then k + 1 else charStart t k

/-- What shows that a text was cut. -/
def ellipsis : Text := "..."

/-- A text of at most `limit` bytes: a longer one is cut where a character starts and ends in an
ellipsis. A limit with no room for more than the ellipsis cuts anywhere, and a limit of zero or less
is none. -/
def shorten (t : Text) (limit : Int) : Text :=
  if limit ≤ 0 || (t.length : Int) ≤ limit then t
  else if limit ≤ 3 then t.take limit.toNat
  else t.take (charStart t (limit.toNat - 3)) ++ ellipsis

end MathMarkup.History
