import MathMarkup.Text.Basic

/-!
# Separators

An `&` separates the columns of a matrix and means nothing elsewhere: outside terminated matrix
environments it becomes a space. A comma is dropped unless it belongs to the control symbol `\,`,
that is, unless it follows an odd run of backslashes.
-/

namespace MathMarkup.Cleaning

/-- The environments in which `&` separates columns. -/
def matrixNames : List Text :=
  ["matrix", "pmatrix", "bmatrix", "Bmatrix", "vmatrix", "Vmatrix", "smallmatrix"]

/-- The tag that opens an environment. -/
def beginTag (name : Text) : Text := "\\begin\x7b" ++ name ++ "\x7d"

/-- The tag that closes an environment. -/
def endTag (name : Text) : Text := "\\end\x7b" ++ name ++ "\x7d"

/-- The offset just past the end tag that leaves none of `depth` open environments open. The second
argument counts bytes that belong to a tag already read. -/
def environmentEnd? (name : Text) : Nat → Nat → Text → Option Nat
  | 0, 0, _ => some 0
  | _, _, [] => none
  | depth, skip + 1, _ :: r => (environmentEnd? name depth skip r).map (· + 1)
  | depth + 1, 0, b :: r =>
    if (beginTag name).isPrefixOf (b :: r) then
      (environmentEnd? name (depth + 2) ((beginTag name).length - 1) r).map (· + 1)
    else if (endTag name).isPrefixOf (b :: r) then
      (environmentEnd? name depth ((endTag name).length - 1) r).map (· + 1)
    else (environmentEnd? name (depth + 1) 0 r).map (· + 1)

/-- Which bytes of a text lie in a terminated environment of a name. The next `run` bytes are
already known to lie in one, or to belong to the tag of an environment that is never closed. -/
def protectedFrom (name : Text) : Nat → Bool → Text → List Bool
  | _, _, [] => []
  | run + 1, inside, _ :: r => inside :: protectedFrom name run inside r
  | 0, _, b :: r =>
    if (beginTag name).isPrefixOf (b :: r) then
      match environmentEnd? name 1 0 ((b :: r).drop (beginTag name).length) with
      | some n => true :: protectedFrom name ((beginTag name).length + n - 1) true r
      | none => false :: protectedFrom name ((beginTag name).length - 1) false r
    else false :: protectedFrom name 0 false r

/-- Which bytes of a text lie in a terminated environment of one of the names. -/
def protectedIn (names : List Text) (t : Text) : List Bool :=
  names.foldr (fun name acc => List.zipWith (· || ·) (protectedFrom name 0 false t) acc)
    (t.map fun _ => false)

/-- A text with every `&` outside matrix environments replaced by a space. -/
def blankSeparators (t : Text) : Text :=
  List.zipWith (fun b inside => if b == Text.byte '&' && !inside then Text.byte ' ' else b) t
    (protectedIn matrixNames t)

/-- A text without its separating commas, given the parity of the run of backslashes before it. -/
def removeCommasFrom : Bool → Text → Text
  | _, [] => []
  | odd, b :: r =>
    if b == Text.byte ',' && !odd then removeCommasFrom false r
    else b :: removeCommasFrom (b == Text.byte '\\' && !odd) r

/-- A text without its separating commas. -/
def removeCommas (t : Text) : Text := removeCommasFrom false t

end MathMarkup.Cleaning
