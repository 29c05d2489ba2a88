import MathMarkup.Text.Case

/-!
# Nearest names

An unknown name is answered with the known name it most likely stands for. A known name that holds
the unknown one's characters in order, case ignored, is a better guess than any other; among these,
and failing these among all names, the smallest edit distance wins and the first name on a tie.
-/

namespace MathMarkup.Text

/-- The next row of the edit-distance table: `above` is the row for the characters before `c`, and
`left` and `diagonal` are the entries to the left of the current column in both rows. -/
def distanceRow (c : Char) (left diagonal : Nat) : List Char → List Nat → List Nat
  | d :: ds, up :: ups =>
    let here := min (min (left + 1) (up + 1)) (diagonal + if c == d then 0 else 1)
    here :: distanceRow c here up ds ups
  | _, _ => []

/-- The last row of the edit-distance table, given the row before the first character of `source`
and the number of characters of `source` before it. -/
def distanceRows (target : List Char) : Nat → List Nat → List Char → List Nat
  | _, row, [] => row
  | k, row, c :: cs =>
    distanceRows target (k + 1) ((k + 1) :: distanceRow c (k + 1) k target row.tail) cs

/-- The least number of insertions, deletions and replacements of characters that turn one sequence
into the other. -/
def editDistance (source target : List Char) : Nat :=
  (distanceRows target 0 (List.range (target.length + 1)) source).getLast?.getD 0

/-- Whether the characters of the first list occur in the second in the same order. -/
def isSubsequence : List Char → List Char → Bool
  | [], _ => true
  | _ :: _, [] => false
  | c :: cs, d :: ds => if c == d then isSubsequence cs ds else isSubsequence (c :: cs) ds

/-- Whether `target` holds the characters of `source` in order, case ignored, and its lower-case
form is not shorter in bytes. -/
def holdsInOrder (source target : Text) : Bool :=
  let s := (chars source).map lowerChar
  let t := (chars target).map lowerChar
  (ofChars s).length ≤ (ofChars t).length && isSubsequence s t

/-- The first element of least cost, if it costs less than `bound`. -/
def leastBelow {α : Type} (cost : α → Nat) : Nat → List α → Option α
  | _, [] => none
  | bound, a :: as =>
    if cost a < bound then some ((leastBelow cost (cost a) as).getD a)
    else leastBelow cost bound as

/-- Names further away than this are no guess at all. -/
def maxNameDistance : Nat := 3

/-- The known name an unknown one most likely stands for. -/
def nearestName? (unknown : Text) (known : List Text) : Option Text :=
  if unknown.isEmpty then none
  else
    match known.filter (holdsInOrder unknown) with
    | first :: rest =>
      let cost name := editDistance (chars unknown) (chars name)
      some ((leastBelow cost (cost first) rest).getD first)
    | [] =>
      leastBelow (fun name => editDistance (chars (toLower unknown)) (chars (toLower name)))
        (maxNameDistance + 1) known

/-- The hint that names the nearest known name; empty if none is near. -/
def suggestName (unknown : Text) (known : List Text) : Text :=
  match nearestName? unknown known with
  | some name => if name.isEmpty then [] else "Did you mean '" ++ name ++ "'?"
  | none => []

/-- The hint that lists known names, the first five if there are more. -/
def suggestValid (kind : Text) (known : List Text) : Text :=
  if known.length > 5 then
    "Valid " ++ kind ++ " include: " ++ join ", " (known.take 5) ++ ", ..."
  else "Valid " ++ kind ++ ": " ++ join ", " known

end MathMarkup.Text
