import MathMarkup.Text.Rune

/-!
# Operators and sizing

Operator commands become plain operators, sizing commands and line spacings disappear. Command names
are read without regard to case; besides its two cases, the letter `s` is also spelled by U+017F.
-/

namespace MathMarkup.Cleaning

/-- The number of bytes at the head of a text that spell the letter `letter`, case ignored. -/
def letterWidth? (letter : UInt8) : Text → Option Nat
  | [] => none
  | b :: r =>
    if Text.lowerByte b == letter then some 1
    else if letter == Text.byte 's' && b == 0xC5 && r.head? == some 0xBF then some 2
    else none

/-- The number of bytes at the head of a text that spell a word of lower-case letters and signs,
case ignored. -/
def wordWidth? : Text → Text → Option Nat
  | [], _ => some 0
  | letter :: word, t => do
    let w ← letterWidth? letter t
    let more ← wordWidth? word (t.drop w)
    pure (w + more)

/-- The first of several words that the head of a text spells, with its width. -/
def spelled? (words : List (Text × Text)) (t : Text) : Option (Nat × Text) :=
  words.firstM fun (word, out) => (wordWidth? word t).map fun w => (w, out)

/-- Multiplication signs. -/
def multiplications : List (Text × Text) := [("\\cdot", "*"), ("\\times", "*")]

/-- Division signs. -/
def divisions : List (Text × Text) := [("\\div", "/")]

/-- Comparison signs. -/
def comparisons : List (Text × Text) :=
  [("\\leq", "<="), ("\\lt", "<"), ("\\geq", ">="), ("\\gt", ">")]

/-- Operator commands written as plain operators: multiplications first, then divisions, then
comparisons. -/
def convertOperators (t : Text) : Text :=
  Text.replaceAll (spelled? comparisons)
    (Text.replaceAll (spelled? divisions) (Text.replaceAll (spelled? multiplications) t))

/-- The width of a sizing command at the head of a text: `\left` or `\right`, not followed by a
letter, a digit or an underscore. -/
def sizing? (t : Text) : Option (Nat × Text) :=
  match spelled? [("\\left", []), ("\\right", [])] t with
  | some (w, out) => if (t.drop w).head?.any Text.isWordByte then none else some (w, out)
  | none => none

/-- A text without sizing commands. -/
def removeSizing (t : Text) : Text := Text.replaceAll sizing? t

/-- The width of a line spacing such as `[12pt]` at the head of a text. -/
def spacing? (t : Text) : Option (Nat × Text) :=
  match t with
  | [] => none
  | b :: r =>
    let digits := (r.takeWhile Text.isDigit).length
    if b == Text.byte '[' && digits > 0 then
      (wordWidth? "pt]" (r.drop digits)).map fun w => (1 + digits + w, [])
    else none

/-- A text without line spacings. -/
def removeSpacing (t : Text) : Text := Text.replaceAll spacing? t

end MathMarkup.Cleaning
