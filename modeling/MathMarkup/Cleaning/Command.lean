import MathMarkup.Bracket

/-!
# Commands with brace arguments

Presentation commands such as `\textcolor{red}{x}` are replaced by one of their arguments or
removed. `substitute` edits the text in place: an invocation is cut out, its replacement is put
there, and the search for the next one goes on behind the replacement, which is not looked into
again. An argument starts at the next `{` after the end of the one before it, whatever stands in
between.
-/

namespace MathMarkup.Cleaning

/-- The offset of the first occurrence of a command name that is not followed by a letter; a name
followed by a letter is a longer name. -/
def findCommand? (name : Text) : Text → Option Nat
  | [] => none
  | b :: r =>
    if name.isPrefixOf (b :: r) && !(((b :: r).drop name.length).head?.any Text.isLetter) then
      some 0
    else (findCommand? name r).map (· + 1)

/-- The position of the first invocation of a command at or after a position. -/
def commandFrom? (name t : Text) (pos : Nat) : Option Nat :=
  (findCommand? name (t.drop pos)).map (pos + ·)

/-- The position of the first opening brace at or after a position. -/
def braceFrom? (t : Text) (pos : Nat) : Option Nat :=
  (Text.findByte? Bracket.curly.opening (t.drop pos)).map (pos + ·)

/-- The contents of the arguments from number `k` on, `n` of them, of the command at `start`, and
the position behind the last of them. The number after `n` is the position of the last byte that has
been read: the end of the name, or the brace that closes the argument before. -/
def argumentsFrom (name t : Text) (start : Nat) :
    Nat → Nat → Nat → Except StageError (List Text × Nat)
  | _, 0, last => .ok ([], last + 1)
  | k, n + 1, last =>
    match braceFrom? t last with
    | none => .error (.cleaning (CleaningError.atCommand t name k start))
    | some first =>
      match Bracket.findEnd t first with
      | .error e => .error (.delimiter e)
      | .ok stop => do
        let (contents, behind) ← argumentsFrom name t start (k + 1) n stop
        .ok (t.slice (first + 1) stop :: contents, behind)

/-- Replaces the invocations of a command that stand at or after a position. The first argument
bounds the number of invocations. -/
def editFrom (name : Text) (n : Nat) (replace : List Text → Text) :
    Nat → Text → Nat → Except StageError Text
  | 0, t, _ => .ok t
  | bound + 1, t, pos =>
    match commandFrom? name t pos with
    | none => .ok t
    | some start =>
      match argumentsFrom name t start 1 n (start + name.length - 1) with
      | .error e => .error e
      | .ok (contents, behind) =>
        let replacement := replace contents
        editFrom name n replace bound (t.take start ++ replacement ++ t.drop behind)
          (start + replacement.length)

/-- Every invocation of a command with `n` brace arguments replaced. -/
def substitute (name : Text) (n : Nat) (replace : List Text → Text) (t : Text) :
    Except StageError Text :=
  editFrom name n replace (t.length + 1) t 0

/-- Every invocation replaced by its argument number `x`, counted from 1. -/
def keepArgument (name : Text) (x n : Nat) (t : Text) : Except StageError Text :=
  substitute name n (fun args => args.getD (x - 1) []) t

/-- Every invocation removed. -/
def removeCommand (name : Text) (n : Nat) (t : Text) : Except StageError Text :=
  substitute name n (fun _ => []) t

end MathMarkup.Cleaning
