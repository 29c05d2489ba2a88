import MathMarkup.Text.Basic

/-!
# Paths

A path is a text of names between slashes. It is relative to the working directory unless it starts
with a slash.
-/

namespace MathMarkup.Path

/-- The byte between names. -/
def slash : UInt8 := Text.byte '/'

/-- Whether a path starts at the root. -/
def isRooted (p : Text) : Bool := p.head? == some slash

/-- The name of the directory that holds a directory. -/
def up : Text := ".."

/-- Adds a name to names already walked, the last one first: nothing and a single dot stay, two dots
go back where that is possible. -/
def walkName (rooted : Bool) (done : List Text) (name : Text) : List Text :=
  if name.isEmpty || name == Text.ofString "." then done
  else if name == up then
    match done with
    | [] => if rooted then [] else [up]
    | last :: rest => if last == up then up :: done else rest
  else name :: done

/-- The names of a path after it has been walked. -/
def names (p : Text) : List Text :=
  ((Text.splitByte slash p).foldl (walkName (isRooted p)) []).reverse

/-- The path of some names. -/
def ofNames (rooted : Bool) (ns : List Text) : Text :=
  let body := Text.join "/" ns
  if rooted then slash :: body else if body.isEmpty then "." else body

/-- The shortest path to the same place. -/
def clean (p : Text) : Text := ofNames (isRooted p) (names p)

/-- The path of the directory that a path lies in. -/
def dir (p : Text) : Text :=
  match Text.findLastByte? slash p with
  | some k => clean (p.take (k + 1))
  | none => "."

/-- A path without slashes at its end. -/
def trimEnd (p : Text) : Text := (p.reverse.dropWhile (· == slash)).reverse

/-- The last name of a path. -/
def base (p : Text) : Text :=
  if p.isEmpty then "."
  else
    let t := trimEnd p
    if t.isEmpty then "/"
    else
      match Text.findLastByte? slash t with
      | some k => t.drop (k + 1)
      | none => t

/-- The end of the last name from its last dot on, empty if it has none. -/
def extension (p : Text) : Text :=
  let last := match Text.findLastByte? slash p with
    | some k => p.drop (k + 1)
    | none => p
  match Text.findLastByte? (Text.byte '.') last with
  | some k => last.drop k
  | none => []

/-- A path without its extension. -/
def stem (p : Text) : Text := p.take (p.length - (extension p).length)

/-- Whether the last name of a path starts with a dot. -/
def isHidden (p : Text) : Bool := (base p).head? == some (Text.byte '.')

/-- A name inside a directory. -/
def inside (directory name : Text) : Text := clean (directory ++ "/" ++ name)

end MathMarkup.Path
