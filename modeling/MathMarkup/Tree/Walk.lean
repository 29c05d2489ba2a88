import MathMarkup.Tree.Basic

/-!
# Walking a tree

The nodes of a tree are visited in depth-first pre-order. The height and the number of nodes are
folds over the same children.
-/

namespace MathMarkup.Node

mutual

/-- The height of a tree; a leaf has height 1 and a node missing altogether none. -/
def depth : Node → Nat
  | absent none => 0
  | absent (some _) => 1
  | root es _ => depthList es + 1
  | expression _ ns _ => depthList ns + 1
  | function _ args exponent _ => max (depthList args) (depthOption exponent) + 1
  | unit cs _ => (if cs.isEmpty then 0 else 1) + 1
  | char _ => 1
  | environment _ es _ => depthList es + 1

/-- The greatest height in a list of trees. -/
def depthList : List Node → Nat
  | [] => 0
  | n :: ns => max (depth n) (depthList ns)

/-- The height of a tree that may be missing. -/
def depthOption : Option Node → Nat
  | none => 0
  | some n => depth n

end

mutual

/-- The number of nodes of a tree. -/
def count : Node → Nat
  | absent none => 0
  | absent (some _) => 1
  | root es _ => countList es + 1
  | expression _ ns _ => countList ns + 1
  | function _ args exponent _ => countList args + countOption exponent + 1
  | unit cs _ => cs.length + 1
  | char _ => 1
  | environment _ es _ => countList es + 1

/-- The number of nodes of a list of trees. -/
def countList : List Node → Nat
  | [] => 0
  | n :: ns => count n + countList ns

/-- The number of nodes of a tree that may be missing. -/
def countOption : Option Node → Nat
  | none => 0
  | some n => count n

end

/-- What a visitor wants after it has seen a node. -/
inductive Visit (ε : Type) where
  /-- Continue with the children. -/
  | enter
  /-- Leave the children out. -/
  | skip
  /-- End the walk. -/
  | stop (error : ε)

/-- The outcome of visiting a part of a tree: the nodes seen so far, most recent first, and the
error that ended the walk. -/
abbrev Visited (ε : Type) := List Node × Option ε

/-- Visits the characters of a unit. -/
def walkChars {ε : Type} (visit : Node → Visit ε) (seen : List Node) :
    List Character → Visited ε
  | [] => (seen, none)
  | c :: cs =>
    match visit (char c) with
    | .stop e => (char c :: seen, some e)
    | _ => walkChars visit (char c :: seen) cs

mutual

/-- Visits a tree in depth-first pre-order. -/
def walkFrom {ε : Type} (visit : Node → Visit ε) (seen : List Node) : Node → Visited ε
  | absent none => (seen, none)
  | absent (some k) =>
    let n := absent (some k)
    match visit n with
    | .stop e => (n :: seen, some e)
    | _ => (n :: seen, none)
  | root es s =>
    let n := root es s
    match visit n with
    | .stop e => (n :: seen, some e)
    | .skip => (n :: seen, none)
    | .enter => walkList visit (n :: seen) es
  | expression w ns s =>
    let n := expression w ns s
    match visit n with
    | .stop e => (n :: seen, some e)
    | .skip => (n :: seen, none)
    | .enter => walkList visit (n :: seen) ns
  | function name args exponent s =>
    let n := function name args exponent s
    match visit n with
    | .stop e => (n :: seen, some e)
    | .skip => (n :: seen, none)
    | .enter =>
      match walkList visit (n :: seen) args with
      | (seen, some e) => (seen, some e)
      | (seen, none) => walkOption visit seen exponent
  | unit cs s =>
    let n := unit cs s
    match visit n with
    | .stop e => (n :: seen, some e)
    | .skip => (n :: seen, none)
    | .enter => walkChars visit (n :: seen) cs
  | char c =>
    match visit (char c) with
    | .stop e => (char c :: seen, some e)
    | _ => (char c :: seen, none)
  | environment type es s =>
    let n := environment type es s
    match visit n with
    | .stop e => (n :: seen, some e)
    | .skip => (n :: seen, none)
    | .enter => walkList visit (n :: seen) es

/-- Visits a list of trees until one ends the walk. -/
def walkList {ε : Type} (visit : Node → Visit ε) (seen : List Node) : List Node → Visited ε
  | [] => (seen, none)
  | n :: ns =>
    match walkFrom visit seen n with
    | (seen, some e) => (seen, some e)
    | (seen, none) => walkList visit seen ns

/-- Visits a tree that may be missing. -/
def walkOption {ε : Type} (visit : Node → Visit ε) (seen : List Node) : Option Node → Visited ε
  | none => (seen, none)
  | some n => walkFrom visit seen n

end

/-- The nodes a visitor sees, in order, and the error that ended the walk, if one did. -/
def walk {ε : Type} (visit : Node → Visit ε) (n : Node) : List Node × Option ε :=
  let (seen, error) := walkFrom visit [] n
  (seen.reverse, error)

end MathMarkup.Node
