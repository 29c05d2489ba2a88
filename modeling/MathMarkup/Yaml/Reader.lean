import MathMarkup.Yaml.Basic
import MathMarkup.Yaml.Encoding
import MathMarkup.Yaml.Token

/-!
# Reading documents

The tokens of a document are read as one value. Names are resolved on the way: a reference stands
for the value that had its name last. The first document of a text is its value. Of what follows it
only that is looked at which has to be known to tell where the document ends: a few tokens, and all
that could still make a key of what has been read.
-/

namespace MathMarkup.Yaml

/-- The state in which tokens are read. -/
structure Reading where
  tokens : List Token
  /-- What the handles of tags stand for. -/
  handles : List (Text × Text)
  /-- The names given so far, the last one first, with their values if these are complete. -/
  names : List (Text × Option Yaml) := []

/-- A step of reading, which refuses or goes on. -/
abbrev Read := StateT Reading Option

namespace Read

/-- The next token. -/
def peek : Read Token := do return (← get).tokens.headD .finish

/-- Passes over the next token. -/
def advance : Read Unit := modify fun s => { s with tokens := s.tokens.tail }

/-- The document is refused. -/
def refuse {α : Type} : Read α := fun _ => none

/-- The value a name stands for. A collection that is not complete has none. -/
def lookUp (name : Text) : Read Yaml := do
  match (← get).names.lookup name with
  | some (some v) => return .reference name v
  | some none => return .cycle name
  | none => refuse

/-- Gives a name to a value that is still to be read, and returns the number of names before it. -/
def declare (name : Text) : Read Nat := do
  let s ← get
  set { s with names := (name, none) :: s.names }
  return s.names.length

/-- Gives the value of the name that `number` names came before. -/
def complete (number : Nat) (v : Yaml) : Read Unit :=
  modify fun s =>
    { s with names := s.names.modify (s.names.length - 1 - number) fun (name, _) => (name, some v) }

/-- The tag of a handle and a suffix, in its short form. A handle that stands for nothing is
refused; a tag without a handle is given in full. -/
def tagOf (handle suffix : Text) : Read Text := do
  if handle.isEmpty then return shortTag suffix
  else
    match (← get).handles.lookup handle with
    | some meaning => return shortTag (meaning ++ suffix)
    | none => refuse

/-- The name and the tag in front of a value, in either order. -/
def properties : Read (Option Text × Option Text) := do
  match ← peek with
  | .anchor name =>
    advance
    match ← peek with
    | .tag handle suffix =>
      advance
      return (some name, some (← tagOf handle suffix))
    | _ => return (some name, none)
  | .tag handle suffix =>
    advance
    match ← peek with
    | .anchor name =>
      advance
      return (some name, some (← tagOf handle suffix))
    | _ => return (none, some (← tagOf handle suffix))
  | _ => return (none, none)

end Read

open Read

/-- The text of a tag; a lone exclamation mark says nothing about a scalar. -/
def tagText (tag : Option Text) : Text := (tag.filter (· != Text.ofString "!")).getD []

/-- Whether a token ends a place in a block mapping that is left empty. -/
def endsPair (t : Token) : Bool := t == .key || t == .value || t == .blockEnd

mutual

/-- A value with its properties. Collections written by indentation are read only if `block` holds,
and sequences in the column of the mapping around them only if `flush` holds. A place that has
properties and no value is an empty scalar. -/
def readValue (block flush : Bool) : Nat → Read Yaml
  | 0 => refuse
  | bound + 1 => do
    match ← peek with
    | .reference name =>
      advance
      lookUp name
    | _ =>
      let (name, tag) ← properties
      let number ← name.mapM declare
      let v ← readContent block flush name.isSome tag bound
      if let some n := number then complete n v
      return v

/-- A value behind its properties. -/
def readContent (block flush named : Bool) (tag : Option Text) : Nat → Read Yaml
  | 0 => refuse
  | bound + 1 => do
    match ← peek, block, flush with
    | .item, _, true => return .sequence (← flushItems bound [])
    | .scalar plain t, _, _ =>
      advance
      return .scalar (tagText tag) plain t
    | .openSequence, _, _ =>
      advance
      return .sequence (← flowItems true bound [])
    | .openMapping, _, _ =>
      advance
      return .mapping (← flowPairs true bound [])
    | .sequenceStart, true, _ =>
      advance
      return .sequence (← blockItems bound [])
    | .mappingStart, true, _ =>
      advance
      return .mapping (← blockPairs bound [])
    | _, _, _ => if named || tag.isSome then return .scalar (tagText tag) true [] else refuse

/-- The items of a sequence written by indentation; `acc` holds those before, the last one first. -/
def blockItems : Nat → List Yaml → Read (List Yaml)
  | 0, _ => refuse
  | bound + 1, acc => do
    match ← peek with
    | .item =>
      advance
      let t ← peek
      if t == .item || t == .blockEnd then blockItems bound (empty :: acc)
      else
        let v ← readValue true false bound
        blockItems bound (v :: acc)
    | .blockEnd =>
      advance
      return acc.reverse
    | _ => refuse

/-- The items of a sequence in the column of the mapping around it; it ends with its last item. -/
def flushItems : Nat → List Yaml → Read (List Yaml)
  | 0, _ => refuse
  | bound + 1, acc => do
    match ← peek with
    | .item =>
      advance
      let t ← peek
      if t == .item || endsPair t then flushItems bound (empty :: acc)
      else
        let v ← readValue true false bound
        flushItems bound (v :: acc)
    | _ => return acc.reverse

/-- The pairs of a mapping written by indentation. A pair without a value has an empty one. -/
def blockPairs : Nat → List (Yaml × Yaml) → Read (List (Yaml × Yaml))
  | 0, _ => refuse
  | bound + 1, acc => do
    match ← peek with
    | .key =>
      advance
      let k ← blockPart bound
      if (← peek) == .value then
        advance
        let v ← blockPart bound
        blockPairs bound ((k, v) :: acc)
      else blockPairs bound ((k, empty) :: acc)
    | .blockEnd =>
      advance
      return acc.reverse
    | _ => refuse

/-- The key or the value of a pair in a mapping written by indentation. -/
def blockPart : Nat → Read Yaml
  | 0 => refuse
  | bound + 1 => do
    if endsPair (← peek) then return empty else readValue true true bound

/-- The items of a sequence between brackets, of which `first` is the first. A key makes its item a
mapping of one pair. -/
def flowItems (first : Bool) : Nat → List Yaml → Read (List Yaml)
  | 0, _ => refuse
  | bound + 1, acc => do
    if (← peek) == .closeSequence then
      advance
      return acc.reverse
    else
      if !first then
        if (← peek) == .comma then advance else refuse
      match ← peek with
      | .closeSequence =>
        advance
        return acc.reverse
      | .key =>
        advance
        let t ← peek
        let k ←
          if t == .value || t == .comma || t == .closeSequence then
            advance
            pure empty
          else readValue false false bound
        let v ← flowPart .closeSequence bound
        flowItems false bound (.mapping [(k, v)] :: acc)
      | _ =>
        let v ← readValue false false bound
        flowItems false bound (v :: acc)

/-- The pairs of a mapping between brackets, of which `first` is the first. -/
def flowPairs (first : Bool) : Nat → List (Yaml × Yaml) → Read (List (Yaml × Yaml))
  | 0, _ => refuse
  | bound + 1, acc => do
    if (← peek) == .closeMapping then
      advance
      return acc.reverse
    else
      if !first then
        if (← peek) == .comma then advance else refuse
      match ← peek with
      | .closeMapping =>
        advance
        return acc.reverse
      | .key =>
        advance
        let t ← peek
        let k ←
          if t == .value || t == .comma || t == .closeMapping then pure empty
          else readValue false false bound
        let v ← flowPart .closeMapping bound
        flowPairs false bound ((k, v) :: acc)
      | _ =>
        let k ← readValue false false bound
        flowPairs false bound ((k, empty) :: acc)

/-- The value of a pair between brackets, which is empty if it is left out. -/
def flowPart (close : Token) : Nat → Read Yaml
  | 0 => refuse
  | bound + 1 => do
    if (← peek) == .value then
      advance
      let t ← peek
      if t == .comma || t == close then return empty else readValue false false bound
    else return empty

end

/-! ## Documents -/

/-- The handles that need no directive. -/
def commonHandles : List (Text × Text) := [("!", "!"), ("!!", commonTags)]

/-- The directives at the head of a document: the handles they give and the tokens behind them. The
only version is 1.1; nothing is said twice. -/
def readDirectives (versioned : Bool) (handles : List (Text × Text)) :
    List Token → Option (List (Text × Text) × List Token)
  | .version major minor :: rest =>
    if versioned || major != 1 || minor != 1 then none else readDirectives true handles rest
  | .handle name meaning :: rest =>
    if (handles.lookup name).isSome then none
    else readDirectives versioned ((name, meaning) :: handles) rest
  | rest => some (handles ++ commonHandles, rest)

/-- Whether a token ends a document or starts the next one. -/
def endsDocument : Token → Bool
  | .version _ _ | .handle _ _ | .documentStart | .documentEnd | .finish => true
  | _ => false

/-- How many tokens are known when one is read. -/
def lookahead : Nat := 3

/-- Whether the token at the head of `rest` can be read, where `ts` are all tokens: no fault is
among the next few tokens, and of all tokens so far it was known before the fault whether they begin
a key. -/
def isKnown (ts rest : List Token) : Bool :=
  match ts.getLast? with
  | some (.fault undecided) =>
    rest.length > lookahead && undecided.all (ts.length - rest.length < ·)
  | _ => true

/-- The value at the head of some tokens, and the tokens behind it. -/
def readRoot? (handles : List (Text × Text)) (ts : List Token) : Option (Yaml × List Token) :=
  ((readValue true false (3 * ts.length + 3)).run { tokens := ts, handles }).map fun (v, s) =>
    (v, s.tokens)

/-- The value of the first document of some tokens, and the tokens behind it: none if it is refused,
and no value if there is no document. A document that starts with a mark may be empty. -/
def readFirst? (ts : List Token) : Option (Option Yaml × List Token) :=
  match ts with
  | .finish :: _ => some (none, ts)
  | t :: _ =>
    if endsDocument t && t != .documentEnd then
      match readDirectives false [] ts with
      | some (handles, .documentStart :: rest) =>
        if rest.head?.any endsDocument then some (some empty, rest)
        else (readRoot? handles rest).map fun (v, rest) => (some v, rest)
      | _ => none
    else (readRoot? commonHandles ts).map fun (v, rest) => (some v, rest)
  | [] => none

/-- The value of the first document of some tokens, if what is known of the tokens behind it can be
read. -/
def readDocument? (ts : List Token) : Option (Option Yaml) :=
  (readFirst? ts).bind fun (v, rest) => if isKnown ts rest then some v else none

/-- The value of the first document of a text: none if the text is refused, and no value if there is
no document. -/
def read? (t : Text) : Option (Option Yaml) := (chars? t).bind fun cs => readDocument? (tokens cs)

end MathMarkup.Yaml
