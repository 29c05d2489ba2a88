import MathMarkup.Files.Path
import MathMarkup.Text.Basic

/-!
# Targets of requests

A target is a path, and a query after a question mark. Bytes are written as a percent sign and two
hexadecimal digits where they would be taken for something else.
-/

namespace MathMarkup.Http

/-! ## Percent signs -/

/-- A text with its percent signs resolved, unless one stands without two digits. -/
def percentDecode? : Text → Option Text
  | [] => some []
  | b :: r =>
    if b == Text.byte '%' then
      match r with
      | h :: l :: r' => do
        let hi ← Text.hexValue? h
        let lo ← Text.hexValue? l
        let rest ← percentDecode? r'
        pure ((hi * 16 + lo).toUInt8 :: rest)
      | _ => none
    else (percentDecode? r).map (b :: ·)

/-- A name or value of a query, where a plus sign is a space. -/
def formDecode? (t : Text) : Option Text :=
  percentDecode? (t.map fun b => if b == Text.byte '+' then Text.byte ' ' else b)

/-- Whether a byte stands for itself in a path. -/
def isPathByte (b : UInt8) : Bool :=
  Text.isLetter b || Text.isDigit b || (Text.ofString "-_.~$&+,/:;=@").contains b

/-- A path with bytes that do not stand for themselves written with percent signs. -/
def encodePath (t : Text) : Text :=
  t.flatMap fun b =>
    if isPathByte b then [b] else Text.byte '%' :: (Text.hexFixed 2 b.toNat).map Text.upperByte

/-! ## Paths and queries -/

/-- A target split into its path and its query. -/
def splitTarget (t : Text) : Text × Text := (Text.cutByte? (Text.byte '?') t).getD (t, [])

/-- A path without empty and dotted names; a slash at its end stays. -/
def cleanPath (p : Text) : Text :=
  let p := if Path.isRooted p then p else Path.slash :: p
  let c := Path.clean p
  if p.getLast? == some Path.slash && c != [Path.slash] then c ++ [Path.slash] else c

/-- The names of a clean path, resolved; a slash at the end counts as a name. -/
def pathNames (p : Text) : List Text :=
  (Text.splitByte Path.slash (p.drop 1)).map fun n =>
    if n.isEmpty then [Path.slash] else (percentDecode? n).getD n

/-- One pair of a query; a pair that is empty, malformed or holds a semicolon is left out. -/
def queryPair? (part : Text) : Option (Text × Text) :=
  if part.isEmpty || part.contains (Text.byte ';') then none
  else do
    let (k, v) := (Text.cutByte? (Text.byte '=') part).getD (part, [])
    let k ← formDecode? k
    let v ← formDecode? v
    pure (k, v)

/-- Values under their names, with one value added. -/
def addValue (vs : List (Text × List Text)) (k v : Text) : List (Text × List Text) :=
  if vs.any (·.1 == k) then vs.map fun p => if p.1 == k then (k, p.2 ++ [v]) else p
  else vs ++ [(k, [v])]

/-- The values of a query under their names, in order. -/
def queryValues (query : Text) : List (Text × List Text) :=
  ((Text.splitByte (Text.byte '&') query).filterMap queryPair?).foldl
    (fun vs (k, v) => addValue vs k v) []

end MathMarkup.Http
