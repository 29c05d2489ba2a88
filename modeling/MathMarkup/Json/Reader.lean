import MathMarkup.Json.Value

/-!
# Reading JSON

A value is read from the beginning of a text. Where that fails, either something stands there that
no value has, or the text ends too early: what arrives in pieces may still be completed in the
second case, never in the first.

Strings may hold any bytes; those that encode nothing are read as the replacement character, and so
is half of a surrogate pair without its other half.
-/

namespace MathMarkup.Json

/-- Why no value could be read. -/
inductive ReadFault where
  /-- Something stands in the text that no value has there. -/
  | malformed
  /-- The text ends within a value. -/
  | incomplete
deriving DecidableEq, Repr

/-- How deep arrays and objects may stand in each other. -/
def maxNesting : Nat := 10000

/-- A text without its leading blanks. -/
def skipBlanks (t : Text) : Text := t.dropWhile Text.isBlank

/-! ## Strings -/

/-- A piece of a string: a byte that stands for itself, or a code unit given by an escape. -/
inductive Piece where
  | byte (b : UInt8)
  | unit (n : Nat)

/-- The byte that a short escape stands for. -/
def shortEscape? (b : UInt8) : Option UInt8 :=
  if b == Text.byte '"' || b == Text.byte '\\' || b == Text.byte '/' then some b
  else if b == Text.byte 'b' then some 8
  else if b == Text.byte 'f' then some 12
  else if b == Text.byte 'n' then some 10
  else if b == Text.byte 'r' then some 13
  else if b == Text.byte 't' then some 9
  else none

/-- The value of `n` hexadecimal digits at the beginning of a text, in front of which `acc` was
read. -/
def hexDigits : Nat → Nat → Text → Except ReadFault (Nat × Text)
  | 0, acc, t => .ok (acc, t)
  | _ + 1, _, [] => .error .incomplete
  | n + 1, acc, b :: r =>
    match Text.hexValue? b with
    | some d => hexDigits n (acc * 16 + d) r
    | none => .error .malformed

/-- The pieces of a string up to its closing quote; `fuel` is at least the length of the text. -/
def pieces : Nat → Text → Except ReadFault (List Piece × Text)
  | 0, _ => .error .incomplete
  | _ + 1, [] => .error .incomplete
  | fuel + 1, b :: r =>
    if b == Text.byte '"' then .ok ([], r)
    else if b < 0x20 then .error .malformed
    else if b == Text.byte '\\' then
      match r with
      | [] => .error .incomplete
      | e :: r =>
        if e == Text.byte 'u' then do
          let (n, r) ← hexDigits 4 0 r
          let (ps, r) ← pieces fuel r
          pure (.unit n :: ps, r)
        else
          match shortEscape? e with
          | some x => do
            let (ps, r) ← pieces fuel r
            pure (.byte x :: ps, r)
          | none => .error .malformed
    else do
      let (ps, r) ← pieces fuel r
      pure (.byte b :: ps, r)

/-- Whether a code unit is the first half of a pair. -/
def isHighHalf (n : Nat) : Bool := 0xD800 ≤ n && n < 0xDC00

/-- Whether a code unit is the second half of a pair. -/
def isLowHalf (n : Nat) : Bool := 0xDC00 ≤ n && n < 0xE000

/-- The character of a code unit; half of a pair is the replacement character. -/
def unitChar (n : Nat) : Char :=
  if isHighHalf n || isLowHalf n then Text.replacementChar else Char.ofNat n

/-- The bytes of the pieces of a string. -/
def assemble : List Piece → Text
  | [] => []
  | .byte b :: ps => b :: assemble ps
  | .unit h :: .unit l :: ps =>
    if isHighHalf h && isLowHalf l then
      Text.ofChar (Char.ofNat (0x10000 + (h - 0xD800) * 0x400 + (l - 0xDC00))) ++ assemble ps
    else Text.ofChar (unitChar h) ++ assemble (.unit l :: ps)
  | .unit n :: ps => Text.ofChar (unitChar n) ++ assemble ps

/-- Reads a string after its opening quote. -/
def string (t : Text) : Except ReadFault (Text × Text) := do
  let (ps, r) ← pieces (t.length + 1) t
  pure ((assemble ps).chars.flatMap Text.ofChar, r)

/-! ## Numbers -/

/-- The value of decimal digits. -/
def digitsValue (ds : Text) : Nat := ds.foldl (fun n b => n * 10 + (b.toNat - 48)) 0

/-- The digits at the beginning of a text, of which there must be one. -/
def someDigits (t : Text) : Except ReadFault (Text × Text) :=
  let ds := t.takeWhile Text.isDigit
  let r := t.dropWhile Text.isDigit
  if !ds.isEmpty then .ok (ds, r)
  else if r.isEmpty then .error .incomplete
  else .error .malformed

/-- The fraction of a number: its digits, none if there is no point. -/
def fraction (t : Text) : Except ReadFault (Text × Text) :=
  match t with
  | b :: r => if b == Text.byte '.' then someDigits r else .ok ([], t)
  | [] => .ok ([], t)

/-- The sign in front of an exponent. -/
def exponentSign (t : Text) : Int × Text :=
  match t with
  | b :: r =>
    if b == Text.byte '-' then (-1, r) else if b == Text.byte '+' then (1, r) else (1, t)
  | [] => (1, t)

/-- The exponent of a number, if it has one. -/
def exponent (t : Text) : Except ReadFault (Option Int × Text) :=
  match t with
  | b :: r =>
    if b == Text.byte 'e' || b == Text.byte 'E' then do
      let (sign, r) := exponentSign r
      let (ds, r) ← someDigits r
      pure (some (sign * (digitsValue ds : Int)), r)
    else .ok (none, t)
  | [] => .ok (none, t)

/-- The whole part of a number: a zero, or digits that do not start with one. -/
def wholePart (t : Text) : Except ReadFault (Text × Text) :=
  match t with
  | b :: r => if b == Text.byte '0' then .ok ([b], r) else someDigits t
  | [] => .error .incomplete

/-- Reads a number. -/
def number (t : Text) : Except ReadFault (Json × Text) := do
  let (sign, t) : Int × Text := match t with
    | b :: r => if b == Text.byte '-' then (-1, r) else (1, t)
    | [] => (1, t)
  let (whole, t) ← wholePart t
  let (frac, t) ← fraction t
  let (e, t) ← exponent t
  let digits := sign * (digitsValue (whole ++ frac) : Int)
  if frac.isEmpty && e.isNone then pure (.int digits, t)
  else pure (.decimal digits (e.getD 0 - frac.length), t)

/-! ## Values -/

/-- Reads a word that stands for a value. -/
def word (w : Text) (v : Json) (t : Text) : Except ReadFault (Json × Text) :=
  if w.isPrefixOf t then .ok (v, t.drop w.length)
  else if t.isPrefixOf w then .error .incomplete
  else .error .malformed

/-- Reads a byte that has to come next, after blanks. -/
def expect (x : UInt8) (t : Text) : Except ReadFault Text :=
  match skipBlanks t with
  | [] => .error .incomplete
  | b :: r => if b == x then .ok r else .error .malformed

mutual

/-- Reads a value that stands `depth` levels deep; `fuel` is more than twice the length of the
text. -/
def valueAt : Nat → Nat → Text → Except ReadFault (Json × Text)
  | 0, _, _ => .error .incomplete
  | fuel + 1, depth, t =>
    match skipBlanks t with
    | [] => .error .incomplete
    | b :: r =>
      if b == Text.byte '"' then (string r).map fun (s, r) => (.text s, r)
      else if b == Text.byte 't' then word "true" (.bool true) (b :: r)
      else if b == Text.byte 'f' then word "false" (.bool false) (b :: r)
      else if b == Text.byte 'n' then word "null" .null (b :: r)
      else if b == Text.byte '-' || Text.isDigit b then number (b :: r)
      else if b == Text.byte '[' then
        if depth ≥ maxNesting then .error .malformed
        else
          match skipBlanks r with
          | [] => .error .incomplete
          | c :: r' =>
            if c == Text.byte ']' then .ok (.array [], r')
            else (itemsAt fuel (depth + 1) r).map fun (vs, r) => (.array vs, r)
      else if b == Text.byte '\x7b' then
        if depth ≥ maxNesting then .error .malformed
        else
          match skipBlanks r with
          | [] => .error .incomplete
          | c :: r' =>
            if c == Text.byte '\x7d' then .ok (.object [], r')
            else (fieldsAt fuel (depth + 1) r).map fun (fs, r) => (.object fs, r)
      else .error .malformed

/-- Reads the items of an array up to its end. -/
def itemsAt : Nat → Nat → Text → Except ReadFault (List Json × Text)
  | 0, _, _ => .error .incomplete
  | fuel + 1, depth, t => do
    let (v, r) ← valueAt fuel depth t
    match skipBlanks r with
    | [] => .error .incomplete
    | b :: r =>
      if b == Text.byte ']' then pure ([v], r)
      else if b == Text.byte ',' then
        let (vs, r) ← itemsAt fuel depth r
        pure (v :: vs, r)
      else .error .malformed

/-- Reads the fields of an object up to its end. -/
def fieldsAt : Nat → Nat → Text → Except ReadFault (List (Text × Json) × Text)
  | 0, _, _ => .error .incomplete
  | fuel + 1, depth, t => do
    let r ← expect (Text.byte '"') t
    let (k, r) ← string r
    let r ← expect (Text.byte ':') r
    let (v, r) ← valueAt fuel depth r
    match skipBlanks r with
    | [] => .error .incomplete
    | b :: r =>
      if b == Text.byte '\x7d' then pure ([(k, v)], r)
      else if b == Text.byte ',' then
        let (fs, r) ← fieldsAt fuel depth r
        pure ((k, v) :: fs, r)
      else .error .malformed

end

/-- Reads the value at the beginning of a text. -/
def readFirst (t : Text) : Except ReadFault (Json × Text) := valueAt (2 * t.length + 2) 0 t

/-- Reads a text that is one value. -/
def read? (t : Text) : Option Json :=
  match readFirst t with
  | .ok (v, r) => if (skipBlanks r).isEmpty then some v else none
  | .error _ => none

end MathMarkup.Json
