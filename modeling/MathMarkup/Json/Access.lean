import MathMarkup.Json.Value

/-!
# Looking into JSON values

A value that is looked for and is not there, or is of another kind than expected, is the empty one
of the expected kind. A text whose bytes are no string of characters is an object with its bytes in
hexadecimal under the key `hex`.
-/

namespace MathMarkup.Json

/-- The fields of an object. -/
def fields : Json → List (Text × Json)
  | object fs => fs
  | _ => []

/-- The items of an array. -/
def items : Json → List Json
  | array vs => vs
  | _ => []

/-- The value of a field. -/
def get? (j : Json) (key : Text) : Option Json := j.fields.lookup key

/-- The value of a field, `null` if there is none. -/
def get (j : Json) (key : Text) : Json := (j.get? key).getD null

/-- Whether a value is `null`. -/
def isNull : Json → Bool
  | null => true
  | _ => false

/-- Whether a value is `true`. -/
def isTrue : Json → Bool
  | bool b => b
  | _ => false

/-- The text of a value. -/
def asText : Json → Text
  | text t => t
  | object [(_, text h)] => (Text.ofHex? h).getD []
  | _ => []

/-- A text as a value. -/
def ofText (t : Text) : Json :=
  if t.toString?.isSome then text t else object (textField "hex" t.toHex)

/-- The whole number of a value, without its fraction. -/
def asInt : Json → Int
  | int n => n
  | decimal m e =>
    if e < 0 then m / (Nat.pow 10 e.natAbs : Nat) else m * (Nat.pow 10 e.natAbs : Nat)
  | _ => 0

/-- The number of a value. -/
def asFloat : Json → Float
  | int n => ofDigits n 0
  | decimal m e => ofDigits m e
  | _ => 0
where
  ofDigits (m e : Int) : Float :=
    let x := Float.ofScientific m.natAbs (e < 0) e.natAbs
    if m < 0 then -x else x

/-- An object with fields. -/
def ofFields (fs : List (String × Json)) : Json :=
  object (fs.map fun (k, v) => (Text.ofString k, v))

/-- An object with a field replaced or added. -/
def set (j : Json) (key : Text) (v : Json) : Json :=
  if j.fields.any (·.1 == key) then
    object (j.fields.map fun f => if f.1 == key then (key, v) else f)
  else object (j.fields ++ [(key, v)])

/-- An object with a value at a path of keys. -/
def setAt (j : Json) (path : List Text) (v : Json) : Json :=
  match path with
  | [] => v
  | k :: ks => j.set k (setAt (j.get k) ks v)

/-- How deep a value is nested, at least one. -/
def depth : Json → Nat
  | array vs => itemsDepth vs + 1
  | object fs => fieldsDepth fs + 1
  | _ => 1
where
  itemsDepth : List Json → Nat
    | [] => 0
    | v :: vs => max (depth v) (itemsDepth vs)
  fieldsDepth : List (Text × Json) → Nat
    | [] => 0
    | (_, v) :: fs => max (depth v) (fieldsDepth fs)

/-! ## Values of other types -/

instance : Coe Text Json := ⟨ofText⟩
instance : Coe Int Json := ⟨int⟩
instance : Coe Nat Json := ⟨fun n => int n⟩
instance : Coe Bool Json := ⟨bool⟩
instance : Coe (List Json) Json := ⟨array⟩
instance : Coe (List Text) Json := ⟨fun ts => array (ts.map ofText)⟩
instance : Coe (List (String × Json)) Json := ⟨ofFields⟩
instance : Coe String Json := ⟨fun s => text s⟩

end MathMarkup.Json
