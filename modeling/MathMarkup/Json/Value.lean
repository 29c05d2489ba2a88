import MathMarkup.Text.Quoted

/-!
# JSON values and how they are written

Answers, exports and log lines are JSON. Values are written compactly or over indented lines. In
strings the characters that matter to HTML and the two line separators are written as escapes, and a
byte that encodes nothing is written as the replacement character.
-/

namespace MathMarkup

/-- A JSON value; the fields of an object keep their order. -/
inductive Json where
  | null
  | bool (b : Bool)
  | int (n : Int)
  /-- A number that is written with a fraction or an exponent: digits and a power of ten. -/
  | decimal (digits : Int) (exponent : Int)
  | text (t : Text)
  | array (items : List Json)
  | object (fields : List (Text × Json))

namespace Json

instance : Inhabited Json := ⟨null⟩

/-! ## Strings -/

/-- The escape sequence of a control character, a quote or a backslash. -/
def escapeAscii (c : Char) : Text :=
  if c == '"' || c == '\\' then Text.byte '\\' :: Text.ofChar c
  else if c.toNat == 8 then "\\b"
  else if c.toNat == 12 then "\\f"
  else if c.toNat == 10 then "\\n"
  else if c.toNat == 13 then "\\r"
  else if c.toNat == 9 then "\\t"
  else "\\u" ++ Text.hexFixed 4 c.toNat

/-- Whether a character has to be escaped in every string. -/
def mustEscape (c : Char) : Bool := c.toNat < 0x20 || c == '"' || c == '\\'

/-- Whether a character is escaped because a page or a script may read it differently. -/
def isSensitive (c : Char) : Bool :=
  c == '<' || c == '>' || c == '&' || c.toNat == 0x2028 || c.toNat == 0x2029

/-- A character inside a string. -/
def charText (c : Char) : Text :=
  if mustEscape c then escapeAscii c
  else if isSensitive c then "\\u" ++ Text.hexFixed 4 c.toNat
  else Text.ofChar c

/-- A text as a JSON string. -/
def quoted (t : Text) : Text :=
  "\"" ++ (t.chars.flatMap charText) ++ "\""

/-! ## Compact form -/

/-- The words of the two truth values. -/
def boolText (b : Bool) : Text := if b then "true" else "false"

/-- Digits and a power of ten. -/
def decimalText (digits exponent : Int) : Text := Text.ofInt digits ++ "e" ++ Text.ofInt exponent

mutual

/-- A value on one line without blanks. -/
def compact : Json → Text
  | null => "null"
  | bool b => boolText b
  | int n => Text.ofInt n
  | decimal m e => decimalText m e
  | text t => quoted t
  | array items => "[" ++ compactItems items ++ "]"
  | object fields => "\x7b" ++ compactFields fields ++ "\x7d"

/-- The items of an array with commas between them. -/
def compactItems : List Json → Text
  | [] => []
  | [v] => compact v
  | v :: w :: rest => compact v ++ "," ++ compactItems (w :: rest)

/-- The fields of an object with commas between them. -/
def compactFields : List (Text × Json) → Text
  | [] => []
  | [(k, v)] => quoted k ++ ":" ++ compact v
  | (k, v) :: f :: rest => quoted k ++ ":" ++ compact v ++ "," ++ compactFields (f :: rest)

end

/-! ## Indented form -/

/-- A line break and the indentation of a level. -/
def lineBreak (level : Nat) : Text :=
  Text.byte '\n' :: List.replicate (2 * level) (Text.byte ' ')

mutual

/-- A value over several lines; `level` is how deep it stands. -/
def indentedAt (level : Nat) : Json → Text
  | null => "null"
  | bool b => boolText b
  | int n => Text.ofInt n
  | decimal m e => decimalText m e
  | text t => quoted t
  | array [] => "[]"
  | array (v :: vs) =>
    "[" ++ lineBreak (level + 1) ++ indentedItems (level + 1) (v :: vs) ++ lineBreak level ++ "]"
  | object [] => "\x7b\x7d"
  | object (f :: fs) =>
    "\x7b" ++ lineBreak (level + 1) ++ indentedFields (level + 1) (f :: fs) ++ lineBreak level
      ++ "\x7d"

/-- The items of an array, one under the other. -/
def indentedItems (level : Nat) : List Json → Text
  | [] => []
  | [v] => indentedAt level v
  | v :: w :: rest =>
    indentedAt level v ++ "," ++ lineBreak level ++ indentedItems level (w :: rest)

/-- The fields of an object, one under the other. -/
def indentedFields (level : Nat) : List (Text × Json) → Text
  | [] => []
  | [(k, v)] => quoted k ++ ": " ++ indentedAt level v
  | (k, v) :: f :: rest =>
    quoted k ++ ": " ++ indentedAt level v ++ "," ++ lineBreak level
      ++ indentedFields level (f :: rest)

end

/-- A value over several lines, indented by two spaces a level. -/
def indented (v : Json) : Text := indentedAt 0 v

/-! ## Building objects -/

/-- A field with a value. -/
def field (key : Text) (v : Json) : List (Text × Json) := [(key, v)]

/-- A field with a text. -/
def textField (key : Text) (t : Text) : List (Text × Json) := [(key, text t)]

/-- A field with a number. -/
def intField (key : Text) (n : Int) : List (Text × Json) := [(key, int n)]

/-- A field with a text, left out when the text is empty. -/
def textUnlessEmpty (key : Text) (t : Text) : List (Text × Json) :=
  if t.isEmpty then [] else [(key, text t)]

/-- A field with a number, left out when there is none. -/
def intIfAny (key : Text) (n : Option Int) : List (Text × Json) :=
  (n.map fun n => (key, int n)).toList

end Json

end MathMarkup
