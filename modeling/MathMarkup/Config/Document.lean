import MathMarkup.Config.Setting
import MathMarkup.Number.Fraction
import MathMarkup.Text.Base64
import MathMarkup.Time.Schedule
import MathMarkup.Yaml.Reader
import MathMarkup.Yaml.Timestamp

/-!
# Configuration files

A configuration file is a YAML document of sections and settings. A name that is none, a name given
twice and a value of another type are refused. What the file leaves out keeps its default. A section
can merge the pairs of other mappings: its own pairs count first, and then those of the mappings in
their order.
-/

namespace MathMarkup.Config

/-- Whether a plain scalar looks like a fraction: digits, a point, an exponent. -/
def looksNumeric (t : Text) : Bool :=
  (Number.FractionBase.decimal.read? (Number.splitSign t).2).isSome

/-- The names of infinity. -/
def infinities : List Text := Text.ofStrings [".inf", ".Inf", ".INF"]

/-- A whole number, up to the unsigned numbers of 64 bits. -/
def wholeOf? (t : Text) : Option Int :=
  match Number.readAnyBase t with
  | .ok n => some n
  | .error .malformed => none
  | .error .outOfRange =>
    let (base, body) := Number.baseOf t
    (Number.readDigits base false 0 body).toOption.map Int.ofNat

/-- What a plain scalar that starts like a number stands for; `digits` is the scalar without
underscores. -/
def resolveDigits (t digits : Text) : Scalar :=
  match wholeOf? digits with
  | some n => .int n
  | none =>
    if looksNumeric digits then
      match Number.readFloat digits with
      | .ok x => .number x
      | .error _ => .string t
    else .string t

/-- What a plain scalar stands for. -/
def resolvePlain (t : Text) : Scalar :=
  if (Text.ofStrings ["", "~", "null", "Null", "NULL"]).contains t then .null
  else if (Text.ofStrings ["true", "True", "TRUE"]).contains t then .bool true
  else if (Text.ofStrings ["false", "False", "FALSE"]).contains t then .bool false
  else if (Text.ofStrings [".nan", ".NaN", ".NAN"]).contains t then .number (0.0 / 0.0)
  else if infinities.contains t
      || (t.head? == some (Text.byte '+') && infinities.contains t.tail) then
    .number (1.0 / 0.0)
  else if t.head? == some (Text.byte '-') && infinities.contains t.tail then .number (-(1.0 / 0.0))
  else
    if t.head?.any fun b => Text.isDigit b || b == Text.byte '+' || b == Text.byte '-' then
      resolveDigits t (t.filter (· != Text.byte '_'))
    else if t.head? == some (Text.byte '.') then
      match Number.readFloat t with
      | .ok x => .number x
      | .error _ => .string t
    else .string t

/-- What a scalar stands for if its tag says of which type it is: it has to read as one of that
type. A whole number is a fraction too, if it fits into 64 bits. -/
def resolveAs? (tag t : Text) : Option Scalar :=
  match resolvePlain t with
  | .null => if tag == Text.ofString "!!null" then some .null else none
  | .bool b => if tag == Text.ofString "!!bool" then some (.bool b) else none
  | .number x => if tag == Text.ofString "!!float" then some (.number x) else none
  | .int n =>
    if tag == Text.ofString "!!int" then some (.int n)
    else if tag == Text.ofString "!!float" && n ≤ Number.maxInt then some (.number (Float.ofInt n))
    else none
  | .string _ => none

/-- The tags of the types that a scalar has to read as. -/
def typeTags : List Text := Text.ofStrings ["!!null", "!!bool", "!!int", "!!float"]

/-- The text of a scalar and what it stands for. A scalar without a tag is a string unless it is
plain. A tag that is not known leaves a string as it is. -/
def resolve? (tag : Text) (plain : Bool) (t : Text) : Option (Text × Scalar) :=
  if tag.isEmpty then some (t, if plain then resolvePlain t else .string t)
  else if typeTags.contains tag then (resolveAs? tag t).map (t, ·)
  else if tag == Text.ofString "!!timestamp" then
    if Yaml.isTimestamp t then some (t, .string t) else none
  else if tag == Text.ofString "!!binary" then
    (Text.ofBase64? t).map fun bytes => (bytes, .string bytes)
  else some (t, .string t)

/-- An item of a sequence of scalars. -/
def itemOf? : Yaml → Option (Text × Scalar)
  | .scalar tag plain t => resolve? tag plain t
  | .reference _ v => itemOf? v
  | _ => none

/-- The name that a key gives, or no name if the key is null. -/
def nameOf? (k : Yaml) : Option (Option Text) :=
  (itemOf? k).map fun
    | (_, .null) => none
    | (name, _) => some name

/-- Whether no key stands twice in a mapping. -/
def distinct : List Yaml.Label → Bool
  | [] => true
  | k :: ks => !ks.contains k && distinct ks

/-- Whether a path is that of a section. -/
def isSection (path : List Text) : Bool :=
  settings.all (·.path != path) && settings.any fun s => path.isPrefixOf s.path

/-- The configuration with the setting at a path changed to a value. -/
def putSetting? (path : List Text) (c : Config) (v : Value) : Option Config :=
  (settings.find? (·.path == path)).bind fun s => s.slot.put? c v

mutual

/-- The configuration with the node at a path put in. A section that is null changes nothing. -/
def putNode (path : List Text) (c : Config) : Yaml → Option Config
  | .scalar tag plain t =>
    match resolve? tag plain t with
    | none => none
    | some (text, s) =>
      if isSection path then
        match s with
        | .null => some c
        | _ => none
      else putSetting? path c (.one text s)
  | .sequence items => (items.mapM itemOf?).bind fun items => putSetting? path c (.many items)
  | .mapping pairs =>
    if !isSection path || !distinct (pairs.map (·.1.label)) then none
    else
      match putPairs path false [] c pairs with
      | none => none
      | some (seen, c) => (putMerged path seen c pairs).map (·.2)
  | .reference _ v => putNode path c v
  | .cycle _ => none

/-- The configuration with the pairs of a section put in, and the names that have been given: those
of `seen` and those of the pairs. The section stands at `path`. A name given before is refused, or
passed over if the pairs are merged into others. A pair without a name is passed over. -/
def putPairs (path : List Text) (merging : Bool) (seen : List Text) (c : Config) :
    List (Yaml × Yaml) → Option (List Text × Config)
  | [] => some (seen, c)
  | (k, v) :: rest =>
    if k.isMergeKey then putPairs path merging seen c rest
    else
      match nameOf? k with
      | none => none
      | some none => putPairs path merging seen c rest
      | some (some name) =>
        if seen.contains name then
          if merging then putPairs path merging seen c rest else none
        else
          match putNode (path ++ [name]) c v with
          | none => none
          | some c => putPairs path merging (name :: seen) c rest

/-- The configuration with the pairs put in that the pairs of a section merge from elsewhere. -/
def putMerged (path : List Text) (seen : List Text) (c : Config) :
    List (Yaml × Yaml) → Option (List Text × Config)
  | [] => some (seen, c)
  | (k, v) :: rest =>
    if !k.isMergeKey then putMerged path seen c rest
    else
      match v with
      | .sequence sources => putSources path seen c sources
      | source => putSource path seen c source

/-- The configuration with the pairs of a mapping merged into a section. Names in `seen` have been
given already and keep their values. -/
def putSource (path : List Text) (seen : List Text) (c : Config) :
    Yaml → Option (List Text × Config)
  | .mapping pairs =>
    if !distinct (pairs.map (·.1.label)) then none
    else
      match putPairs path true seen c pairs with
      | none => none
      | some (seen, c) => putMerged path seen c pairs
  | .reference _ v => putSource path seen c v
  | _ => none

/-- The configuration with the pairs of several mappings merged into a section, the first of them
first. -/
def putSources (path : List Text) (seen : List Text) (c : Config) :
    List Yaml → Option (List Text × Config)
  | [] => some (seen, c)
  | source :: rest =>
    match putSource path seen c source with
    | none => none
    | some (seen, c) => putSources path seen c rest

end

/-- What a document says about settings; an empty one says nothing. -/
def readDocument : DocumentReader := fun t =>
  match (Yaml.read? t).bind fun document => document.elim (some {}) (putNode [] {}) with
  | some c => .ok c
  | none => .error "not a configuration document"

/-- The formats in use. -/
def Formats.inUse : Formats := ⟨readDocument, Time.Schedule.check⟩

end MathMarkup.Config
