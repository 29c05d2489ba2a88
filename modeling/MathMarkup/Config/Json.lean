import MathMarkup.Config.Setting
import MathMarkup.Json.Access
import MathMarkup.Time.Duration

/-!
# Configurations as JSON

A configuration is written as nested objects, one level for each name on the way to a setting.
Settings can be changed by values given under their dotted paths.
-/

namespace MathMarkup.Config

/-- A fractional setting: its decimal digits as a string. -/
def numberJson (x : Float) : Json := Number.positional x

/-- The value of a setting. -/
def Slot.json (c : Config) : Slot → Json
  | .int get _ | .duration get _ => get c
  | .text get _ => get c
  | .flag get _ => get c
  | .switch get _ => (get c).elim .null .bool
  | .number get _ => numberJson (get c)
  | .texts get _ => get c
  | .numbers get _ => (get c).map numberJson

/-- A configuration as JSON. -/
def json (c : Config) : Json :=
  settings.foldl (fun j s => j.setAt s.path (s.slot.json c)) (.object [])

/-- A configuration with a setting changed; a duration is a text with units, or nanoseconds. -/
def Slot.put (c : Config) (slot : Slot) (v : Json) : Config :=
  match slot with
  | .int _ set => set c v.asInt
  | .duration _ set =>
    set c (match v with
      | .text t => (Time.Duration.read t).toOption.getD 0
      | _ => v.asInt)
  | .text _ set => set c v.asText
  | .flag _ set => set c v.isTrue
  | .switch _ set =>
    set c (match v with
      | .bool b => some b
      | _ => none)
  | .number _ set => set c v.asFloat
  | .texts _ set => set c (v.items.map Json.asText)
  | .numbers _ set => set c (v.items.map Json.asFloat)

/-- A configuration with settings changed that are given by their dotted paths. -/
def withSettings (c : Config) (changes : Json) : Config :=
  changes.fields.foldl (fun c (k, v) =>
    match settings.find? fun s => Text.join "." s.path == k with
    | some s => s.slot.put c v
    | none => c) c

end MathMarkup.Config
