import MathMarkup.Json.Access
import MathMarkup.Tree.Basic

/-!
# Trees as JSON

A node is an object with its kind, its span and what it holds; a node that is missing is `null`. On
reading, a node may be marked as missing though its kind is given, and the children of functions and
expressions may stand under either of two keys.
-/

namespace MathMarkup

/-- A span as JSON: its two ends. -/
def Span.json (s : Span) : Json := .array [.int s.start, .int s.stop]

/-- Reads a span; anything else than two ends is the empty span at the start. -/
def Span.ofJson (j : Json) : Span :=
  match j with
  | .array [a, b] => ⟨a.asInt, b.asInt⟩
  | _ => ⟨0, 0⟩

namespace Node

/-- A node as JSON, from its kind, its span and further fields. -/
def jsonWith (kind : NodeKind) (s : Span) (more : List (String × Json)) : Json :=
  Json.ofFields (("kind", kind.name) :: ("span", s.json) :: more)

mutual

/-- A node as JSON. -/
def json : Node → Json
  | absent _ => .null
  | root es s => jsonWith .root s [("expressions", jsonItems es)]
  | expression w ns s => jsonWith .expression s [("bracket", w.name), ("nodes", jsonItems ns)]
  | function f as e s =>
    jsonWith .function s ([("name", (f.name : Json)), ("args", jsonItems as)] ++ jsonPower e)
  | unit cs s =>
    jsonWith .calcunit s [("text", unitText cs),
      ("chars", .array (cs.map fun c => .array [.int c.code, .int c.span.start, .int c.span.stop]))]
  | char c => jsonWith .char c.span [("value", c.code)]
  | environment t es s =>
    jsonWith .environment s [("env_type", t.name), ("expressions", jsonItems es)]

/-- Nodes as JSON. -/
def jsonItems : List Node → List Json
  | [] => []
  | n :: ns => json n :: jsonItems ns

/-- The field of an exponent. -/
def jsonPower : Option Node → List (String × Json)
  | none => []
  | some n => [("exponent", json n)]

end

/-- The node in a place where only expressions may stand. -/
def asExpression : Node → Node
  | expression w ns s => expression w ns s
  | _ => absent (some .expression)

/-- Reads a node; `fuel` is at least how deep the value is nested. -/
def ofJsonWithin : Nat → Json → Node
  | 0, _ => absent none
  | fuel + 1, j =>
    match NodeKind.ofName? (j.get "kind").asText with
    | none => absent none
    | some k =>
      if (j.get "nil").isTrue then absent (some k)
      else
        let s := Span.ofJson (j.get "span")
        let children := ((j.get "nodes").items ++ (j.get "args").items).map (ofJsonWithin fuel)
        let es := (j.get "expressions").items.map fun e => asExpression (ofJsonWithin fuel e)
        match k with
        | .root => root es s
        | .expression => expression (Wrapping.ofName (j.get "bracket").asText) children s
        | .function =>
          let power := match ofJsonWithin fuel (j.get "exponent") with
            | absent none => none
            | n => some n
          function (FunctionName.ofName (j.get "name").asText) children power s
        | .calcunit => unitOfText (j.get "text").asText s
        | .char => char ⟨(j.get "value").asInt, s⟩
        | .environment => environment (EnvironmentType.ofName (j.get "env_type").asText) es s

/-- Reads a node. -/
def ofJson (j : Json) : Node := ofJsonWithin j.depth j

/-- A node, unless it is missing without even a kind. -/
def present? : Node → Option Node
  | absent none => none
  | n => some n

end Node

end MathMarkup
