import MathMarkup.Json.Value

/-!
# Requests and responses

What a client sends and what it gets back. The names of headers are compared without regard to the
case of letters.
-/

namespace MathMarkup.Http

/-- Named values in front of a body. -/
abbrev Headers := List (Text × Text)

namespace Headers

/-- A name as it is compared. -/
def folded (name : Text) : Text := name.map Text.lowerByte

/-- The first value of a header, empty if there is none. -/
def get (hs : Headers) (name : Text) : Text :=
  ((hs.find? fun h => folded h.1 == folded name).map Prod.snd).getD []

/-- Headers with one replaced, or added. -/
def set (hs : Headers) (name value : Text) : Headers :=
  hs.filter (fun h => folded h.1 != folded name) ++ [(name, value)]

end Headers

/-- What a client sends. -/
structure Request where
  method : Text
  /-- The path and the query as they were sent. -/
  target : Text
  headers : Headers := []
  body : Text := []
  /-- The address of the client. -/
  remote : Text := []

/-- What a client gets back. -/
structure Response where
  status : Nat
  headers : Headers := []
  body : Text := []

namespace Response

/-- A response with a header. -/
def withHeader (r : Response) (name value : Text) : Response :=
  { r with headers := r.headers.set name value }

/-- A response that is a JSON value on a line. -/
def json (status : Nat) (v : Json) : Response :=
  { status, headers := [("Content-Type", "application/json")], body := v.compact ++ "\n" }

/-- A response that is a line of text. -/
def plain (status : Nat) (t : Text) : Response :=
  { status, headers := [("Content-Type", "text/plain; charset=utf-8")], body := t ++ "\n" }

/-- A response without its body. -/
def withoutBody (r : Response) : Response := { r with body := [] }

end Response

end MathMarkup.Http
