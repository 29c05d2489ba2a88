import MathMarkup.Engine.Basic
import MathMarkup.Http.Message
import MathMarkup.Json.Access
import MathMarkup.Json.Reader

/-!
# Bodies of requests and answers

A request for a conversion is a JSON object with the input. Only so many bytes of it are read; a
value that is complete within them is taken, whatever follows.
-/

namespace MathMarkup.Server

/-! ## Requests -/

/-- Why the body of a request was refused. -/
inductive BodyFault where
  | tooLarge
  | invalid (detail : Text)
deriving DecidableEq, Repr

/-- Whether a value has no end of its own, so that what follows has to show where it ends: only
numbers do. -/
def isOpenEnded : Json → Bool
  | .int _ | .decimal _ _ => true
  | _ => false

/-- The input after one field of a request; the case of letters in names does not matter. -/
def readField (input : Text) (f : Text × Json) : Except BodyFault Text :=
  if f.1.map Text.lowerByte == Text.ofString "input" then
    match f.2 with
    | .text t => .ok t
    | .null => .ok input
    | _ => .error (.invalid "the input is no string")
  else .error (.invalid ("unknown field " ++ f.1.quote))

/-- The input that a value asks to convert. -/
def requestedInput : Json → Except BodyFault Text
  | .null => .ok []
  | .object fs => fs.foldlM readField []
  | _ => .error (.invalid "the body is no object")

/-- The input that a body asks to convert, of which at most `limit` bytes are read. -/
def readBody (limit : Int) (body : Text) : Except BodyFault Text :=
  let taken := body.take limit.toNat
  let cut := taken.length < body.length
  match Json.readFirst taken with
  | .ok (v, rest) =>
    if cut && rest.isEmpty && isOpenEnded v then .error .tooLarge else requestedInput v
  | .error .malformed => .error (.invalid "malformed value")
  | .error .incomplete => .error (if cut then .tooLarge else .invalid "unexpected end")

/-! ## Answers -/

open Http (Response)

/-- The answer to a request that failed. -/
def failed (status : Nat) (message type : Text) (position : Option Int) (requestId : Text) :
    Response :=
  .json status (.object (Json.textField "error" message ++ Json.textField "type" type
    ++ Json.intIfAny "position" position ++ Json.textUnlessEmpty "request_id" requestId))

/-- What is said where details are nobody's business. -/
def reticent : Text := "Error."

/-- The type of failures that are the server's own. -/
def internalType : Text := "internal"

/-- The answer after a fault of a handler: what it had begun to answer, and the failure after
that. -/
def recovered (begun : Option Response) (requestId : Text) : Response :=
  let f := failed 500 reticent internalType none requestId
  match begun with
  | none => f
  | some r => { r.withHeader "Content-Type" "application/json" with body := r.body ++ f.body }

/-- The answer to a body that was refused. -/
def bodyRefused (f : BodyFault) (requestId : Text) : Response :=
  match f with
  | .tooLarge => failed 413 "request body too large" "input_too_large" none requestId
  | .invalid detail => failed 400 ("invalid JSON body: " ++ detail) "invalid_request" none requestId

/-- The answer to a request whose conversion failed. -/
def conversionFailed (f : Fault) (requestId : Text) : Response :=
  match f.fromReport? with
  | some (.report category message position _ :: _) =>
    failed 422 message category (if position ≥ 0 then some position else none) requestId
  | _ =>
    if f.isTooLarge then failed 413 f.message f.typeName none requestId
    else failed 503 reticent f.typeName none requestId

/-- The answer to a conversion. -/
def converted (o : Engine.Outcome) : Response :=
  .json 200 (.object (Json.textField "output" o.output ++ Json.textField "request_id" o.requestId))

/-- The answer to a cleaning. -/
def cleaned (o : Engine.Outcome) : Response :=
  .json 200 (.object (Json.textField "cleaned" o.cleaned ++ Json.intField "clean_passes" o.passes
    ++ Json.textField "request_id" o.requestId))

end MathMarkup.Server
