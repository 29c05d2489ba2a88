import MathMarkup.Json.Value
import MathMarkup.Time.Instant

/-!
# Records

The history keeps one record of every conversion: where it came from, what went in and out, how it
ended and when.
-/

namespace MathMarkup.History

/-- What is kept of one conversion. -/
structure Record where
  id : Text := []
  requestId : Text := []
  origin : Text := []
  /-- The digest of the whole input. -/
  inputHash : Text := []
  input : Text := []
  cleaned : Text := []
  output : Text := []
  status : Text := []
  errorType : Text := []
  errorMessage : Text := []
  cleanPasses : Int := 0
  duration : Time.Duration := 0
  createdAt : Time.Stamp := Time.Stamp.zero
deriving DecidableEq, Repr, Inhabited

/-- The status of a conversion that succeeded. -/
def statusOk : Text := "ok"

/-- The status of a conversion that failed. -/
def statusError : Text := "error"

namespace Record

/-- Whether a record is one of a failure. -/
def failed (r : Record) : Bool := r.status == statusError

/-- A record as a JSON object; a success has no fields about an error. -/
def json (r : Record) : Json :=
  .object
    (Json.textField "id" r.id ++ Json.textField "request_id" r.requestId
      ++ Json.textField "origin" r.origin ++ Json.textField "input_hash" r.inputHash
      ++ Json.textField "input" r.input ++ Json.textField "cleaned" r.cleaned
      ++ Json.textField "output" r.output ++ Json.textField "status" r.status
      ++ Json.textUnlessEmpty "error_type" r.errorType
      ++ Json.textUnlessEmpty "error_message" r.errorMessage
      ++ Json.intField "clean_passes" r.cleanPasses ++ Json.intField "duration" r.duration
      ++ Json.textField "created_at" r.createdAt.text)

end Record

end MathMarkup.History
