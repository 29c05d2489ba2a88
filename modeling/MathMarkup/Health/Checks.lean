import MathMarkup.Http.Message
import MathMarkup.Time.Instant

/-!
# Health

A server is alive as long as it answers, and ready if all checks of its parts succeed in time. Both
states, and what is running, can be asked for.
-/

namespace MathMarkup.Health

/-- How a check of a part behaves. -/
inductive Probe where
  | passes
  | fails (message : Text)
  /-- It does not come back in time. -/
  | hangs
deriving DecidableEq, Repr

/-- The result of a check. -/
structure Result where
  status : Text
  message : Text := []
deriving DecidableEq, Repr

/-- Whether a result is that of a part that does not work. -/
def Result.isUnhealthy (r : Result) : Bool := r.status == Text.ofString "unhealthy"

/-- The result of a probe. -/
def Probe.result : Probe → Result
  | passes => ⟨"ok", []⟩
  | fails message => ⟨"unhealthy", message⟩
  | hangs => ⟨"unhealthy", "health check timeout"⟩

/-- The checks of the parts, sorted by their names. -/
abbrev Checks := List (Text × Probe)

namespace Checks

/-- Checks with one more, which takes the place of an earlier one of its name. -/
def register (cs : Checks) (name : Text) (p : Probe) : Checks :=
  ((cs.filter fun c => c.1 != name) ++ [(name, p)]).mergeSort fun a b => a.1 ≤ b.1

/-- The results of all checks. -/
def results (cs : Checks) : List (Text × Result) := cs.map fun (n, p) => (n, p.result)

/-- Whether all checks succeed. -/
def isReady (cs : Checks) : Bool := cs.results.all fun r => !r.2.isUnhealthy

/-- The word for the state of the whole. -/
def status (cs : Checks) : Text := if cs.isReady then "ready" else "degraded"

end Checks

/-- The word for being alive. -/
def aliveStatus : Text := "ok"

/-- What is running. -/
structure Build where
  version : Text
  commit : Text
  /-- The tool it was built with. -/
  compiler : Text

/-- The result of a check as JSON. -/
def Result.json (r : Result) (took : Time.Duration) : Json :=
  .object (Json.textField "status" r.status ++ Json.textUnlessEmpty "message" r.message
    ++ Json.intIfAny "duration_ns" (if took == (0 : Int) then none else some took))

/-- A state as JSON; without checks there is no word of them. -/
def stateJson (status : Text) (results : List (Text × Json)) (now : Time.Stamp) : Json :=
  .object (Json.textField "status" status
    ++ (if results.isEmpty then [] else Json.field "checks" (.object results))
    ++ Json.textField "timestamp" now.text)

/-- The questions about health. -/
inductive Question where
  | liveness
  | readiness
  | version
deriving DecidableEq, Repr

/-- Answers a question; only reading is allowed, and asking about it gets no body. -/
def answer (cs : Checks) (b : Build) (now : Time.Stamp) (took : Time.Duration) (method : Text)
    (q : Question) : Http.Response :=
  let r := match q with
    | .liveness => Http.Response.json 200 (stateJson aliveStatus [] now)
    | .readiness =>
      .json (if cs.isReady then 200 else 503)
        (stateJson cs.status (cs.results.map fun (n, x) => (n, x.json took)) now)
    | .version =>
      .json 200 (.object (Json.textField "version" b.version ++ Json.textField "commit" b.commit
        ++ Json.textField "go_version" b.compiler))
  if method == Text.ofString "GET" then r
  else if method == Text.ofString "HEAD" then r.withoutBody
  else .plain 405 "Method not allowed"

end MathMarkup.Health
