import MathMarkup.Failure.Fault
import MathMarkup.Net.Address
import MathMarkup.Number.Integer

/-!
# Starting and stopping

A server listens at an address and serves until it is shut down. Shutting down happens once: a
server that was shut down before it was started cannot be shut down again, and goes on running.
-/

namespace MathMarkup.Server

/-- The largest number of a service. -/
def largestService : Int := 65535

/-- What is wrong with the service of an address to listen at; none leaves the choice. -/
def serviceFault? (service : Text) : Option Text :=
  if service.isEmpty then none
  else
    match Number.readDecimal service with
    | .ok n =>
      if 0 ≤ n && n ≤ largestService then none
      else some ("address " ++ Text.ofInt n ++ ": invalid port")
    | .error _ => some ("lookup tcp/" ++ service ++ ": unknown port")

/-- The fault of listening at an address, if it cannot be listened at. -/
def listenFault? (address : Text) : Option Fault :=
  let detail : Option Text := match Net.splitAddress address with
    | .error e => some ("address " ++ address ++ ": " ++ e.message)
    | .ok a => serviceFault? a.service
  detail.map fun d => [.note "listen tcp", .plain d]

/-- What is known of a server from outside. -/
structure Lifecycle where
  running : Bool := false
  /-- Whether it has an address. -/
  bound : Bool := false
  /-- Whether shutting down has been asked for. -/
  wasShutDown : Bool := false
deriving DecidableEq, Repr

namespace Lifecycle

/-- Starts a server at an address. -/
def start (l : Lifecycle) (address : Text) : Except Fault Lifecycle :=
  match listenFault? address with
  | some f => .error (.note ("listen on " ++ address) :: f)
  | none =>
    if l.running then .error [.plain "server is already running"]
    else .ok { l with running := true, bound := true }

/-- Shuts a server down, once. -/
def shutDown (l : Lifecycle) : Lifecycle :=
  if l.wasShutDown then l else { l with running := false, wasShutDown := true }

end Lifecycle

end MathMarkup.Server
