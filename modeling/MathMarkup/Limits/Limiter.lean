import MathMarkup.Config.Basic
import MathMarkup.Limits.Slots
import MathMarkup.Limits.TokenBucket

/-!
# The limiter

Requests are limited by a rate for every client and by a bound on how many run at once over all
clients. The bucket of a client that has been idle until it was full again is forgotten.
-/

namespace MathMarkup.Limits

open Time (Instant Duration)

/-- Why a request was turned away. -/
inductive Refusal where
  | rate
  | concurrency
deriving DecidableEq, Repr

/-- The name of a refusal. -/
def Refusal.name : Refusal → Text
  | rate => "rate"
  | concurrency => "concurrency"

/-- What was decided about a request. -/
structure Decision where
  refusal : Option Refusal := none
  /-- How long the client had better wait. -/
  retryAfter : Duration := 0
  /-- Whether the request holds a slot. -/
  holdsSlot : Bool := false
deriving DecidableEq, Repr

namespace Decision

/-- Whether a request may run. -/
def allowed (d : Decision) : Bool := d.refusal.isNone

/-- A request that got a slot. -/
def granted : Decision := { holdsSlot := true }

/-- A request that found no slot free. -/
def crowded : Decision := { refusal := some .concurrency, retryAfter := Duration.seconds 1 }

/-- Gives the slot of a request back, if it still holds one. -/
def release (d : Decision) (s : Slots) : Decision × Slots :=
  if d.holdsSlot then ({ d with holdsSlot := false }, s.leave) else (d, s)

end Decision

/-- The state of a limiter. -/
structure Limiter where
  rate : Float
  burst : Int
  slots : Option Slots := none
  buckets : List (Text × TokenBucket) := []
  /-- When idle clients were last forgotten; nothing before the first client. -/
  swept : Option Instant := none

namespace Limiter

/-- How often idle clients are forgotten. -/
def sweepInterval : Duration := Duration.minutes 1

/-- The limiter of a configuration, if it asks for limits. -/
def ofConfig? (c : RateLimitConfig) : Option Limiter :=
  if !c.isEnabled then none
  else
    some
      { rate := c.requestsPerSecond
        burst := max 1 c.burst
        slots := if c.maxConcurrent > 0 then some { limit := c.maxConcurrent } else none }

/-- Forgets the clients whose buckets are full; the other buckets have been refilled. -/
def sweep (buckets : List (Text × TokenBucket)) (now : Instant) : List (Text × TokenBucket) :=
  buckets.filterMap fun (client, b) =>
    match b.isFull now with
    | (true, _) => none
    | (false, b) => some (client, b)

/-- Forgets idle clients if it is time to. -/
def sweepIfDue (l : Limiter) (now : Instant) : Limiter :=
  let swept := l.swept.getD now
  if now.sub swept ≥ sweepInterval then
    { l with buckets := sweep l.buckets now, swept := some now }
  else { l with swept := some swept }

/-- The limiter with the bucket of a client put back. -/
def putBucket (l : Limiter) (client : Text) (b : TokenBucket) : Limiter :=
  if l.buckets.any (·.1 == client) then
    { l with buckets := l.buckets.map fun (c, old) => if c == client then (c, b) else (c, old) }
  else { l with buckets := l.buckets ++ [(client, b)] }

/-- Asks the bucket of a client; a refusal comes with the time to wait. -/
def askRate (l : Limiter) (client : Text) (now : Instant) : Option Duration × Limiter :=
  if l.rate > 0 then
    let l := l.sweepIfDue now
    let bucket := (l.buckets.lookup client).getD (TokenBucket.full l.burst l.rate now)
    match bucket.take now with
    | (true, b) => (none, l.putBucket client b)
    | (false, b) =>
      let (wait, b) := b.untilAvailable now
      (some wait, l.putBucket client b)
  else (none, l)

/-- Asks for a slot, if slots are limited. -/
def askSlot (l : Limiter) : Decision × Limiter :=
  match l.slots with
  | none => ({}, l)
  | some s =>
    match s.acquire with
    | (true, s) => (.granted, { l with slots := some s })
    | (false, s) => (.crowded, { l with slots := some s })

/-- Decides about a request. -/
def allow (l : Limiter) (client : Text) (now : Instant) : Decision × Limiter :=
  match l.askRate client now with
  | (some wait, l) => ({ refusal := some .rate, retryAfter := wait }, l)
  | (none, l) => l.askSlot

/-- Ends a request: its slot is given back, once. -/
def release (l : Limiter) (d : Decision) : Decision × Limiter :=
  match l.slots with
  | none => (d, l)
  | some s =>
    let (d, s) := d.release s
    (d, { l with slots := some s })

/-- The number of clients that are tracked. -/
def clients (l : Limiter) : Nat := l.buckets.length

/-- The number of slots in use. -/
def inUse (l : Limiter) : Int := (l.slots.map Slots.current).getD 0

end Limiter

end MathMarkup.Limits
