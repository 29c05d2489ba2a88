import MathMarkup.Limits.Limiter

/-!
# Contention for slots

Many requests ask for slots at once, and nothing keeps them apart but the counter. A request counts
itself in and, if no slot was free, counts itself out at a later moment; until then the others see
it counted. The decision about a request belongs to the request, which may release it again and
again. `Contention.step?` gives the state after a moment at which the counter changes or a decision
is released.
-/

namespace MathMarkup.Limits

/-- How far a request for a slot has come. -/
inductive Attempt where
  /-- It has counted itself in and found no slot free, and has still to count itself out. -/
  | turnedAway
  | decided (d : Decision)
deriving DecidableEq, Repr

namespace Attempt

/-- Whether a request has still to count itself out. -/
def isPending : Attempt → Bool
  | turnedAway => true
  | decided _ => false

/-- Whether a request holds a slot: it got one and has not given it back. -/
def holds : Attempt → Bool
  | turnedAway => false
  | decided d => d.holdsSlot

/-- Whether a request was let in. -/
def isAdmitted : Attempt → Bool
  | turnedAway => false
  | decided d => d.allowed

end Attempt

/-- Slots, and the requests for them in the order in which they counted themselves in. -/
structure Contention where
  slots : Slots
  attempts : List Attempt := []
deriving DecidableEq, Repr

namespace Contention

/-- A moment. -/
inductive Event where
  /-- A request counts itself in. -/
  | enter
  /-- The request at a place counts itself out. -/
  | undo (place : Nat)
  /-- The decision about the request at a place is released. -/
  | release (place : Nat)
deriving DecidableEq, Repr

/-- The state after an event, if the event is possible. -/
def step? (x : Contention) : Event → Option Contention
  | .enter =>
    match x.slots.enter with
    | (true, s) => some ⟨s, x.attempts ++ [.decided .granted]⟩
    | (false, s) => some ⟨s, x.attempts ++ [.turnedAway]⟩
  | .undo place =>
    match x.attempts[place]? with
    | some .turnedAway => some ⟨x.slots.undo, x.attempts.set place (.decided .crowded)⟩
    | _ => none
  | .release place =>
    match x.attempts[place]? with
    | some (.decided d) =>
      let (d, s) := d.release x.slots
      some ⟨s, x.attempts.set place (.decided d)⟩
    | _ => none

/-- The state after an event, or as it was if the event is not possible. -/
def after (x : Contention) (e : Event) : Contention := (x.step? e).getD x

/-- The state after a schedule. -/
def run (x : Contention) (es : List Event) : Contention := es.foldl after x

/-- How many requests hold a slot. -/
def holders (x : Contention) : Nat := x.attempts.countP Attempt.holds

/-- How many requests have still to count themselves out. -/
def pending (x : Contention) : Nat := x.attempts.countP Attempt.isPending

/-- How many requests were let in. -/
def admitted (x : Contention) : Nat := x.attempts.countP Attempt.isAdmitted

end Contention

end MathMarkup.Limits
