import MathMarkup.Text.Basic

/-!
# The debouncer

A file that is being written gives rise to many events. A debouncer waits until the events for a key
have stopped for a while and calls back once. Every trigger arms a timer for its key and disarms the
timer that waits there; a timer that cannot be disarmed any more finds, when it gets the lock, that
it is no longer the one for its key, and gives up. Stopping disarms all timers and waits for the
functions that have been started: each of them counts itself out when it has done its work or given
up.

Timers expire and functions run beside each other. `Debouncer.step?` gives the state after one of
the moments at which something changes, or nothing if it is not possible; a schedule is a list of
them.
-/

namespace MathMarkup.Watch

/-- A timer: its number and the key it was armed for. -/
structure Timer where
  number : Nat
  key : Text
deriving DecidableEq, Repr

/-- The state of a debouncer. -/
structure Debouncer where
  /-- The timer that counts for each key, in the order in which they were armed. -/
  current : List Timer := []
  /-- Timers that have not expired and have not been disarmed. -/
  armed : List Timer := []
  /-- Timers that have expired and whose functions wait for the lock. -/
  started : List Timer := []
  /-- Timers whose callbacks run. -/
  running : List Timer := []
  /-- Timers whose functions have given up or are done, and have still to count themselves out. -/
  leaving : List Timer := []
  stopped : Bool := false
  /-- Whether the caller that stopped the debouncer has gone on. -/
  resumed : Bool := false
  /-- How many functions stopping waits for. -/
  awaited : Int := 0
  /-- How many timers have been armed. -/
  count : Nat := 0
  /-- The timers whose callbacks have been called, in order. -/
  called : List Timer := []
deriving DecidableEq, Repr

namespace Debouncer

/-- A moment in the life of a debouncer. -/
inductive Event where
  /-- Something happened to a key. -/
  | trigger (key : Text)
  /-- A timer expires. -/
  | expire (t : Timer)
  /-- The function of an expired timer gets the lock. -/
  | enter (t : Timer)
  /-- A callback returns. -/
  | finish (t : Timer)
  /-- The function of a timer counts itself out. -/
  | leave (t : Timer)
  /-- Someone stops the debouncer. -/
  | stop
  /-- The caller that stopped the debouncer has waited for all functions and goes on. -/
  | resume
deriving DecidableEq, Repr

/-- The timer that counts for a key. -/
def timerFor? (d : Debouncer) (key : Text) : Option Timer := d.current.find? (·.key == key)

/-- A debouncer after an attempt to disarm a timer, which succeeds only before it has expired. -/
def disarm (d : Debouncer) (t : Timer) : Debouncer :=
  if t ∈ d.armed then { d with armed := d.armed.erase t, awaited := d.awaited - 1 } else d

/-- A debouncer with a new timer for a key. -/
def arm (d : Debouncer) (key : Text) : Debouncer :=
  let t : Timer := ⟨d.count, key⟩
  { d with
    current := d.current.filter (·.key != key) ++ [t]
    armed := d.armed ++ [t]
    awaited := d.awaited + 1
    count := d.count + 1 }

/-- Whether stopping has nothing more to wait for. -/
def isSettled (d : Debouncer) : Bool := d.stopped && d.awaited == 0

/-- The debouncer after an event, if the event is possible. -/
def step? (d : Debouncer) : Event → Option Debouncer
  | .trigger key =>
    if d.stopped then some d
    else
      match d.timerFor? key with
      | some t => some ((d.disarm t).arm key)
      | none => some (d.arm key)
  | .expire t =>
    if t ∈ d.armed then some { d with armed := d.armed.erase t, started := d.started ++ [t] }
    else none
  | .enter t =>
    if t ∈ d.started then
      let d := { d with started := d.started.erase t }
      if d.stopped || d.timerFor? t.key != some t then some { d with leaving := d.leaving ++ [t] }
      else
        some { d with
          current := d.current.filter (·.key != t.key)
          running := d.running ++ [t]
          called := d.called ++ [t] }
    else none
  | .finish t =>
    if t ∈ d.running then
      some { d with running := d.running.erase t, leaving := d.leaving ++ [t] }
    else none
  | .leave t =>
    if t ∈ d.leaving then
      some { d with leaving := d.leaving.erase t, awaited := d.awaited - 1 }
    else none
  | .stop =>
    if d.stopped then some d
    else some { d.current.foldl disarm { d with stopped := true } with current := [] }
  | .resume => if d.isSettled then some { d with resumed := true } else none

/-- The debouncer after an event, or as it was if the event is not possible. -/
def after (d : Debouncer) (e : Event) : Debouncer := (d.step? e).getD d

/-- The debouncer after a schedule. -/
def run (d : Debouncer) (es : List Event) : Debouncer := es.foldl after d

/-- How many keys wait. -/
def pending (d : Debouncer) : Nat := d.current.length

/-- Lets all timers expire, and their callbacks run to the end. -/
def settle (d : Debouncer) : Debouncer :=
  d.run (d.armed.flatMap fun t => [.expire t, .enter t, .finish t, .leave t])

end Debouncer

end MathMarkup.Watch
