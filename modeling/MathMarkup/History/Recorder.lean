import MathMarkup.History.Field
import MathMarkup.History.Storage
import MathMarkup.Telemetry.Measurement

/-!
# The recorder

Conversions must not wait for the store. A recorder takes records into a queue of bounded length and
a writer hands them to the store one after the other. Many callers offer records at once: each holds
a shared lock while it waits for room, and closing takes the lock for itself, so that nothing is
offered after that. Closing lets the writer finish what is queued.

The recorder is a machine whose steps are the moments at which one of the parties does something
that the others can see. `Recorder.step?` gives the state after a step, or nothing if the step is
not possible. Every schedule of the parties is a list of steps.
-/

namespace MathMarkup.History

open Telemetry (Measurement WriteResult)

/-- Why an offer was given up. -/
inductive GiveUp where
  /-- The queue stayed full for too long. -/
  | deadline
  /-- The caller was cancelled. -/
  | cancelled
deriving DecidableEq, Repr

/-- The fault of an offer that was given up. -/
def GiveUp.fault : GiveUp → Fault
  | deadline => [.deadline]
  | cancelled => [.cancelled]

/-- A recorder over a store whose state is `σ`. -/
structure Recorder (σ : Type) where
  /-- How many records the queue holds. -/
  capacity : Nat
  state : σ
  /-- The records offered by callers that hold the shared lock. -/
  offered : List Record := []
  queue : List Record := []
  /-- The record that the writer has taken from the queue. -/
  inHand : Option Record := none
  /-- All records that went into the queue, in order. -/
  accepted : List Record := []
  /-- All records that were handed to the store, in order. -/
  handed : List Record := []
  /-- Records of callers that were turned away, or gave up. -/
  refused : List Record := []
  closed : Bool := false
  /-- Whether the writer has noticed that the recorder is closed, and only finishes what is
  queued. -/
  draining : Bool := false
  /-- Whether the writer has ended. -/
  stopped : Bool := false
  measured : List Measurement := []

namespace Recorder

variable {σ : Type}

/-- The name of the component in log lines. -/
def componentName : Text := "history.recorder"

/-- A moment in the life of a recorder. -/
inductive Event where
  /-- A caller takes the shared lock and offers a record, unless the recorder is closed. -/
  | offer (r : Record)
  /-- The offered record at a place goes into the queue. -/
  | accept (place : Nat)
  /-- The caller of the offered record at a place gives up. -/
  | giveUp (place : Nat) (why : GiveUp)
  /-- The writer takes the next record. -/
  | take
  /-- The writer hands the record it holds to the store. -/
  | hand
  /-- A caller that closes the recorder holds the lock. -/
  | close
  /-- The writer, between two records, notices that the recorder is closed. -/
  | notice
  /-- The writer ends, since it has noticed the end and nothing is queued. -/
  | stop
deriving DecidableEq, Repr

/-- A recorder with a note of a result. -/
def measure (x : Recorder σ) (m : Measurement) : Recorder σ :=
  { x with measured := x.measured ++ [m] }

/-- Whether a record can go into the queue: there is room, or the queue has no room at all and the
writer waits for the record. -/
def hasRoom (x : Recorder σ) : Bool :=
  x.queue.length < x.capacity || (x.queue.isEmpty && x.inHand.isNone && !x.stopped)

/-- The recorder after a record was handed to the store. A record that cannot be stored is lost. -/
def handOver (st : Storage σ) (x : Recorder σ) (r : Record) : Recorder σ :=
  let x : Recorder σ := { x with inHand := none, handed := x.handed ++ [r] }
  let x := x.measure (.queueDepth x.queue.length)
  match st.store x.state r with
  | .ok s => { x with state := s }.measure (.historyWrite .ok)
  | .error _ => x.measure (.historyWrite .error)

/-- The recorder after an event, if the event is possible. -/
def step? (st : Storage σ) (x : Recorder σ) : Event → Option (Recorder σ)
  | .offer r =>
    if x.closed then some ({ x with refused := x.refused ++ [r] }.measure (.historyWrite .dropped))
    else some { x with offered := x.offered ++ [r] }
  | .accept place =>
    match x.offered[place]? with
    | some r =>
      if x.hasRoom then
        let x : Recorder σ :=
          { x with
            offered := x.offered.eraseIdx place
            queue := x.queue ++ [r]
            accepted := x.accepted ++ [r] }
        some (x.measure (.queueDepth x.queue.length))
      else none
    | none => none
  | .giveUp place _ =>
    match x.offered[place]? with
    | some r =>
      some ({ x with offered := x.offered.eraseIdx place, refused := x.refused ++ [r] }.measure
        (.historyWrite .dropped))
    | none => none
  | .take =>
    match x.inHand, x.queue with
    | none, r :: rest => if x.stopped then none else some { x with inHand := some r, queue := rest }
    | _, _ => none
  | .hand =>
    match x.inHand with
    | some r => some (x.handOver st r)
    | none => none
  | .close =>
    if x.closed then some x
    else if x.offered.isEmpty then some { x with closed := true }
    else none
  | .notice =>
    if x.closed && !x.draining && x.inHand.isNone then some { x with draining := true } else none
  | .stop =>
    if x.draining && !x.stopped && x.inHand.isNone && x.queue.isEmpty then
      some ({ x with stopped := true }.measure (.queueDepth 0))
    else none

/-- The recorder after a step, or as it was if the step is not possible. -/
def after (st : Storage σ) (x : Recorder σ) (e : Event) : Recorder σ := (x.step? st e).getD x

/-- The recorder after a schedule. -/
def run (st : Storage σ) (x : Recorder σ) (es : List Event) : Recorder σ := es.foldl (after st) x

/-! ## What callers do -/

/-- Completes a record: an identifier and a time where they are missing, the status, the digest of
the input, and texts cut to the limit. -/
def prepare (limit : Int) (fresh : Text) (now : Time.Stamp) (r : Record) : Record :=
  let status :=
    if !r.status.isEmpty then r.status
    else if r.errorType.isEmpty then statusOk
    else statusError
  { r with
    id := if r.id.isEmpty then fresh else r.id
    createdAt := if r.createdAt.isZero then now else r.createdAt
    status := status
    inputHash := if r.inputHash.isEmpty then digest r.input else r.inputHash
    input := shorten r.input limit
    cleaned := shorten r.cleaned limit
    output := shorten r.output limit
    errorMessage := shorten r.errorMessage limit }

/-- Offers a completed record and waits until it is queued or given up for the reason `why`. -/
def record (st : Storage σ) (x : Recorder σ) (r : Record) (why : GiveUp) :
    Recorder σ × Except Fault Unit :=
  let offered := x.after st (.offer r)
  if x.closed then (offered, .error [.recorder r.id, .recorderClosed])
  else
    let place := offered.offered.length - 1
    match offered.step? st (.accept place) with
    | some y => (y, .ok ())
    | none => (offered.after st (.giveUp place why), .error (.recorder r.id :: why.fault))

/-- The writer takes records and hands them over until nothing is left, at most `n` of them. -/
def drainUpTo (st : Storage σ) : Nat → Recorder σ → Recorder σ
  | 0, x => x
  | n + 1, x => drainUpTo st n (run st x [.take, .hand])

/-- The writer hands over everything that is queued. -/
def drain (st : Storage σ) (x : Recorder σ) : Recorder σ :=
  let x := x.after st .hand
  drainUpTo st x.queue.length x

/-- Closes a recorder and waits for the writer. -/
def shutDown (st : Storage σ) (x : Recorder σ) : Recorder σ :=
  run st ((x.after st .close).drain st) [.notice, .stop]

end Recorder

end MathMarkup.History
