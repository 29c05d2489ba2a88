import MathMarkup.Watch.Debouncer
import MathMarkup.Watch.Watcher

/-!
# One source under watch

A source is written, events trigger the debouncer, timers expire and callbacks convert the source.
Several callbacks for the source may run beside each other, and each of them reads the source,
converts what it has read, puts the product in place and removes the file of the other kind at
moments of its own. `Scene.step?` gives the state after such a moment.
-/

namespace MathMarkup.Watch

/-- How far a callback has come. -/
inductive Stage where
  | begun
  | hasRead (text : Text)
  | hasConverted (p : Product)
  | hasPlaced (p : Product)
deriving DecidableEq, Repr

/-- A callback that runs: its timer and its stage. -/
structure Job where
  timer : Timer
  stage : Stage := .begun
deriving DecidableEq, Repr

/-- A source, what stands beside it, and the callbacks that work on it. -/
structure Scene where
  source : Text
  output : Option Text := none
  report : Option Text := none
  debouncer : Debouncer := {}
  jobs : List Job := []
  /-- Whether the source was written without an event since. -/
  unnoticed : Bool := false
deriving DecidableEq, Repr

namespace Scene

/-- The key under which the events of the source are debounced. -/
def key : Text := "source"

/-- A moment. -/
inductive Event where
  | write (text : Text)
  | notice
  | expire (t : Timer)
  | enter (t : Timer)
  /-- A callback takes its next step. -/
  | advance (t : Timer)
deriving DecidableEq, Repr

/-- A scene with a product in place. -/
def withProduct (s : Scene) (p : Product) : Scene :=
  if p.isReport then { s with report := some p.content } else { s with output := some p.content }

/-- A scene without the file of the other kind. -/
def withoutOther (s : Scene) (p : Product) : Scene :=
  if p.isReport then { s with output := none } else { s with report := none }

/-- A scene in which a callback has come to a stage. -/
def moveTo (s : Scene) (t : Timer) (stage : Stage) : Scene :=
  { s with jobs := s.jobs.map fun j => if j.timer = t then { j with stage } else j }

/-- The scene after a step of a callback; `convert` is what a text is converted to. -/
def advance (convert : Text → Product) (s : Scene) (j : Job) : Scene :=
  match j.stage with
  | .begun => s.moveTo j.timer (.hasRead s.source)
  | .hasRead text => s.moveTo j.timer (.hasConverted (convert text))
  | .hasConverted p => (s.withProduct p).moveTo j.timer (.hasPlaced p)
  | .hasPlaced p =>
    let s := s.withoutOther p
    { s with
      jobs := s.jobs.filter fun k => k.timer != j.timer
      debouncer := s.debouncer.run [.finish j.timer, .leave j.timer] }

/-- The scene after an event, if the event is possible. -/
def step? (convert : Text → Product) (s : Scene) : Event → Option Scene
  | .write text => some { s with source := text, unnoticed := true }
  | .notice => some { s with debouncer := s.debouncer.after (.trigger key), unnoticed := false }
  | .expire t => (s.debouncer.step? (.expire t)).map fun d => { s with debouncer := d }
  | .enter t =>
    (s.debouncer.step? (.enter t)).map fun d =>
      { s with
        debouncer := d
        jobs := if t ∈ d.running then s.jobs ++ [{ timer := t }] else s.jobs }
  | .advance t => (s.jobs.find? fun j => j.timer == t).map (s.advance convert)

/-- The scene after an event, or as it was if the event is not possible. -/
def after (convert : Text → Product) (s : Scene) (e : Event) : Scene := (s.step? convert e).getD s

/-- The scene after a schedule. -/
def run (convert : Text → Product) (s : Scene) (es : List Event) : Scene :=
  es.foldl (after convert) s

/-- Whether nothing more will happen to the scene: no event is owed, no timer is armed or waits for
the lock, and no callback runs. -/
def isQuiet (s : Scene) : Bool :=
  !s.unnoticed && s.debouncer.armed.isEmpty && s.debouncer.started.isEmpty && s.jobs.isEmpty

end Scene

end MathMarkup.Watch
