/-!
# Slots

A bound on how many requests run at once. The slots in use are a counter that many callers change
without a lock: a caller that wants a slot first counts itself in, and if that takes the counter
over the limit it counts itself out again. `Slots.enter`, `Slots.undo` and `Slots.leave` are the
moments at which the counter changes.
-/

namespace MathMarkup.Limits

/-- A counter of slots in use. -/
structure Slots where
  limit : Int
  current : Int := 0
deriving DecidableEq, Repr

namespace Slots

/-- A caller counts itself in and learns whether a slot was free. -/
def enter (s : Slots) : Bool × Slots :=
  (s.current + 1 ≤ s.limit, { s with current := s.current + 1 })

/-- A caller that found no free slot counts itself out. -/
def undo (s : Slots) : Slots := { s with current := s.current - 1 }

/-- A caller gives its slot back. -/
def leave (s : Slots) : Slots := { s with current := s.current - 1 }

/-- Takes a slot if one is free, without other callers in between. -/
def acquire (s : Slots) : Bool × Slots :=
  match s.enter with
  | (true, s) => (true, s)
  | (false, s) => (false, s.undo)

end Slots

end MathMarkup.Limits
