import MathMarkup.Failure.Fault

/-!
# Where output goes

A sink takes the pieces of an output one after the other, or refuses every one of them. A buffer in
front of it collects small pieces.
-/

namespace MathMarkup.Output

/-- What has been written so far, and the fault that every further write meets, if there is one. -/
structure Sink where
  written : Text := []
  fault : Fault := []

namespace Sink

/-- Writes a piece. -/
def write (s : Sink) (t : Text) : Except Fault Sink :=
  match s.fault with
  | [] => .ok { s with written := s.written ++ t }
  | f => .error f

end Sink

/-- How many bytes a buffer holds. -/
def bufferSize : Nat := 4096

/-- A sink behind a buffer. -/
structure Buffer where
  sink : Sink
  pending : Text := []

namespace Buffer

/-- Writes out what the buffer holds. -/
def flush (b : Buffer) : Except Fault Buffer :=
  match b.pending with
  | [] => .ok b
  | t => do
    let sink ← b.sink.write t
    pure { sink }

/-- Puts a piece into the buffer, which is written out once it holds too much. -/
def put (b : Buffer) (t : Text) : Except Fault Buffer :=
  let b : Buffer := { b with pending := b.pending ++ t }
  if b.pending.length > bufferSize then b.flush else .ok b

end Buffer

end MathMarkup.Output
