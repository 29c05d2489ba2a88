import Mathlib.Data.List.Perm.Basic
import MathMarkup.History.Memory
import MathMarkup.History.Recorder

/-!
# What becomes of recorded records

Whatever the order in which callers, the writer and those who close the recorder take their steps,
the records that went into the queue are, in this order, those already handed to the store, the one
the writer holds and those still queued. Nothing is lost and nothing is handed over twice.

The invariant behind it (`Accounted`) says where the record of every call is. Two facts about the
lock carry it past the end: a recorder is closed only when no caller waits, and the writer ends only
when nothing is queued, so what it leaves behind has all been handed over.
-/

namespace MathMarkup.History.Recorder

variable {σ : Type} {st : Storage σ} {s : σ} {x y : Recorder σ} {calls : List Record}

/-- The store after records were handed to it one after the other. One that it does not take leaves
it as it is. -/
def deliver (st : Storage σ) (s : σ) (rs : List Record) : σ :=
  rs.foldl (fun s r => match st.store s r with
    | .ok s' => s'
    | .error _ => s) s

/-- The record that a caller brings at a moment. -/
def Event.brought? : Event → Option Record
  | .offer r => some r
  | _ => none

/-- The records that callers bring in a schedule, in order. -/
def brought (es : List Event) : List Record := es.filterMap Event.brought?

/-- Where the record of every call is: `calls` are those brought so far to a recorder that began
with the store `s`. -/
structure Accounted (st : Storage σ) (s : σ) (calls : List Record) (x : Recorder σ) : Prop where
  /-- What was accepted was handed over, or is held, or queued. -/
  order : x.accepted = x.handed ++ (x.inHand.toList ++ x.queue)
  /-- What was handed over went to the store. -/
  stored : x.state = deliver st s x.handed
  /-- A record is accepted or refused, or its caller still waits. -/
  calls : (x.accepted ++ (x.refused ++ x.offered)).Perm calls
  /-- Nobody waits at a closed recorder. -/
  locked : x.closed = true → x.offered = []
  /-- The writer finishes only what a closed recorder has queued. -/
  noticed : x.draining = true → x.closed = true
  /-- The writer has ended with nothing left to do. -/
  ended : x.stopped = true → x.draining = true ∧ x.inHand = none ∧ x.queue = []

theorem accounted_start (capacity : Nat) :
    Accounted st s [] { capacity := capacity, state := s } where
  order := rfl
  stored := rfl
  calls := .refl _
  locked h := absurd h (by simp)
  noticed h := absurd h (by simp)
  ended h := absurd h (by simp)

/-- A writer that still works has not ended. -/
theorem Accounted.running (h : Accounted st s calls x) (hopen : x.closed ≠ true) :
    x.stopped ≠ true :=
  fun hs => hopen (h.noticed (h.ended hs).1)

/-! ## One step -/

/-- A waiting record leaves its place. -/
theorem perm_eraseIdx {r : Record} {rs : List Record} {place : Nat} (hr : rs[place]? = some r) :
    (r :: rs.eraseIdx place).Perm rs := by
  obtain ⟨hlt, rfl⟩ := List.getElem?_eq_some_iff.mp hr
  exact List.getElem_cons_eraseIdx_perm hlt

theorem Accounted.offer (h : Accounted st s calls x) {r : Record}
    (hy : x.step? st (.offer r) = some y) : Accounted st s (calls ++ [r]) y := by
  have hcalls : (x.accepted ++ (x.refused ++ (x.offered ++ [r]))).Perm (calls ++ [r]) := by
    simpa using h.calls.append_right [r]
  simp only [step?] at hy
  split at hy
  · cases hy
    refine ⟨h.order, h.stored, .trans ?_ hcalls, h.locked, h.noticed, h.ended⟩
    -- the refused record stands before those that wait
    show (x.accepted ++ (x.refused ++ [r] ++ x.offered)).Perm _
    rw [List.append_assoc]
    exact (List.perm_append_comm.append_left _).append_left _
  · rename_i hopen
    cases hy
    exact ⟨h.order, h.stored, hcalls, fun hc => absurd hc hopen, h.noticed, h.ended⟩

/-- Somebody waits, so the recorder is open. -/
theorem Accounted.unclosed (h : Accounted st s calls x) {r : Record} {place : Nat}
    (hr : x.offered[place]? = some r) : x.closed ≠ true := by
  intro hc
  rw [h.locked hc] at hr
  exact absurd hr (by simp)

theorem Accounted.accept (h : Accounted st s calls x) {place : Nat}
    (hy : x.step? st (.accept place) = some y) : Accounted st s calls y := by
  simp only [step?] at hy
  split at hy
  · rename_i r hr
    split at hy
    · cases hy
      have hopen := h.unclosed hr
      refine ⟨?_, h.stored, .trans ?_ h.calls, fun hc => absurd hc hopen, h.noticed,
        fun hs => absurd hs (h.running hopen)⟩
      · show x.accepted ++ [r] = x.handed ++ (x.inHand.toList ++ (x.queue ++ [r]))
        rw [h.order]
        simp
      · show (x.accepted ++ [r] ++ (x.refused ++ x.offered.eraseIdx place)).Perm _
        rw [List.append_assoc, List.singleton_append]
        exact (List.perm_middle.symm.trans ((perm_eraseIdx hr).append_left _)).append_left _
    · exact absurd hy (by simp)
  · exact absurd hy (by simp)

theorem Accounted.giveUp (h : Accounted st s calls x) {place : Nat} {why : GiveUp}
    (hy : x.step? st (.giveUp place why) = some y) : Accounted st s calls y := by
  simp only [step?] at hy
  split at hy
  · rename_i r hr
    cases hy
    refine ⟨h.order, h.stored, .trans ?_ h.calls, fun hc => absurd hc (h.unclosed hr), h.noticed,
      h.ended⟩
    show (x.accepted ++ (x.refused ++ [r] ++ x.offered.eraseIdx place)).Perm _
    rw [List.append_assoc, List.singleton_append]
    exact ((perm_eraseIdx hr).append_left _).append_left _
  · exact absurd hy (by simp)

theorem Accounted.take (h : Accounted st s calls x) (hy : x.step? st .take = some y) :
    Accounted st s calls y := by
  simp only [step?] at hy
  split at hy
  · rename_i r rest hhand hqueue
    split at hy
    · exact absurd hy (by simp)
    · rename_i hrunning
      cases hy
      refine ⟨?_, h.stored, h.calls, h.locked, h.noticed, fun hs => absurd hs hrunning⟩
      have horder := h.order
      rw [hhand, hqueue] at horder
      exact horder
  · exact absurd hy (by simp)

/-- Handing a record over changes the store, the hand of the writer and what is noted. -/
theorem handOver_eq (st : Storage σ) (x : Recorder σ) (r : Record) :
    ∃ notes, x.handOver st r =
      { x with
        state := deliver st x.state [r]
        inHand := none
        handed := x.handed ++ [r]
        measured := notes } := by
  unfold handOver deliver
  dsimp only [List.foldl_cons, List.foldl_nil, Recorder.measure]
  cases st.store x.state r <;> exact ⟨_, rfl⟩

theorem Accounted.hand (h : Accounted st s calls x) (hy : x.step? st .hand = some y) :
    Accounted st s calls y := by
  simp only [step?] at hy
  split at hy
  · rename_i r hhand
    cases hy
    obtain ⟨notes, hnotes⟩ := handOver_eq st x r
    rw [hnotes]
    refine ⟨?_, ?_, h.calls, h.locked, h.noticed, fun hs => ?_⟩
    · show x.accepted = x.handed ++ [r] ++ ([] ++ x.queue)
      rw [h.order, hhand]
      simp
    · show deliver st x.state [r] = deliver st s (x.handed ++ [r])
      rw [h.stored]
      unfold deliver
      rw [List.foldl_append]
    · exact absurd ((h.ended hs).2.1.symm.trans hhand) (by simp)
  · exact absurd hy (by simp)

theorem Accounted.close (h : Accounted st s calls x) (hy : x.step? st .close = some y) :
    Accounted st s calls y := by
  simp only [step?] at hy
  split at hy
  · cases hy
    exact h
  · split at hy
    · rename_i hfree
      cases hy
      exact ⟨h.order, h.stored, h.calls, fun _ => List.isEmpty_iff.mp hfree, fun _ => rfl, h.ended⟩
    · exact absurd hy (by simp)

theorem Accounted.notice (h : Accounted st s calls x) (hy : x.step? st .notice = some y) :
    Accounted st s calls y := by
  simp only [step?] at hy
  split at hy
  · rename_i hcond
    simp only [Bool.and_eq_true] at hcond
    cases hy
    exact ⟨h.order, h.stored, h.calls, h.locked, fun _ => hcond.1.1,
      fun hs => ⟨rfl, (h.ended hs).2⟩⟩
  · exact absurd hy (by simp)

theorem Accounted.stop (h : Accounted st s calls x) (hy : x.step? st .stop = some y) :
    Accounted st s calls y := by
  simp only [step?] at hy
  split at hy
  · rename_i hcond
    simp only [Bool.and_eq_true, Option.isNone_iff_eq_none, List.isEmpty_iff] at hcond
    cases hy
    exact ⟨h.order, h.stored, h.calls, h.locked, h.noticed,
      fun _ => ⟨hcond.1.1.1, hcond.1.2, hcond.2⟩⟩
  · exact absurd hy (by simp)

/-- **Every step accounts for the records**, with the one that it brings. -/
theorem Accounted.step {e : Event} (h : Accounted st s calls x) (hy : x.step? st e = some y) :
    Accounted st s (calls ++ e.brought?.toList) y := by
  cases e with
  | offer r => exact h.offer hy
  | accept place => simpa [Event.brought?] using h.accept hy
  | giveUp place why => simpa [Event.brought?] using h.giveUp hy
  | take => simpa [Event.brought?] using h.take hy
  | hand => simpa [Event.brought?] using h.hand hy
  | close => simpa [Event.brought?] using h.close hy
  | notice => simpa [Event.brought?] using h.notice hy
  | stop => simpa [Event.brought?] using h.stop hy

/-! ## A schedule -/

/-- A step that is not possible brings nothing. -/
theorem brought?_of_impossible {e : Event} (h : x.step? st e = none) : e.brought? = none := by
  cases e with
  | offer r =>
      simp only [step?] at h
      split at h <;> exact absurd h (by simp)
  | accept _ | giveUp _ _ | take | hand | close | notice | stop => rfl

theorem Accounted.after (h : Accounted st s calls x) (e : Event) :
    Accounted st s (calls ++ e.brought?.toList) (x.after st e) := by
  unfold Recorder.after
  cases hstep : x.step? st e with
  | some y => exact h.step hstep
  | none =>
      rw [brought?_of_impossible hstep]
      simpa using h

/-- **Every schedule accounts for the records.** -/
theorem Accounted.run (h : Accounted st s calls x) (es : List Event) :
    Accounted st s (calls ++ brought es) (x.run st es) := by
  induction es generalizing calls x with
  | nil => simpa [brought, Recorder.run] using h
  | cons e es ih =>
      have hrest := ih (h.after e)
      have hbrought : brought (e :: es) = e.brought?.toList ++ brought es := by
        unfold brought
        cases hb : e.brought? <;> simp [hb]
      rw [hbrought, ← List.append_assoc]
      exact hrest

/-- Nothing goes into the queue of a closed recorder. -/
theorem Accounted.closed_after (h : Accounted st s calls x) (hclosed : x.closed = true)
    (e : Event) : (x.after st e).closed = true ∧ (x.after st e).accepted = x.accepted := by
  unfold Recorder.after
  cases hstep : x.step? st e with
  | none => exact ⟨hclosed, rfl⟩
  | some y =>
      show y.closed = true ∧ y.accepted = x.accepted
      cases e with
      | accept _ | giveUp _ _ =>
          simp only [step?, h.locked hclosed] at hstep
          exact absurd hstep (by simp)
      | offer r =>
          simp only [step?, if_pos hclosed] at hstep
          cases hstep
          exact ⟨hclosed, rfl⟩
      | take =>
          simp only [step?] at hstep
          split at hstep
          · split at hstep
            · exact absurd hstep (by simp)
            · cases hstep
              exact ⟨hclosed, rfl⟩
          · exact absurd hstep (by simp)
      | hand =>
          simp only [step?] at hstep
          split at hstep
          · rename_i r _
            cases hstep
            obtain ⟨notes, hnotes⟩ := handOver_eq st x r
            rw [hnotes]
            exact ⟨hclosed, rfl⟩
          · exact absurd hstep (by simp)
      | close =>
          simp only [step?, if_pos hclosed] at hstep
          cases hstep
          exact ⟨hclosed, rfl⟩
      | notice | stop =>
          simp only [step?] at hstep
          split at hstep
          · cases hstep
            exact ⟨hclosed, rfl⟩
          · exact absurd hstep (by simp)

theorem Accounted.closed_run (h : Accounted st s calls x) (hclosed : x.closed = true)
    (es : List Event) : (x.run st es).accepted = x.accepted := by
  induction es generalizing calls x with
  | nil => rfl
  | cons e es ih =>
      obtain ⟨hc, ha⟩ := h.closed_after hclosed e
      exact (ih (h.after e) hc).trans ha

/-! ## Calls -/

/-- **A call of a caller that waits for nobody else** has its record accepted, or refused with a
fault. -/
theorem record_outcome (st : Storage σ) (x : Recorder σ) (r : Record) (why : GiveUp) :
    match x.record st r why with
    | (y, .ok _) => y.accepted = x.accepted ++ [r] ∧ y.refused = x.refused
    | (y, .error _) => y.accepted = x.accepted ∧ y.refused = x.refused ++ [r] := by
  by_cases hclosed : x.closed = true
  · simp only [record, Recorder.after, step?, if_pos hclosed, Option.getD_some]
    exact ⟨rfl, rfl⟩
  · have hplace : (x.offered ++ [r])[(x.offered ++ [r]).length - 1]? = some r := by simp
    simp only [record, Recorder.after, step?, if_neg hclosed, Option.getD_some, hplace]
    by_cases hroom : ({ x with offered := x.offered ++ [r] } : Recorder σ).hasRoom = true
    · rw [if_pos hroom]
      exact ⟨rfl, rfl⟩
    · rw [if_neg hroom]
      exact ⟨rfl, rfl⟩

/-- A writer with free hands takes the next record and hands it over. -/
theorem run_take_hand (st : Storage σ) {x : Recorder σ} {r : Record} {rest : List Record}
    (hhand : x.inHand = none) (hqueue : x.queue = r :: rest) (hrunning : x.stopped ≠ true) :
    ∃ notes, x.run st [.take, .hand] =
      { x with
        state := deliver st x.state [r]
        queue := rest
        handed := x.handed ++ [r]
        measured := notes } := by
  obtain ⟨notes, hnotes⟩ := handOver_eq st { x with inHand := some r, queue := rest } r
  have htake : x.step? st .take = some { x with inHand := some r, queue := rest } := by
    simp only [step?, hhand, hqueue]
    exact if_neg hrunning
  have hrun : x.run st [.take, .hand]
      = ({ x with inHand := some r, queue := rest } : Recorder σ).handOver st r := by
    show (x.after st .take).after st .hand = _
    rw [show x.after st .take = _ from congrArg (Option.getD · x) htake]
    rfl
  refine ⟨notes, ?_⟩
  rw [hrun, hnotes, ← hhand]

/-- The writer finishes what is queued, and nothing else changes hands. -/
theorem drainUpTo_queue (st : Storage σ) {n : Nat} {x : Recorder σ} (hhand : x.inHand = none)
    (hrunning : x.stopped ≠ true) (hn : x.queue.length = n) :
    ∃ state notes, x.drainUpTo st n =
      { x with
        state := state
        queue := []
        handed := x.handed ++ x.queue
        measured := notes } := by
  induction n generalizing x with
  | zero =>
      have hqueue : x.queue = [] := List.length_eq_zero_iff.mp hn
      refine ⟨x.state, x.measured, ?_⟩
      show x = _
      rw [hqueue, List.append_nil, ← hqueue]
  | succ n ih =>
      obtain ⟨r, rest, hqueue⟩ := List.exists_cons_of_length_eq_add_one hn
      obtain ⟨notes, hrun⟩ := run_take_hand st hhand hqueue hrunning
      have hrest : rest.length = n := by simpa [hqueue] using hn
      show ∃ state notes, (x.run st [.take, .hand]).drainUpTo st n = _
      rw [hrun]
      obtain ⟨state, notes', hdrain⟩ := ih (x := { x with
        state := deliver st x.state [r]
        queue := rest
        handed := x.handed ++ [r]
        measured := notes }) hhand hrunning hrest
      refine ⟨state, notes', hdrain.trans ?_⟩
      rw [hqueue]
      simp

/-- The writer hands over what it holds and then what is queued. -/
theorem drain_eq (st : Storage σ) {x : Recorder σ} (hrunning : x.stopped ≠ true) :
    ∃ state notes, x.drain st =
      { x with
        state := state
        inHand := none
        queue := []
        handed := x.handed ++ (x.inHand.toList ++ x.queue)
        measured := notes } := by
  cases hhand : x.inHand with
  | none =>
      have hafter : x.after st .hand = x := by
        simp only [Recorder.after, step?, hhand, Option.getD_none]
      obtain ⟨state, notes, hdrain⟩ := drainUpTo_queue st hhand hrunning rfl
      refine ⟨state, notes, ?_⟩
      unfold drain
      rw [hafter, hdrain]
      rw [hhand]
      rfl
  | some r =>
      obtain ⟨notes, hnotes⟩ := handOver_eq st x r
      have hafter : x.after st .hand = x.handOver st r := by
        simp only [Recorder.after, step?, hhand, Option.getD_some]
      obtain ⟨state, notes', hdrain⟩ := drainUpTo_queue st (x := { x with
        state := deliver st x.state [r]
        inHand := none
        handed := x.handed ++ [r]
        measured := notes }) rfl hrunning rfl
      refine ⟨state, notes', ?_⟩
      unfold drain
      rw [hafter, hnotes]
      refine hdrain.trans ?_
      simp

/-- **Closing ends**: a recorder at which nobody waits is closed, its writer hands over all that was
accepted, and ends. -/
theorem Accounted.shutDown (h : Accounted st s calls x) (hopen : x.closed ≠ true)
    (hfree : x.offered = []) :
    (x.shutDown st).stopped = true ∧ (x.shutDown st).handed = x.accepted
      ∧ (x.shutDown st).accepted = x.accepted := by
  have hclose : x.after st .close = { x with closed := true } := by
    simp only [Recorder.after, step?, if_neg hopen, hfree, List.isEmpty_nil, if_true,
      Option.getD_some]
  have hdraining : x.draining = false := by
    cases hd : x.draining with
    | false => rfl
    | true => exact absurd (h.noticed hd) hopen
  have hstopped : x.stopped = false := by
    cases hs : x.stopped with
    | false => rfl
    | true => exact absurd hs (h.running hopen)
  obtain ⟨state, notes, hdrain⟩ := drain_eq st (x := { x with closed := true }) (h.running hopen)
  unfold Recorder.shutDown
  rw [hclose, hdrain]
  simp only [Recorder.run, Recorder.after, List.foldl_cons, List.foldl_nil, step?, hdraining,
    hstopped, Bool.not_false, Bool.and_self, Option.isNone_none, List.isEmpty_nil, if_true,
    Option.getD_some]
  exact ⟨rfl, h.order.symm, rfl⟩

/-! ## The guarantee -/

/-- A refused record is not one of those handed over, unless its callers brought it more than
once. -/
theorem Accounted.count_le (h : Accounted st s calls x) (r : Record) :
    x.handed.count r + x.refused.count r ≤ calls.count r := by
  have hcalls := h.calls.count_eq r
  rw [h.order] at hcalls
  simp only [List.count_append] at hcalls
  omega

/-- **A recorder neither loses nor repeats what it accepts.** After every schedule of its callers,
its writer and those who close it:

* what was accepted is, in this order, what was handed to the store, what the writer holds and what
  is queued, and the store has taken what was handed over;
* the record of every call is accepted, refused or still waiting, so that a refused record is not
  handed over on its account;
* a closed recorder accepts nothing more, and the writer ends only when all was handed over;
* a call succeeds if its record is accepted and fails if it is refused;
* closing a recorder at which nobody waits, however full its queue, ends with everything handed
  over.
-/
theorem recorder_hands_over_accepted (st : Storage σ) (capacity : Nat) (s : σ) (es : List Event) :
    let x := run st { capacity := capacity, state := s } es
    x.accepted = x.handed ++ (x.inHand.toList ++ x.queue)
      ∧ x.state = deliver st s x.handed
      ∧ (x.accepted ++ (x.refused ++ x.offered)).Perm (brought es)
      ∧ (∀ r ∈ x.refused, (brought es).count r = 1 → r ∉ x.handed)
      ∧ (x.closed = true → ∀ later, (x.run st later).accepted = x.accepted)
      ∧ (x.stopped = true → x.handed = x.accepted)
      ∧ (∀ r why, match x.record st r why with
          | (y, .ok _) => y.accepted = x.accepted ++ [r] ∧ y.refused = x.refused
          | (y, .error _) => y.accepted = x.accepted ∧ y.refused = x.refused ++ [r])
      ∧ (x.closed ≠ true → x.offered = [] →
          (x.shutDown st).stopped = true ∧ (x.shutDown st).handed = x.accepted
            ∧ (x.shutDown st).accepted = x.accepted) := by
  intro x
  have h : Accounted st s (brought es) x := (accounted_start capacity).run es
  refine ⟨h.order, h.stored, h.calls, ?_, h.closed_run, ?_, record_outcome st x, h.shutDown⟩
  · intro r hr hone hhanded
    have hle := h.count_le r
    have hrefused := List.count_pos_iff.mpr hr
    have hpos := List.count_pos_iff.mpr hhanded
    omega
  · intro hs
    obtain ⟨-, hhand, hqueue⟩ := h.ended hs
    have horder := h.order
    rw [hhand, hqueue] at horder
    simpa using horder.symm

/-- Three callers of a recorder with room for one record: the writer holds the first record, the
second fills the queue and the third gives up. -/
def crowded : List Event :=
  [.offer { id := "a" }, .accept 0, .take, .offer { id := "b" }, .offer { id := "c" }, .accept 0,
    .accept 0, .giveUp 0 .deadline]

/-- Closed with a full queue, the crowded recorder still hands over what it accepted, and only
that. -/
theorem crowded_handed_over :
    let x := run Memory.storage { capacity := 1, state := Memory.empty } crowded
    x.queue.length = x.capacity
      ∧ x.accepted = [{ id := "a" }, { id := "b" }]
      ∧ { id := "c" } ∉ x.handed
      ∧ (x.shutDown Memory.storage).stopped = true
      ∧ (x.shutDown Memory.storage).handed = [{ id := "a" }, { id := "b" }] := by
  intro x
  obtain ⟨-, -, -, hrefused, -, -, -, hclose⟩ :=
    recorder_hands_over_accepted Memory.storage 1 Memory.empty crowded
  have haccepted : x.accepted = [{ id := "a" }, { id := "b" }] := by decide
  have hnone := hrefused { id := "c" } (by decide) (by decide)
  obtain ⟨hstopped, hhanded, -⟩ := hclose (by decide) (by decide)
  exact ⟨by decide, haccepted, hnone, hstopped, hhanded.trans haccepted⟩

end MathMarkup.History.Recorder
