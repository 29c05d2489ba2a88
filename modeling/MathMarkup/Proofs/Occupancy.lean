import MathMarkup.Limits.Contention

/-!
# How many requests hold a slot

A request that finds no slot free is counted until it has counted itself out, so the counter may
exceed the limit, and a request may be turned away while a slot is free. What holds at every moment
of every schedule is that the counter is the number of those who hold a slot and of those who have
still to count themselves out. From it follows that the slots are never exceeded, and that without
releases they are used to the last.
-/

namespace MathMarkup.Limits.Contention

variable {x y : Contention} {limit : Int}

/-! ## What a step can do -/

/-- What becomes of the slots at a moment. -/
inductive Moves (x : Contention) : Event → Contention → Prop
  | grant (hfree : x.slots.current + 1 ≤ x.slots.limit) :
      Moves x .enter ⟨x.slots.enter.2, x.attempts ++ [.decided .granted]⟩
  | turnAway (hfull : x.slots.limit < x.slots.current + 1) :
      Moves x .enter ⟨x.slots.enter.2, x.attempts ++ [.turnedAway]⟩
  | undo {place : Nat} (hplace : x.attempts[place]? = some .turnedAway) :
      Moves x (.undo place)
        ⟨x.slots.undo, x.attempts.set place (.decided .crowded)⟩
  | giveBack {place : Nat} {d : Decision} (hplace : x.attempts[place]? = some (.decided d))
      (hholds : d.holdsSlot = true) :
      Moves x (.release place)
        ⟨x.slots.leave, x.attempts.set place (.decided { d with holdsSlot := false })⟩
  /-- Releasing a decision that holds no slot changes nothing. -/
  | releaseAgain {place : Nat} {d : Decision} (hplace : x.attempts[place]? = some (.decided d))
      (hholds : d.holdsSlot = false) : Moves x (.release place) x

theorem moves_of_step? {e : Event} (hs : x.step? e = some y) : Moves x e y := by
  cases e with
  | enter =>
      by_cases hfree : x.slots.current + 1 ≤ x.slots.limit
      · simp only [step?, Slots.enter, hfree, decide_true] at hs
        cases hs
        exact .grant hfree
      · simp only [step?, Slots.enter, hfree, decide_false] at hs
        cases hs
        exact .turnAway (Int.not_le.mp hfree)
  | undo place =>
      simp only [step?] at hs
      split at hs
      · rename_i hplace
        cases hs
        exact .undo hplace
      · exact absurd hs (by simp)
  | release place =>
      simp only [step?] at hs
      split at hs
      · rename_i d hplace
        cases hholds : d.holdsSlot with
        | true =>
            simp only [Decision.release, hholds, if_true] at hs
            cases hs
            exact .giveBack hplace hholds
        | false =>
            simp only [Decision.release, hholds, Bool.false_eq_true, if_false] at hs
            obtain ⟨hlt, hget⟩ := List.getElem?_eq_some_iff.mp hplace
            have hsame : x.attempts.set place (.decided d) = x.attempts := by
              rw [← hget]
              exact List.set_getElem_self hlt
            rw [hsame] at hs
            cases hs
            exact .releaseAgain hplace hholds
      · exact absurd hs (by simp)

/-- What every move at an event of the schedule keeps, the schedule keeps. -/
theorem run_keeps {P : Contention → Prop} (hP : P x) {es : List Event}
    (hkeeps : ∀ e ∈ es, ∀ y z, P y → Moves y e z → P z) : P (x.run es) := by
  induction es generalizing x with
  | nil => exact hP
  | cons e es ih =>
      have hafter : P (x.after e) := by
        unfold Contention.after
        cases hs : x.step? e with
        | none => exact hP
        | some y => exact hkeeps e List.mem_cons_self x y hP (moves_of_step? hs)
      exact ih hafter fun e' he' => hkeeps e' (List.mem_cons_of_mem _ he')

/-! ## Counting -/

/-- One more request changes a count by that request only. -/
theorem countP_concat (p : Attempt → Bool) (l : List Attempt) (a : Attempt) :
    (l ++ [a]).countP p = l.countP p + (if p a then 1 else 0) := by
  rw [List.countP_append, List.countP_singleton]

/-- A request that stays what is counted keeps the count. -/
theorem countP_set_same (p : Attempt → Bool) {l : List Attempt} {i : Nat} {a b : Attempt}
    (ha : l[i]? = some a) (hp : p b = p a) : (l.set i b).countP p = l.countP p := by
  obtain ⟨hlt, rfl⟩ := List.getElem?_eq_some_iff.mp ha
  rw [List.countP_set hlt, hp]
  split
  · rename_i hp
    have hpos : 0 < l.countP p := List.countP_pos_iff.mpr ⟨l[i], List.getElem_mem hlt, hp⟩
    omega
  · omega

/-- A request that is not counted any more lowers the count. -/
theorem countP_set_lost (p : Attempt → Bool) {l : List Attempt} {i : Nat} {a b : Attempt}
    (ha : l[i]? = some a) (hp : p a = true) (hb : p b = false) :
    (l.set i b).countP p + 1 = l.countP p := by
  obtain ⟨hlt, rfl⟩ := List.getElem?_eq_some_iff.mp ha
  have hpos : 0 < l.countP p := List.countP_pos_iff.mpr ⟨l[i], List.getElem_mem hlt, hp⟩
  rw [List.countP_set hlt, if_pos hp, if_neg (by simp [hb])]
  omega

section
variable (s : Slots)

theorem counts_admit (x : Contention) :
    holders ⟨s, x.attempts ++ [.decided .granted]⟩ = x.holders + 1
      ∧ pending ⟨s, x.attempts ++ [.decided .granted]⟩ = x.pending
      ∧ admitted ⟨s, x.attempts ++ [.decided .granted]⟩ = x.admitted + 1 :=
  ⟨countP_concat _ _ _, countP_concat _ _ _, countP_concat _ _ _⟩

theorem counts_turnAway (x : Contention) :
    holders ⟨s, x.attempts ++ [.turnedAway]⟩ = x.holders
      ∧ pending ⟨s, x.attempts ++ [.turnedAway]⟩ = x.pending + 1
      ∧ admitted ⟨s, x.attempts ++ [.turnedAway]⟩ = x.admitted :=
  ⟨countP_concat _ _ _, countP_concat _ _ _, countP_concat _ _ _⟩

theorem counts_undo {place : Nat} (hplace : x.attempts[place]? = some .turnedAway) :
    holders ⟨s, x.attempts.set place (.decided .crowded)⟩ = x.holders
      ∧ pending ⟨s, x.attempts.set place (.decided .crowded)⟩ + 1 = x.pending
      ∧ admitted ⟨s, x.attempts.set place (.decided .crowded)⟩ = x.admitted :=
  ⟨countP_set_same _ hplace rfl, countP_set_lost _ hplace rfl rfl, countP_set_same _ hplace rfl⟩

theorem counts_giveBack {place : Nat} {d : Decision}
    (hplace : x.attempts[place]? = some (.decided d)) (hholds : d.holdsSlot = true) :
    holders ⟨s, x.attempts.set place (.decided { d with holdsSlot := false })⟩ + 1 = x.holders
      ∧ pending ⟨s, x.attempts.set place (.decided { d with holdsSlot := false })⟩ = x.pending :=
  ⟨countP_set_lost _ hplace hholds rfl, countP_set_same _ hplace rfl⟩

end

/-- A request that was let in has not to count itself out. -/
theorem admitted_add_pending_le (x : Contention) : x.admitted + x.pending ≤ x.attempts.length := by
  have hdisjoint : x.pending ≤ x.attempts.countP fun a => decide ¬a.isAdmitted = true := by
    refine List.countP_mono_left fun a _ ha => ?_
    cases a with
    | turnedAway => rfl
    | decided d => exact absurd ha (by simp [Attempt.isPending])
  have hlength := List.length_eq_countP_add_countP Attempt.isAdmitted (l := x.attempts)
  unfold admitted
  omega

/-! ## The counter -/

/-- The counter is the number of those who hold a slot and of those who have still to count
themselves out, and no more requests hold a slot than there are slots. -/
structure Counted (limit : Int) (x : Contention) : Prop where
  fixed : x.slots.limit = limit
  counter : x.slots.current = x.holders + x.pending
  bound : (x.holders : Int) ≤ limit

theorem counted_start (hlimit : 0 ≤ limit) : Counted limit { slots := { limit := limit } } :=
  ⟨rfl, rfl, hlimit⟩

/-- **Every step keeps count.** -/
theorem Counted.step {e : Event} (h : Counted limit x) (hmove : Moves x e y) : Counted limit y := by
  have hfixed := h.fixed
  have hcounter := h.counter
  have hbound := h.bound
  cases hmove with
  | grant hfree =>
      obtain ⟨hholders, hpending, -⟩ := counts_admit x.slots.enter.2 x
      refine ⟨hfixed, ?_, by omega⟩
      show x.slots.current + 1 = _
      omega
  | turnAway hfull =>
      obtain ⟨hholders, hpending, -⟩ := counts_turnAway x.slots.enter.2 x
      refine ⟨hfixed, ?_, by omega⟩
      show x.slots.current + 1 = _
      omega
  | undo hplace =>
      obtain ⟨hholders, hpending, -⟩ := counts_undo x.slots.undo hplace
      refine ⟨hfixed, ?_, by omega⟩
      show x.slots.current - 1 = _
      omega
  | giveBack hplace hholds =>
      obtain ⟨hholders, hpending⟩ := counts_giveBack x.slots.leave hplace hholds
      refine ⟨hfixed, ?_, by omega⟩
      show x.slots.current - 1 = _
      omega
  | releaseAgain => exact h

/-- **Every schedule keeps count.** -/
theorem Counted.run (h : Counted limit x) (es : List Event) : Counted limit (x.run es) :=
  run_keeps h fun _ _ _ _ hy hmove => hy.step hmove

/-! ## Without releases -/

/-- All slots that requests asked for are taken, as far as there are slots. -/
structure Filled (limit : Int) (x : Contention) : Prop where
  counted : Counted limit x
  holding : x.admitted = x.holders
  filled : (x.admitted : Int) = min (x.attempts.length : Int) limit

/-- A step that releases nothing fills the slots. A request is turned away only when all slots are
taken: if some request was turned away before it, they were taken then, and if none was, nobody has
still to count itself out. -/
theorem Filled.step {e : Event} (h : Filled limit x) (hmove : Moves x e y)
    (he : ∀ place, e ≠ .release place) : Filled limit y := by
  have hcounted := h.counted.step hmove
  have hcounter := h.counted.counter
  have hfixed := h.counted.fixed
  have hholding := h.holding
  have hfilled := h.filled
  have hpart := admitted_add_pending_le x
  cases hmove with
  | grant hfree =>
      obtain ⟨hholders, -, hadmitted⟩ := counts_admit x.slots.enter.2 x
      refine ⟨hcounted, by rw [hholders, hadmitted, hholding], ?_⟩
      simp only [hadmitted, List.length_append, List.length_singleton]
      omega
  | turnAway hfull =>
      obtain ⟨hholders, -, hadmitted⟩ := counts_turnAway x.slots.enter.2 x
      refine ⟨hcounted, by rw [hholders, hadmitted, hholding], ?_⟩
      simp only [hadmitted, List.length_append, List.length_singleton]
      omega
  | undo hplace =>
      obtain ⟨hholders, -, hadmitted⟩ := counts_undo x.slots.undo hplace
      refine ⟨hcounted, by rw [hholders, hadmitted, hholding], ?_⟩
      simp only [hadmitted, List.length_set]
      exact hfilled
  | giveBack | releaseAgain => exact absurd rfl (he _)

/-- As many requests are there as counted themselves in. -/
theorem length_attempts (x : Contention) (es : List Event) :
    (x.run es).attempts.length = x.attempts.length + es.count .enter := by
  induction es generalizing x with
  | nil => rfl
  | cons e es ih =>
      have hafter : (x.after e).attempts.length = x.attempts.length + [e].count .enter := by
        unfold Contention.after
        cases hs : x.step? e with
        | none =>
            cases e with
            | enter =>
                simp only [step?] at hs
                split at hs <;> exact absurd hs (by simp)
            | undo _ | release _ => simp
        | some y => cases moves_of_step? hs <;> simp
      rw [← List.singleton_append, List.count_append, ← Nat.add_assoc, ← hafter]
      exact ih (x.after e)

/-- **Without releases the slots are filled.** -/
theorem filled_run (hlimit : 0 ≤ limit) {es : List Event} (hes : ∀ place, .release place ∉ es) :
    Filled limit (run { slots := { limit := limit } } es) := by
  have hstart : Filled limit { slots := { limit := limit } } :=
    ⟨counted_start hlimit, rfl, (Int.min_eq_left hlimit).symm⟩
  refine run_keeps hstart fun e he _ _ hy hmove => hy.step hmove ?_
  rintro place rfl
  exact hes place he

/-! ## One request alone -/

/-- A limiter decides about a request as if it counted itself in, and out again if it has to, with
nobody coming between. -/
theorem askSlot_eq_run (x : Contention) {l : Limiter} (hslots : l.slots = some x.slots) :
    l.askSlot.2.slots = some (x.run [.enter, .undo x.attempts.length]).slots
      ∧ (x.run [.enter, .undo x.attempts.length]).attempts
          = x.attempts ++ [.decided l.askSlot.1] := by
  by_cases hfree : x.slots.current + 1 ≤ x.slots.limit
  · simp [Limiter.askSlot, hslots, Slots.acquire, Slots.enter, hfree, run, after, step?]
  · simp [Limiter.askSlot, hslots, Slots.acquire, Slots.enter, hfree, run, after, step?]

/-- A limiter releases a decision as the request does that the decision is about. -/
theorem release_eq_run (x : Contention) {l : Limiter} (hslots : l.slots = some x.slots)
    {place : Nat} {d : Decision} (hplace : x.attempts[place]? = some (.decided d)) :
    (l.release d).2.slots = some (x.run [.release place]).slots
      ∧ (x.run [.release place]).attempts = x.attempts.set place (.decided (l.release d).1) := by
  simp [Limiter.release, hslots, run, after, step?, hplace]

/-! ## The guarantee -/

/-- **No more requests hold a slot than there are slots.** At every moment of every schedule of
requests that ask for slots and release their decisions as often as they like:

* the requests that hold a slot are at most as many as the limit;
* the counter is their number and that of the requests that have still to count themselves out;
* if nothing was released, as many requests were let in as asked, up to the limit;
* a limiter takes the same steps for a request that comes, or goes, alone.
-/
theorem holders_within_limit (limit : Int) (hlimit : 0 ≤ limit) (es : List Event) :
    let x := run { slots := { limit := limit } } es
    (x.holders : Int) ≤ limit
      ∧ x.slots.current = x.holders + x.pending
      ∧ 0 ≤ x.slots.current
      ∧ ((∀ place, .release place ∉ es) → (x.admitted : Int) = min (es.count .enter : Int) limit)
      ∧ (∀ l : Limiter, l.slots = some x.slots →
          l.askSlot.2.slots = some (x.run [.enter, .undo x.attempts.length]).slots
            ∧ (x.run [.enter, .undo x.attempts.length]).attempts
                = x.attempts ++ [.decided l.askSlot.1]
            ∧ ∀ place d, x.attempts[place]? = some (.decided d) →
                (l.release d).2.slots = some (x.run [.release place]).slots
                  ∧ (x.run [.release place]).attempts
                      = x.attempts.set place (.decided (l.release d).1)) := by
  intro x
  have h : Counted limit x := (counted_start hlimit).run es
  have hcounter := h.counter
  refine ⟨h.bound, hcounter, by omega, fun hes => ?_, fun l hslots => ?_⟩
  · have hlength := length_attempts { slots := { limit := limit } } es
    have hfilled := (filled_run hlimit hes).filled
    rwa [hlength, List.length_nil, Nat.zero_add] at hfilled
  · obtain ⟨hslot, hattempt⟩ := askSlot_eq_run x hslots
    exact ⟨hslot, hattempt, fun place d hplace => release_eq_run x hslots hplace⟩

/-- Three requests for one slot: two are turned away and have still to count themselves out. -/
def crowd : List Event := [.enter, .enter, .enter]

/-- The counter overshoots the limit while one request holds the slot. The slot is given back once,
however often its decision is released. -/
theorem crowd_within_limit :
    let x := run { slots := { limit := 1 } } crowd
    let y := run { slots := { limit := 1 } } (crowd ++ [.release 0, .undo 2, .release 0])
    x.slots.current = 3
      ∧ (x.holders : Int) ≤ 1
      ∧ x.slots.current = x.holders + x.pending
      ∧ (x.admitted : Int) = min 3 1
      ∧ y.slots.current = 1
      ∧ y.slots.current = y.holders + y.pending
      ∧ 0 ≤ y.slots.current := by
  intro x y
  obtain ⟨hbound, hcounter, -, hfilled, -⟩ := holders_within_limit 1 (by decide) crowd
  obtain ⟨-, hcounter', hnonneg, -, -⟩ :=
    holders_within_limit 1 (by decide) (crowd ++ [.release 0, .undo 2, .release 0])
  have hadmitted := hfilled (by simp [crowd])
  exact ⟨by decide, hbound, hcounter, hadmitted, by decide, hcounter', hnonneg⟩

end MathMarkup.Limits.Contention
