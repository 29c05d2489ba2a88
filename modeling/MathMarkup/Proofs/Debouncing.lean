import Mathlib.Data.List.Nodup
import MathMarkup.Watch.Debouncer

/-!
# What a debouncer guarantees

Timers expire, functions take the lock and callers trigger and stop in any order. Whatever the
order, the number of functions that stopping waits for is exact, a callback is called at most once
and only if nothing came between its trigger and its function, and when the caller that stopped the
debouncer goes on, nothing happens any more.

`Moves` says once what a step can do. The difficulty it hides is the timer that has expired but has
not taken the lock when it is replaced or the debouncer is stopped: it cannot be disarmed, so it is
still counted, and its own function counts it out when it finds that it is no longer current.
-/

namespace MathMarkup.Watch.Debouncer

variable {d d' : Debouncer} {t : Timer} {e : Event}

/-- Where the timers of a debouncer are. -/
structure Tracked (d : Debouncer) : Prop where
  /-- Stopping waits for the timers that are armed and for the functions that have not ended. -/
  counted : d.awaited = d.armed.length + d.started.length + d.running.length + d.leaving.length
  /-- A timer that is armed is the one that counts for its key. -/
  current : ∀ t ∈ d.armed, t ∈ d.current
  /-- A timer that counts for its key has not taken the lock. -/
  waiting : ∀ t ∈ d.current, t ∈ d.armed ∨ t ∈ d.started
  /-- One timer counts for a key. -/
  keys : (d.current.map Timer.key).Nodup
  /-- A timer is armed, or waits for the lock, or was called, and never twice. -/
  once : (d.armed ++ (d.started ++ d.called)).Nodup
  /-- Timers are numbered in the order in which they are armed. -/
  numbered : ∀ t ∈ d.armed ++ (d.started ++ d.called), t.number < d.count
  /-- What runs was called. -/
  running : d.running.Sublist d.called
  /-- No timer counts after the debouncer was stopped. -/
  stopped : d.stopped = true → d.current = []
  /-- The caller that stopped the debouncer went on when nothing was awaited, and nothing is. -/
  resumed : d.resumed = true → d.isSettled = true

theorem tracked_start : Tracked {} where
  counted := rfl
  current _ h := absurd h (by simp)
  waiting _ h := absurd h (by simp)
  keys := .nil
  once := .nil
  numbered _ h := absurd h (by simp)
  running := .slnil
  stopped _ := rfl
  resumed h := absurd h (by simp)

/-! ## The timer of a key -/

/-- The element that has a key is the one found by it, where keys are distinct. -/
theorem find?_key {α β : Type} [BEq β] [LawfulBEq β] (key : α → β) {xs : List α}
    (hkeys : (xs.map key).Nodup) {x : α} (hx : x ∈ xs) : xs.find? (key · == key x) = some x := by
  induction xs with
  | nil => exact absurd hx (by simp)
  | cons y ys ih =>
      obtain ⟨hy, hys⟩ := List.nodup_cons.mp hkeys
      rcases List.mem_cons.mp hx with rfl | hx
      · simp
      · have hne : key y ≠ key x := fun heq => hy (heq ▸ List.mem_map_of_mem hx)
        rw [List.find?_cons_of_neg (by simpa using hne)]
        exact ih hys hx

theorem Tracked.timerFor?_eq_some_iff (h : Tracked d) :
    d.timerFor? t.key = some t ↔ t ∈ d.current :=
  ⟨List.mem_of_find?_eq_some, find?_key Timer.key h.keys⟩

/-- Two timers that count for the same key are the same. -/
theorem Tracked.key_unique (h : Tracked d) {u : Timer} (ht : t ∈ d.current) (hu : u ∈ d.current)
    (hkey : t.key = u.key) : t = u := by
  have hfound := h.timerFor?_eq_some_iff.mpr ht
  rw [hkey, h.timerFor?_eq_some_iff.mpr hu] at hfound
  exact (Option.some.inj hfound).symm

theorem Tracked.armed_nodup (h : Tracked d) : d.armed.Nodup := (List.nodup_append.mp h.once).1

theorem Tracked.started_nodup (h : Tracked d) : (d.started ++ d.called).Nodup :=
  (List.nodup_append.mp h.once).2.1

theorem Tracked.called_nodup (h : Tracked d) : d.called.Nodup :=
  (List.nodup_append.mp h.started_nodup).2.1

/-- A timer that waits for the lock was not called. -/
theorem Tracked.not_called (h : Tracked d) (ht : t ∈ d.started) : t ∉ d.called :=
  fun hc => (List.nodup_append.mp h.started_nodup).2.2 t ht t hc rfl

theorem settled_iff : d.isSettled = true ↔ d.stopped = true ∧ d.awaited = 0 := by
  simp [isSettled]

/-- Nobody who stopped an open debouncer has gone on. -/
theorem Tracked.not_resumed (h : Tracked d) (hopen : d.stopped = false) : d.resumed ≠ true := by
  intro hr
  rw [(settled_iff.mp (h.resumed hr)).1] at hopen
  exact absurd hopen (by simp)

/-! ## Disarming -/

theorem disarm_eq (d : Debouncer) (t : Timer) :
    d.disarm t =
      { d with
        armed := d.armed.erase t
        awaited := d.awaited - d.armed.length + (d.armed.erase t).length } := by
  unfold disarm
  split
  · rename_i ht
    have hlen := List.length_erase_add_one ht
    have hawaited :
        d.awaited - 1 = d.awaited - d.armed.length + (d.armed.erase t).length := by omega
    rw [hawaited]
  · rename_i ht
    rw [List.erase_of_not_mem ht]
    have hawaited : d.awaited - (d.armed.length : Int) + d.armed.length = d.awaited := by omega
    rw [hawaited]

/-- Disarming several timers leaves the others armed, and counts those that were armed out. -/
theorem foldl_disarm_eq (ts : List Timer) {d : Debouncer} (hd : d.armed.Nodup) :
    ts.foldl disarm d =
      { d with
        armed := d.armed.filter (· ∉ ts)
        awaited := d.awaited - d.armed.length + (d.armed.filter (· ∉ ts)).length } := by
  induction ts generalizing d with
  | nil =>
      have hawaited : d.awaited - (d.armed.length : Int) + d.armed.length = d.awaited := by omega
      simp [hawaited]
  | cons t ts ih =>
      have herase : (d.disarm t).armed = d.armed.filter (· != t) := by
        rw [disarm_eq]
        exact hd.erase_eq_filter t
      have hfilter : (d.disarm t).armed.filter (· ∉ ts) = d.armed.filter (· ∉ t :: ts) := by
        rw [herase, List.filter_filter]
        exact List.filter_congr fun x _ => by by_cases hx : x = t <;> simp [hx]
      have hnodup : (d.disarm t).armed.Nodup := by
        rw [herase]
        exact hd.filter _
      rw [List.foldl_cons, ih hnodup, hfilter]
      rw [disarm_eq]
      simp only
      congr 1
      omega

/-! ## What a step can do -/

/-- The timers of other keys. -/
def others (key : Text) (ts : List Timer) : List Timer := ts.filter (·.key != key)

theorem mem_others {key : Text} {ts : List Timer} : t ∈ others key ts ↔ t ∈ ts ∧ t.key ≠ key := by
  simp [others]

/-- What becomes of a debouncer at a moment. -/
inductive Moves (d : Debouncer) : Event → Debouncer → Prop
  /-- A trigger after the end is ignored. -/
  | ignore {key : Text} (hstopped : d.stopped = true) : Moves d (.trigger key) d
  /-- A trigger puts a new timer in the place of the one that counts for its key. -/
  | replace {key : Text} (hopen : d.stopped = false) :
      Moves d (.trigger key)
        { d with
          current := others key d.current ++ [⟨d.count, key⟩]
          armed := others key d.armed ++ [⟨d.count, key⟩]
          awaited := d.awaited - d.armed.length + (others key d.armed).length + 1
          count := d.count + 1 }
  | expire {t : Timer} (ht : t ∈ d.armed) :
      Moves d (.expire t) { d with armed := d.armed.erase t, started := d.started ++ [t] }
  /-- A function that finds its timer replaced, or the debouncer stopped, gives up. -/
  | giveUp {t : Timer} (ht : t ∈ d.started) (hpassed : t ∉ d.current) :
      Moves d (.enter t) { d with started := d.started.erase t, leaving := d.leaving ++ [t] }
  | call {t : Timer} (ht : t ∈ d.started) (hopen : d.stopped = false) (hcurrent : t ∈ d.current) :
      Moves d (.enter t)
        { d with
          started := d.started.erase t
          current := others t.key d.current
          running := d.running ++ [t]
          called := d.called ++ [t] }
  | finish {t : Timer} (ht : t ∈ d.running) :
      Moves d (.finish t) { d with running := d.running.erase t, leaving := d.leaving ++ [t] }
  | leave {t : Timer} (ht : t ∈ d.leaving) :
      Moves d (.leave t) { d with leaving := d.leaving.erase t, awaited := d.awaited - 1 }
  | stopAgain (hstopped : d.stopped = true) : Moves d .stop d
  | stop (hopen : d.stopped = false) :
      Moves d .stop
        { d with
          stopped := true, current := [], armed := [], awaited := d.awaited - d.armed.length }
  | resume (hsettled : d.isSettled = true) : Moves d .resume { d with resumed := true }

/-- What a trigger does, whether or not a timer counts for its key. -/
theorem Tracked.trigger (h : Tracked d) (hopen : d.stopped = false) {key : Text}
    (hs : d.step? (.trigger key) = some d') : Moves d (.trigger key) d' := by
  have hmove := @Moves.replace d key hopen
  simp only [step?, hopen, Bool.false_eq_true, if_false] at hs
  split at hs
  · rename_i t ht
    have hmem : t ∈ d.current := List.mem_of_find?_eq_some ht
    have hkey : t.key = key := by simpa using List.find?_some ht
    -- of the armed timers only the one that counts has the key
    have herase : d.armed.erase t = others key d.armed := by
      rw [h.armed_nodup.erase_eq_filter]
      refine List.filter_congr fun x hx => ?_
      have hiff : x = t ↔ x.key = key :=
        ⟨fun heq => heq ▸ hkey, fun heq => h.key_unique (h.current x hx) hmem (heq.trans hkey.symm)⟩
      rw [Bool.eq_iff_iff, bne_iff_ne, bne_iff_ne, Ne, Ne, hiff]
    cases hs
    rw [← herase] at hmove
    rw [disarm_eq]
    exact hmove
  · rename_i hnone
    have hfree : others key d.armed = d.armed := by
      refine List.filter_eq_self.mpr fun x hx => ?_
      simpa using List.find?_eq_none.mp hnone x (h.current x hx)
    cases hs
    rw [hfree] at hmove
    have hawaited : d.awaited - (d.armed.length : Int) + d.armed.length + 1 = d.awaited + 1 := by
      omega
    rw [hawaited] at hmove
    exact hmove

/-- **What a step can do.** -/
theorem Tracked.moves (h : Tracked d) (hs : d.step? e = some d') : Moves d e d' := by
  cases e with
  | trigger key =>
      cases hstopped : d.stopped with
      | false => exact h.trigger hstopped hs
      | true =>
          simp only [step?, hstopped, if_true] at hs
          cases hs
          exact .ignore hstopped
  | expire t =>
      simp only [step?] at hs
      split at hs
      · rename_i ht
        cases hs
        exact .expire ht
      · exact absurd hs (by simp)
  | enter t =>
      simp only [step?] at hs
      split at hs
      · rename_i ht
        split at hs
        · rename_i hcond
          cases hs
          refine .giveUp ht fun hmem => ?_
          rcases Bool.or_eq_true_iff.mp hcond with hstopped | hother
          · rw [h.stopped hstopped] at hmem
            exact absurd hmem (by simp)
          · exact (bne_iff_ne.mp hother) (h.timerFor?_eq_some_iff.mpr hmem)
        · rename_i hcond
          cases hs
          simp only [Bool.or_eq_true, not_or, Bool.not_eq_true, bne_eq_false_iff_eq] at hcond
          exact .call ht hcond.1 (h.timerFor?_eq_some_iff.mp hcond.2)
      · exact absurd hs (by simp)
  | finish t =>
      simp only [step?] at hs
      split at hs
      · rename_i ht
        cases hs
        exact .finish ht
      · exact absurd hs (by simp)
  | leave t =>
      simp only [step?] at hs
      split at hs
      · rename_i ht
        cases hs
        exact .leave ht
      · exact absurd hs (by simp)
  | stop =>
      cases hstopped : d.stopped with
      | true =>
          simp only [step?, hstopped, if_true] at hs
          cases hs
          exact .stopAgain hstopped
      | false =>
          simp only [step?, hstopped, Bool.false_eq_true, if_false] at hs
          cases hs
          have hnone : d.armed.filter (· ∉ d.current) = [] := by
            refine List.filter_eq_nil_iff.mpr fun x hx => ?_
            simpa using h.current x hx
          rw [foldl_disarm_eq d.current (d := { d with stopped := true }) h.armed_nodup]
          simp only [hnone, List.length_nil, Int.ofNat_zero, Int.add_zero]
          exact .stop hstopped
  | resume =>
      simp only [step?] at hs
      split at hs
      · rename_i hsettled
        cases hs
        exact .resume hsettled
      · exact absurd hs (by simp)

/-! ## One step -/

/-- A new timer has a number that no timer had. -/
theorem Tracked.fresh (h : Tracked d) (key : Text) :
    ⟨d.count, key⟩ ∉ d.armed ++ (d.started ++ d.called) :=
  fun hmem => Nat.lt_irrefl _ (h.numbered _ hmem)

theorem Tracked.replace (h : Tracked d) (hopen : d.stopped = false) (key : Text) :
    Tracked
      { d with
        current := others key d.current ++ [⟨d.count, key⟩]
        armed := others key d.armed ++ [⟨d.count, key⟩]
        awaited := d.awaited - d.armed.length + (others key d.armed).length + 1
        count := d.count + 1 } := by
  have hfresh := h.fresh key
  refine ⟨?_, ?_, ?_, ?_, ?_, ?_, h.running, fun hs => absurd hs (by simp [hopen]), ?_⟩
  · have hcounted := h.counted
    simp only [List.length_append, List.length_singleton]
    omega
  · intro t ht
    rcases List.mem_append.mp ht with ht | ht
    · obtain ⟨hmem, hkey⟩ := mem_others.mp ht
      exact List.mem_append_left _ (mem_others.mpr ⟨h.current t hmem, hkey⟩)
    · exact List.mem_append_right _ ht
  · intro t ht
    rcases List.mem_append.mp ht with ht | ht
    · obtain ⟨hmem, hkey⟩ := mem_others.mp ht
      exact (h.waiting t hmem).imp (fun ha => List.mem_append_left _ (mem_others.mpr ⟨ha, hkey⟩)) id
    · exact .inl (List.mem_append_right _ ht)
  · rw [List.map_append]
    refine List.nodup_append.mpr ⟨h.keys.sublist (List.filter_sublist.map _), by simp, ?_⟩
    rintro _ hx _ hy rfl
    obtain ⟨u, hu, rfl⟩ := List.mem_map.mp hx
    exact (mem_others.mp hu).2 (by simpa using hy)
  · show (others key d.armed ++ [_] ++ (d.started ++ d.called)).Nodup
    rw [List.append_assoc, List.singleton_append]
    have hsub : (others key d.armed ++ (d.started ++ d.called)).Sublist
        (d.armed ++ (d.started ++ d.called)) := List.filter_sublist.append_right _
    exact List.nodup_middle.mpr
      (List.nodup_cons.mpr ⟨fun hmem => hfresh (hsub.subset hmem), h.once.sublist hsub⟩)
  · intro t ht
    simp only [List.mem_append, mem_others, List.mem_singleton] at ht
    show t.number < d.count + 1
    rcases ht with (⟨ha, -⟩ | rfl) | hrest
    · exact Nat.lt_succ_of_lt (h.numbered t (List.mem_append_left _ ha))
    · exact Nat.lt_succ_self _
    · exact Nat.lt_succ_of_lt (h.numbered t (List.mem_append_right _ (List.mem_append.mpr hrest)))
  · exact fun hr => absurd hr (h.not_resumed hopen)

theorem Tracked.expire (h : Tracked d) (ht : t ∈ d.armed) :
    Tracked { d with armed := d.armed.erase t, started := d.started ++ [t] } := by
  have hperm : (d.armed.erase t ++ (d.started ++ [t] ++ d.called)).Perm
      (d.armed ++ (d.started ++ d.called)) := by
    rw [List.append_assoc, List.singleton_append]
    refine (List.perm_middle.append_left _).trans (List.perm_middle.trans ?_)
    exact (List.perm_cons_erase ht).symm.append_right (d.started ++ d.called)
  refine ⟨?_, ?_, ?_, h.keys, hperm.nodup_iff.mpr h.once, ?_, h.running, h.stopped, h.resumed⟩
  · have hcounted := h.counted
    have hlen := List.length_erase_add_one ht
    simp only [List.length_append, List.length_singleton]
    omega
  · exact fun x hx => h.current x (List.mem_of_mem_erase hx)
  · intro x hx
    show x ∈ d.armed.erase t ∨ x ∈ d.started ++ [t]
    rcases h.waiting x hx with ha | hs
    · by_cases hxt : x = t
      · exact .inr (by simp [hxt])
      · exact .inl ((List.mem_erase_of_ne hxt).mpr ha)
    · exact .inr (List.mem_append_left _ hs)
  · exact fun x hx => h.numbered x (hperm.mem_iff.mp hx)

theorem Tracked.giveUp (h : Tracked d) (ht : t ∈ d.started) (hpassed : t ∉ d.current) :
    Tracked { d with started := d.started.erase t, leaving := d.leaving ++ [t] } := by
  have hsub : (d.armed ++ (d.started.erase t ++ d.called)).Sublist
      (d.armed ++ (d.started ++ d.called)) := (List.erase_sublist.append_right _).append_left _
  refine ⟨?_, h.current, ?_, h.keys, h.once.sublist hsub, ?_, h.running, h.stopped, h.resumed⟩
  · have hcounted := h.counted
    have hlen := List.length_erase_add_one ht
    simp only [List.length_append, List.length_singleton]
    omega
  · intro x hx
    have hxt : x ≠ t := fun heq => hpassed (heq ▸ hx)
    exact (h.waiting x hx).imp id (List.mem_erase_of_ne hxt).mpr
  · exact fun x hx => h.numbered x (hsub.subset hx)

theorem Tracked.call (h : Tracked d) (ht : t ∈ d.started) (hopen : d.stopped = false)
    (hcurrent : t ∈ d.current) :
    Tracked
      { d with
        started := d.started.erase t
        current := others t.key d.current
        running := d.running ++ [t]
        called := d.called ++ [t] } := by
  have hperm : (d.armed ++ (d.started.erase t ++ (d.called ++ [t]))).Perm
      (d.armed ++ (d.started ++ d.called)) := by
    refine List.Perm.append_left _ ?_
    refine (List.perm_append_comm.append_left _).trans (List.perm_middle.trans ?_)
    exact (List.perm_cons_erase ht).symm.append_right d.called
  have harmed : t ∉ d.armed := fun ha =>
    (List.nodup_append.mp h.once).2.2 t ha t (List.mem_append_left _ ht) rfl
  refine ⟨?_, ?_, ?_, h.keys.sublist (List.filter_sublist.map _), hperm.nodup_iff.mpr h.once, ?_,
    h.running.append (.refl _), fun hs => absurd hs (by simp [hopen]), h.resumed⟩
  · have hcounted := h.counted
    have hlen := List.length_erase_add_one ht
    simp only [List.length_append, List.length_singleton]
    omega
  · intro x hx
    refine mem_others.mpr ⟨h.current x hx, fun hkey => harmed ?_⟩
    exact h.key_unique (h.current x hx) hcurrent hkey ▸ hx
  · intro x hx
    obtain ⟨hmem, hkey⟩ := mem_others.mp hx
    have hxt : x ≠ t := fun heq => hkey (heq ▸ rfl)
    exact (h.waiting x hmem).imp id (List.mem_erase_of_ne hxt).mpr
  · exact fun x hx => h.numbered x (hperm.mem_iff.mp hx)

theorem Tracked.finish (h : Tracked d) (ht : t ∈ d.running) :
    Tracked { d with running := d.running.erase t, leaving := d.leaving ++ [t] } := by
  refine ⟨?_, h.current, h.waiting, h.keys, h.once, h.numbered,
    List.erase_sublist.trans h.running, h.stopped, h.resumed⟩
  have hcounted := h.counted
  have hlen := List.length_erase_add_one ht
  simp only [List.length_append, List.length_singleton]
  omega

theorem Tracked.leave (h : Tracked d) (ht : t ∈ d.leaving) :
    Tracked { d with leaving := d.leaving.erase t, awaited := d.awaited - 1 } := by
  have hcounted := h.counted
  have hlen := List.length_erase_add_one ht
  refine ⟨by simp only; omega, h.current, h.waiting, h.keys, h.once, h.numbered, h.running,
    h.stopped, fun hr => ?_⟩
  -- a function that has still to count itself out is awaited
  have hzero := (settled_iff.mp (h.resumed hr)).2
  omega

theorem Tracked.stop (h : Tracked d) (hopen : d.stopped = false) :
    Tracked
      { d with
        stopped := true, current := [], armed := [], awaited := d.awaited - d.armed.length } := by
  have hsub : (d.started ++ d.called).Sublist (d.armed ++ (d.started ++ d.called)) :=
    List.sublist_append_right _ _
  refine ⟨?_, fun x hx => absurd hx (by simp), fun x hx => absurd hx (by simp), .nil,
    h.once.sublist hsub, fun x hx => h.numbered x (hsub.subset hx), h.running, fun _ => rfl,
    fun hr => absurd hr (h.not_resumed hopen)⟩
  have hcounted := h.counted
  simp only [List.length_nil]
  omega

/-- **Every step keeps track of the timers.** -/
theorem Tracked.step (h : Tracked d) (hs : d.step? e = some d') : Tracked d' := by
  cases h.moves hs with
  | ignore | stopAgain => exact h
  | replace hopen => exact h.replace hopen _
  | expire ht => exact h.expire ht
  | giveUp ht hpassed => exact h.giveUp ht hpassed
  | call ht hopen hcurrent => exact h.call ht hopen hcurrent
  | finish ht => exact h.finish ht
  | leave ht => exact h.leave ht
  | stop hopen => exact h.stop hopen
  | resume hsettled =>
      exact ⟨h.counted, h.current, h.waiting, h.keys, h.once, h.numbered, h.running, h.stopped,
        fun _ => hsettled⟩

/-! ## A schedule -/

theorem after_eq (hs : d.step? e = some d') : d.after e = d' := by
  rw [Debouncer.after, hs, Option.getD_some]

theorem Tracked.after (h : Tracked d) (e : Event) : Tracked (d.after e) := by
  unfold Debouncer.after
  cases hs : d.step? e with
  | none => exact h
  | some d' => exact h.step hs

/-- **Every schedule keeps track of the timers.** -/
theorem Tracked.run (h : Tracked d) (es : List Event) : Tracked (d.run es) := by
  induction es generalizing d with
  | nil => exact h
  | cons e es ih => exact ih (h.after e)

/-- What every move at an event of the schedule keeps, the schedule keeps. -/
theorem Tracked.run_keeps {P : Debouncer → Prop} (h : Tracked d) (hP : P d) {es : List Event}
    (hkeeps : ∀ e ∈ es, ∀ x x', Tracked x → P x → Moves x e x' → P x') : P (d.run es) := by
  induction es generalizing d with
  | nil => exact hP
  | cons e es ih =>
      have hafter : P (d.after e) := by
        unfold Debouncer.after
        cases hs : d.step? e with
        | none => exact hP
        | some d' => exact hkeeps e List.mem_cons_self d d' h hP (h.moves hs)
      exact ih (h.after e) hafter fun e' he' => hkeeps e' (List.mem_cons_of_mem _ he')

theorem run_append (d : Debouncer) (es es' : List Event) :
    d.run (es ++ es') = (d.run es).run es' := List.foldl_append

/-! ## Which callbacks are called -/

/-- Whether an event takes the lock to put an end to what waits for a key. -/
def Event.disturbs (key : Text) : Event → Bool
  | .trigger k => k == key
  | .stop => true
  | _ => false

/-- Timers are only added to those that were called, and numbers are not used again. -/
theorem Tracked.grows (h : Tracked d) (es : List Event) :
    d.called ⊆ (d.run es).called ∧ d.count ≤ (d.run es).count := by
  refine h.run_keeps (P := fun x => d.called ⊆ x.called ∧ d.count ≤ x.count)
    ⟨List.Subset.refl _, Nat.le_refl _⟩ ?_
  intro e _ x x' _ hx hmove
  cases hmove with
  | replace => exact ⟨hx.1, Nat.le_succ_of_le hx.2⟩
  | call => exact ⟨List.Subset.trans hx.1 (List.subset_append_left _ _), hx.2⟩
  | ignore | stopAgain | expire | giveUp | finish | leave | stop | resume => exact hx

/-- Whether the time of a timer is over: it was armed, and does not count for its key any more. -/
def Passed (t : Timer) (d : Debouncer) : Prop := t.number < d.count ∧ t ∉ d.current

/-- A timer whose time is over does not come back, and its callback is not called any more. -/
theorem Tracked.passed_run (h : Tracked d) (hpassed : Passed t d) (es : List Event) :
    Passed t (d.run es) ∧ (t ∈ (d.run es).called → t ∈ d.called) := by
  refine h.run_keeps (P := fun x => Passed t x ∧ (t ∈ x.called → t ∈ d.called)) ⟨hpassed, id⟩ ?_
  rintro e _ x x' _ ⟨⟨hold, hout⟩, hcalled⟩ hmove
  cases hmove with
  | replace =>
      refine ⟨⟨Nat.lt_succ_of_lt hold, fun hmem => ?_⟩, hcalled⟩
      rcases List.mem_append.mp hmem with hmem | hmem
      · exact hout (mem_others.mp hmem).1
      · rw [List.mem_singleton.mp hmem] at hold
        exact Nat.lt_irrefl _ hold
  | call ht hopen hcurrent =>
      refine ⟨⟨hold, fun hmem => hout (mem_others.mp hmem).1⟩, fun hmem => ?_⟩
      rcases List.mem_append.mp hmem with hmem | hmem
      · exact hcalled hmem
      · rw [List.mem_singleton.mp hmem] at hout
        exact absurd hcurrent hout
  | stop => exact ⟨⟨hold, by simp⟩, hcalled⟩
  | ignore | stopAgain | expire | giveUp | finish | leave | resume => exact ⟨⟨hold, hout⟩, hcalled⟩

/-- A trigger, and stopping, are always possible. -/
theorem exists_step?_of_disturbs {key : Text} (he : e.disturbs key = true) :
    ∃ d', d.step? e = some d' := by
  cases e with
  | trigger key =>
      simp only [step?]
      split
      · exact ⟨_, rfl⟩
      · split <;> exact ⟨_, rfl⟩
  | stop =>
      simp only [step?]
      split <;> exact ⟨_, rfl⟩
  | expire _ | enter _ | finish _ | leave _ | resume => exact absurd he (by simp [Event.disturbs])

/-- A trigger for its key, or stopping, ends the time of a timer. -/
theorem Tracked.disturbed (h : Tracked d) (hold : t.number < d.count)
    (he : e.disturbs t.key = true) :
    Passed t (d.after e) ∧ (d.after e).called = d.called := by
  obtain ⟨d', hs⟩ := exists_step?_of_disturbs (d := d) he
  rw [after_eq hs]
  cases h.moves hs with
  | ignore hstopped | stopAgain hstopped => exact ⟨⟨hold, by simp [h.stopped hstopped]⟩, rfl⟩
  | @replace key hopen =>
      have hkey : t.key = key := (beq_iff_eq.mp he).symm
      refine ⟨⟨Nat.lt_succ_of_lt hold, fun hmem => ?_⟩, rfl⟩
      rcases List.mem_append.mp hmem with hmem | hmem
      · exact (mem_others.mp hmem).2 hkey
      · rw [List.mem_singleton.mp hmem] at hold
        exact Nat.lt_irrefl _ hold
  | stop hopen => exact ⟨⟨hold, by simp⟩, rfl⟩
  | expire | giveUp | call | finish | leave | resume => exact absurd he (by simp [Event.disturbs])

/-- **A callback that was overtaken is never called.** -/
theorem Tracked.overtaken (h : Tracked d) (hold : t.number < d.count) (hnot : t ∉ d.called)
    (he : e.disturbs t.key = true) (later : List Event) : t ∉ ((d.after e).run later).called := by
  intro hcalled
  obtain ⟨hpassed, hsame⟩ := h.disturbed hold he
  exact hnot (hsame ▸ ((h.after e).passed_run hpassed later).2 hcalled)

/-- A timer that nothing disturbs stays the one that counts until its callback is called. -/
theorem Tracked.due_run (h : Tracked d) (hdue : t ∈ d.current) {es : List Event}
    (hes : ∀ e ∈ es, e.disturbs t.key = false) :
    t ∈ (d.run es).current ∨ t ∈ (d.run es).called := by
  refine h.run_keeps (P := fun x => t ∈ x.current ∨ t ∈ x.called) (.inl hdue) ?_
  intro e he x x' hx hdue hmove
  have hcalm := hes e he
  cases hmove with
  | @replace key hopen =>
      have hkey : t.key ≠ key := fun heq => by simp [Event.disturbs, heq] at hcalm
      exact hdue.imp (fun hc => List.mem_append_left _ (mem_others.mpr ⟨hc, hkey⟩)) id
  | @call u hu hopen hcurrent =>
      rcases hdue with hdue | hcalled
      · by_cases hkey : t.key = u.key
        · exact .inr (by simp [hx.key_unique hdue hcurrent hkey])
        · exact .inl (mem_others.mpr ⟨hdue, hkey⟩)
      · exact .inr (List.mem_append_left _ hcalled)
  | stop | stopAgain => exact absurd hcalm (by simp [Event.disturbs])
  | ignore | expire | giveUp | finish | leave | resume => exact hdue

/-- The function of a timer calls back if its timer counts when it gets the lock. -/
theorem Tracked.called_enter_iff (h : Tracked d) (ht : t ∈ d.started) :
    t ∈ (d.after (.enter t)).called ↔ t ∈ d.current := by
  have hpossible : ∃ d', d.step? (.enter t) = some d' := by
    simp only [step?, if_pos ht]
    split <;> exact ⟨_, rfl⟩
  obtain ⟨d', hs⟩ := hpossible
  rw [after_eq hs]
  cases h.moves hs with
  | giveUp _ hpassed => exact ⟨fun hc => absurd hc (h.not_called ht), fun hc => absurd hc hpassed⟩
  | call _ _ hcurrent => exact ⟨fun _ => hcurrent, fun _ => by simp⟩

/-- A trigger arms a new timer, which counts for its key, and leaves alone what runs. -/
theorem Tracked.armed_after (h : Tracked d) (hopen : d.stopped = false) (key : Text) :
    ⟨d.count, key⟩ ∈ (d.after (.trigger key)).current
      ∧ d.count < (d.after (.trigger key)).count
      ∧ (d.after (.trigger key)).running = d.running
      ∧ (d.after (.trigger key)).stopped = false := by
  have hdisturbs : (Event.trigger key).disturbs key = true := by simp [Event.disturbs]
  obtain ⟨d', hs⟩ := exists_step?_of_disturbs (d := d) hdisturbs
  rw [after_eq hs]
  cases h.moves hs with
  | ignore hstopped => exact absurd hstopped (by simp [hopen])
  | replace => exact ⟨by simp, Nat.lt_succ_self _, rfl, hopen⟩

/-- **A callback is called unless it is overtaken**: when the function of a trigger's timer gets the
lock, it calls back if and only if neither a trigger for the same key nor stopping came first. -/
theorem Tracked.called_iff_undisturbed (h : Tracked d) (hopen : d.stopped = false) (key : Text)
    (later : List Event)
    (hwaits : ⟨d.count, key⟩ ∈ ((d.after (.trigger key)).run later).started) :
    ⟨d.count, key⟩ ∈ (((d.after (.trigger key)).run later).after (.enter ⟨d.count, key⟩)).called
      ↔ ∀ e ∈ later, e.disturbs key = false := by
  obtain ⟨hcounts, hnumber, -⟩ := h.armed_after hopen key
  have hx := h.after (.trigger key)
  rw [(hx.run later).called_enter_iff hwaits]
  constructor
  · intro hcurrent e he
    -- what came between took the timer out of those that count
    by_contra hdisturbs
    obtain ⟨before, behind, rfl⟩ := List.append_of_mem he
    have hbefore := hx.run before
    have hold := Nat.lt_of_lt_of_le hnumber (hx.grows before).2
    obtain ⟨hpassed, -⟩ := hbefore.disturbed (t := ⟨d.count, key⟩) hold (by simpa using hdisturbs)
    rw [run_append] at hcurrent
    exact ((hbefore.after e).passed_run hpassed behind).1.2 hcurrent
  · intro hes
    exact (hx.due_run hcounts hes).resolve_right ((hx.run later).not_called hwaits)

/-! ## The end -/

/-- A stopped debouncer has no timer armed. -/
theorem Tracked.unarmed (h : Tracked d) (hstopped : d.stopped = true) : d.armed = [] := by
  refine List.eq_nil_iff_forall_not_mem.mpr fun t ht => ?_
  have hmem := h.current t ht
  rw [h.stopped hstopped] at hmem
  exact absurd hmem (by simp)

/-- Stopping has nothing to wait for exactly when all functions have counted themselves out. -/
theorem Tracked.settled_iff_ended (h : Tracked d) (hstopped : d.stopped = true) :
    d.isSettled = true ↔ d.started = [] ∧ d.running = [] ∧ d.leaving = [] := by
  have hcounted := h.counted
  rw [h.unarmed hstopped, List.length_nil] at hcounted
  rw [settled_iff]
  constructor
  · rintro ⟨-, hzero⟩
    exact ⟨List.length_eq_zero_iff.mp (by omega), List.length_eq_zero_iff.mp (by omega),
      List.length_eq_zero_iff.mp (by omega)⟩
  · rintro ⟨hstarted, hrunning, hleaving⟩
    rw [hstarted, hrunning, hleaving] at hcounted
    exact ⟨hstopped, hcounted⟩

/-- **After the caller that stopped the debouncer has gone on, nothing happens.** -/
theorem Tracked.resumed_run (h : Tracked d) (hresumed : d.resumed = true) (es : List Event) :
    d.run es = d := by
  have hstopped := (settled_iff.mp (h.resumed hresumed)).1
  have harmed := h.unarmed hstopped
  obtain ⟨hstarted, hrunning, hleaving⟩ := (h.settled_iff_ended hstopped).mp (h.resumed hresumed)
  refine h.run_keeps (P := fun x => x = d) rfl ?_
  rintro e _ x x' _ rfl hmove
  cases hmove with
  | ignore | stopAgain => rfl
  | resume => simp [← hresumed]
  | replace hopen | stop hopen => exact absurd hstopped (by simp [hopen])
  | expire ht => exact absurd ht (by simp [harmed])
  | giveUp ht | call ht => exact absurd ht (by simp [hstarted])
  | finish ht => exact absurd ht (by simp [hrunning])
  | leave ht => exact absurd ht (by simp [hleaving])

/-- The count does not fall below zero while timers are disarmed one after the other. -/
theorem Tracked.disarm_nonneg (h : Tracked d) (ts : List Timer) :
    0 ≤ (ts.foldl disarm d).awaited := by
  have hcounted := h.counted
  rw [foldl_disarm_eq ts h.armed_nodup]
  simp only
  omega

/-! ## The guarantee -/

/-- **A debouncer calls back at most once for a trigger, and never after it has ended.** After every
schedule of triggers, timers, functions and those who stop it:

* as many functions are awaited as timers are armed and functions have been started and have not
  ended, and the count stays above zero also between the timers that a trigger or stopping disarms;
* no callback is called twice, and none is called once a trigger for its key or stopping has come
  before its function; it is called, when its function gets the lock, if nothing of that came first;
* stopping waits exactly until all functions have ended, and after that nothing changes any more.
-/
theorem debouncer_calls_once (es : List Event) :
    let d := run {} es
    d.awaited = d.armed.length + d.started.length + d.running.length + d.leaving.length
      ∧ (∀ ts : List Timer, 0 ≤ (ts.foldl disarm d).awaited)
      ∧ d.called.Nodup
      ∧ (∀ t e later, t.number < d.count → t ∉ d.called → e.disturbs t.key = true →
          t ∉ ((d.after e).run later).called)
      ∧ (∀ key later, d.stopped = false →
          ⟨d.count, key⟩ ∈ ((d.after (.trigger key)).run later).started →
          (⟨d.count, key⟩ ∈
              (((d.after (.trigger key)).run later).after (.enter ⟨d.count, key⟩)).called
            ↔ ∀ e ∈ later, e.disturbs key = false))
      ∧ (d.stopped = true →
          (d.isSettled = true ↔ d.started = [] ∧ d.running = [] ∧ d.leaving = []))
      ∧ (d.resumed = true → d.running = [] ∧ ∀ later, d.run later = d) := by
  intro d
  have h : Tracked d := tracked_start.run es
  refine ⟨h.counted, h.disarm_nonneg, h.called_nodup, ?_, ?_, h.settled_iff_ended, ?_⟩
  · exact fun t e later hold hnot he => h.overtaken hold hnot he later
  · exact fun key later hopen hwaits => h.called_iff_undisturbed hopen key later hwaits
  · intro hresumed
    have hsettled := h.resumed hresumed
    have hended := (h.settled_iff_ended (settled_iff.mp hsettled).1).mp hsettled
    exact ⟨hended.2.1, h.resumed_run hresumed⟩

/-- Two triggers for one key, the first of whose timers has expired when the second comes. -/
def overlapping : List Event :=
  [.trigger "a", .expire ⟨0, "a"⟩, .trigger "a", .enter ⟨0, "a"⟩, .expire ⟨1, "a"⟩]

/-- The debouncer is stopped while one callback runs and one function waits for the lock. -/
def interrupted : List Event :=
  overlapping ++ [.enter ⟨1, "a"⟩, .trigger "b", .expire ⟨2, "b"⟩, .stop, .enter ⟨2, "b"⟩,
    .leave ⟨0, "a"⟩, .finish ⟨1, "a"⟩, .leave ⟨2, "b"⟩, .leave ⟨1, "a"⟩, .resume]

/-- Of three functions one was overtaken by a trigger and one by stopping. The third is called, and
stopping waits for all of them. -/
theorem interrupted_called_once :
    let d := run {} interrupted
    d.called = [⟨1, "a"⟩]
      ∧ d.awaited = 0
      ∧ (∀ later, ⟨0, "a"⟩ ∉ ((run {} overlapping).run later).called)
      ∧ ⟨1, "a"⟩ ∈ ((run {} overlapping).after (.enter ⟨1, "a"⟩)).called
      ∧ d.running = []
      ∧ ∀ later, d.run later = d := by
  intro d
  obtain ⟨-, -, -, hovertaken, hcalled, -, -⟩ :=
    debouncer_calls_once [.trigger "a", .expire ⟨0, "a"⟩]
  obtain ⟨-, -, -, -, -, -, hend⟩ := debouncer_calls_once interrupted
  let between : List Event := [.enter ⟨0, "a"⟩, .expire ⟨1, "a"⟩]
  have hfirst : ∀ later, ⟨0, "a"⟩ ∉ ((run {} overlapping).run later).called := fun later =>
    hovertaken ⟨0, "a"⟩ (.trigger "a") (between ++ later) (by decide) (by decide) (by decide)
  have hsecond : ⟨1, "a"⟩ ∈ ((run {} overlapping).after (.enter ⟨1, "a"⟩)).called :=
    (hcalled "a" between (by decide) (by decide)).mpr (by decide)
  obtain ⟨hrunning, hsame⟩ := hend (by decide)
  exact ⟨by decide, by decide, hfirst, hsecond, hrunning, hsame⟩

end MathMarkup.Watch.Debouncer
