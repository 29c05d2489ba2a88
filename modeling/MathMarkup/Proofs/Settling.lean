import MathMarkup.Proofs.Debouncing
import MathMarkup.Watch.Settling

/-!
# What is left beside a source

The timer of a source leaves the debouncer before its callback runs, so a second callback may start
while the first one still converts what it has read. Each of them puts its product in place and then
removes the file of the other kind. What stands beside the source when all is quiet is decided by
the last product that was put in place, whichever callback that was, and by those who still had to
remove a file at that moment.

`due` is what a file will be once these have removed what they are about to remove. It changes only
when a product is put in place.
-/

namespace MathMarkup.Watch

open Debouncer (Tracked Moves)

/-- Whether a callback is about to remove the file of a kind. -/
def Job.removes (report : Bool) (j : Job) : Bool :=
  match j.stage with
  | .hasPlaced p => p.isReport != report
  | _ => false

/-- Whether a callback has still to put in place what comes out of the source as it is. -/
def Job.Follows (convert : Text → Product) (source : Text) (j : Job) : Prop :=
  match j.stage with
  | .begun => True
  | .hasRead text => text = source
  | .hasConverted p => p = convert source
  | .hasPlaced _ => False

/-- A product that was put in place, and whether a callback was about to remove the file it went
to. -/
structure Placement where
  product : Product
  contested : Bool
deriving DecidableEq, Repr

/-- What a placement leaves of the file of a kind if it is the last one. -/
def Placement.leaves (pl : Placement) (report : Bool) : Option Text :=
  if pl.product.isReport = report ∧ pl.contested = false then some pl.product.content else none

namespace Scene

variable {convert : Text → Product} {s s' : Scene} {e : Event} {t : Timer} {p : Product}

/-- The file of a kind. -/
def file (s : Scene) (report : Bool) : Option Text := if report then s.report else s.output

/-- Whether a product stands beside the source, and nothing of the other kind. -/
def Shows (s : Scene) (p : Product) : Prop :=
  s.file p.isReport = some p.content ∧ s.file (!p.isReport) = none

/-- What the file of a kind will be when those have removed it who are about to. -/
def due (s : Scene) (report : Bool) : Option Text :=
  if s.jobs.any (Job.removes report) then none else s.file report

/-- The product that is put in place at a moment. -/
def placement? (s : Scene) : Event → Option Placement
  | .advance t =>
    match s.jobs.find? fun j => j.timer == t with
    | some ⟨_, .hasConverted p⟩ => some ⟨p, s.jobs.any (Job.removes p.isReport)⟩
    | _ => none
  | _ => none

/-- The products that a schedule puts in place, in order. -/
def placements (convert : Text → Product) : Scene → List Event → List Placement
  | _, [] => []
  | s, e :: es => (s.placement? e).toList ++ placements convert (s.after convert e) es

/-- What is written to the source at a moment. -/
def Event.written? : Event → Option Text
  | .write text => some text
  | _ => none

/-- What a schedule writes to the source last. -/
def lastWritten (es : List Event) : Option Text := (es.filterMap Event.written?).getLast?

/-! ## What a step can do -/

/-- The callbacks of a scene are those that its debouncer lets run. -/
structure Coherent (s : Scene) : Prop where
  tracked : s.debouncer.Tracked
  running : s.debouncer.stopped = false
  timers : s.jobs.map Job.timer = s.debouncer.running

theorem Coherent.timers_nodup (h : Coherent s) : (s.jobs.map Job.timer).Nodup := by
  rw [h.timers]
  exact h.tracked.running.nodup h.tracked.called_nodup

/-- A timer has one callback. -/
theorem Coherent.job_unique (h : Coherent s) {j k : Job} (hj : j ∈ s.jobs) (hk : k ∈ s.jobs)
    (heq : j.timer = k.timer) : j = k :=
  List.inj_on_of_nodup_map h.timers_nodup hj hk heq

/-- What becomes of a scene at a moment. -/
inductive Turns (convert : Text → Product) (s : Scene) : Event → Scene → Prop
  /-- What is not possible does not happen. -/
  | stay {e : Event} (hs : s.step? convert e = none) : Turns convert s e s
  | write {text : Text} : Turns convert s (.write text) { s with source := text, unnoticed := true }
  | notice {d : Debouncer} (hd : d.current ≠ []) :
      Turns convert s .notice { s with debouncer := d, unnoticed := false }
  | expire {t : Timer} {d : Debouncer} (hd : d.current = s.debouncer.current) :
      Turns convert s (.expire t) { s with debouncer := d }
  /-- A function finds that its timer was replaced. -/
  | giveUp {t : Timer} {d : Debouncer} (hd : d.current = s.debouncer.current) :
      Turns convert s (.enter t) { s with debouncer := d }
  | call {t : Timer} {d : Debouncer} :
      Turns convert s (.enter t) { s with debouncer := d, jobs := s.jobs ++ [{ timer := t }] }
  | read {t : Timer} (hj : ⟨t, .begun⟩ ∈ s.jobs) :
      Turns convert s (.advance t) (s.moveTo t (.hasRead s.source))
  | convert {t : Timer} {text : Text} (hj : ⟨t, .hasRead text⟩ ∈ s.jobs) :
      Turns convert s (.advance t) (s.moveTo t (.hasConverted (convert text)))
  | place {t : Timer} {p : Product} (hj : ⟨t, .hasConverted p⟩ ∈ s.jobs) :
      Turns convert s (.advance t) ((s.withProduct p).moveTo t (.hasPlaced p))
  | clear {t : Timer} {p : Product} {d : Debouncer} (hj : ⟨t, .hasPlaced p⟩ ∈ s.jobs)
      (hd : d.current = s.debouncer.current) :
      Turns convert s (.advance t)
        { s.withoutOther p with jobs := s.jobs.filter (·.timer != t), debouncer := d }

theorem finish_leave {d : Debouncer} (ht : t ∈ d.running) :
    (d.run [.finish t, .leave t]).current = d.current
      ∧ (d.run [.finish t, .leave t]).running = d.running.erase t
      ∧ (d.run [.finish t, .leave t]).stopped = d.stopped := by
  simp [Debouncer.run, Debouncer.after, Debouncer.step?, ht]

@[simp] theorem moveTo_timers (s : Scene) (t : Timer) (stage : Stage) :
    (s.moveTo t stage).jobs.map Job.timer = s.jobs.map Job.timer := by
  rw [moveTo, List.map_map]
  exact List.map_congr_left fun j _ => by simp only [Function.comp_apply]; split <;> rfl

theorem Coherent.find? (h : Coherent s) {stage : Stage} (hj : ⟨t, stage⟩ ∈ s.jobs) :
    s.jobs.find? (fun j => j.timer == t) = some ⟨t, stage⟩ :=
  Debouncer.find?_key Job.timer h.timers_nodup hj

/-! The files are all that a product in place, or a file removed, changes. -/

@[simp] theorem withProduct_jobs (s : Scene) (p : Product) : (s.withProduct p).jobs = s.jobs := by
  unfold withProduct; split <;> rfl

@[simp] theorem withProduct_debouncer (s : Scene) (p : Product) :
    (s.withProduct p).debouncer = s.debouncer := by
  unfold withProduct; split <;> rfl

@[simp] theorem withProduct_source (s : Scene) (p : Product) :
    (s.withProduct p).source = s.source := by
  unfold withProduct; split <;> rfl

@[simp] theorem withProduct_unnoticed (s : Scene) (p : Product) :
    (s.withProduct p).unnoticed = s.unnoticed := by
  unfold withProduct; split <;> rfl

theorem withProduct_file (s : Scene) (p : Product) (report : Bool) :
    (s.withProduct p).file report =
      if p.isReport = report then some p.content else s.file report := by
  cases hp : p.isReport <;> cases report <;> simp [withProduct, file, hp]

@[simp] theorem withoutOther_jobs (s : Scene) (p : Product) : (s.withoutOther p).jobs = s.jobs := by
  unfold withoutOther; split <;> rfl

@[simp] theorem withoutOther_debouncer (s : Scene) (p : Product) :
    (s.withoutOther p).debouncer = s.debouncer := by
  unfold withoutOther; split <;> rfl

@[simp] theorem withoutOther_source (s : Scene) (p : Product) :
    (s.withoutOther p).source = s.source := by
  unfold withoutOther; split <;> rfl

@[simp] theorem withoutOther_unnoticed (s : Scene) (p : Product) :
    (s.withoutOther p).unnoticed = s.unnoticed := by
  unfold withoutOther; split <;> rfl

theorem withoutOther_file (s : Scene) (p : Product) (report : Bool) :
    (s.withoutOther p).file report = if p.isReport = report then s.file report else none := by
  cases hp : p.isReport <;> cases report <;> simp [withoutOther, file, hp]

/-- What a step can do when a callback goes on, which depends on its stage alone. -/
theorem Coherent.advance (h : Coherent s) {j : Job} (hj : j ∈ s.jobs) :
    Turns convert s (.advance j.timer) (s.advance convert j) ∧ Coherent (s.advance convert j) := by
  obtain ⟨t, stage⟩ := j
  cases stage with
  | begun => exact ⟨.read hj, h.tracked, h.running, (moveTo_timers ..).trans h.timers⟩
  | hasRead text => exact ⟨.convert hj, h.tracked, h.running, (moveTo_timers ..).trans h.timers⟩
  | hasConverted p =>
      have htimers := moveTo_timers (s.withProduct p) t (.hasPlaced p)
      rw [withProduct_jobs, h.timers, ← withProduct_debouncer s p] at htimers
      exact ⟨.place hj, withProduct_debouncer s p ▸ h.tracked,
        withProduct_debouncer s p ▸ h.running, htimers⟩
  | hasPlaced p =>
      have ht : t ∈ s.debouncer.running := h.timers ▸ List.mem_map_of_mem hj
      obtain ⟨hcurrent, hrunning, hstopped⟩ := finish_leave ht
      have hstep : s.advance convert ⟨t, .hasPlaced p⟩ =
          { s.withoutOther p with
            jobs := s.jobs.filter (·.timer != t)
            debouncer := s.debouncer.run [.finish t, .leave t] } := by
        simp [Scene.advance]
      rw [hstep]
      refine ⟨.clear hj hcurrent, h.tracked.run _, hstopped.trans h.running, ?_⟩
      -- the timers are distinct, so that one of them goes with the callback
      have hnodup : s.debouncer.running.Nodup := h.timers ▸ h.timers_nodup
      rw [hrunning, hnodup.erase_eq_filter, ← h.timers, List.filter_map]
      rfl

/-- **What a step can do**, and that it keeps the callbacks and the debouncer together. -/
theorem Coherent.step (h : Coherent s) (hs : s.step? convert e = some s') :
    Turns convert s e s' ∧ Coherent s' := by
  cases e with
  | write text =>
      cases hs
      exact ⟨.write, h.tracked, h.running, h.timers⟩
  | notice =>
      cases hs
      obtain ⟨hcounts, -, hrunning, hstopped⟩ := h.tracked.armed_after h.running key
      exact ⟨.notice (List.ne_nil_of_mem hcounts), h.tracked.after _, hstopped,
        h.timers.trans hrunning.symm⟩
  | expire t =>
      obtain ⟨d, hd, rfl⟩ := Option.map_eq_some_iff.mp hs
      have htracked := h.tracked.step hd
      cases h.tracked.moves hd with
      | expire => exact ⟨.expire rfl, htracked, h.running, h.timers⟩
  | enter t =>
      obtain ⟨d, hd, rfl⟩ := Option.map_eq_some_iff.mp hs
      have htracked := h.tracked.step hd
      cases h.tracked.moves hd with
      | giveUp ht hpassed =>
          have hidle : t ∉ s.debouncer.running := fun hmem =>
            h.tracked.not_called ht (h.tracked.running.subset hmem)
          rw [if_neg hidle]
          exact ⟨.giveUp rfl, htracked, h.running, h.timers⟩
      | call ht hopen hcurrent =>
          rw [if_pos (by simp)]
          refine ⟨.call, htracked, h.running, ?_⟩
          rw [List.map_append, h.timers]
          rfl
  | advance t =>
      obtain ⟨j, hfound, rfl⟩ := Option.map_eq_some_iff.mp hs
      have htimer : j.timer = t := by simpa using List.find?_some hfound
      exact htimer ▸ h.advance (List.mem_of_find?_eq_some hfound)

theorem Coherent.after (h : Coherent s) (convert : Text → Product) (e : Event) :
    Turns convert s e (s.after convert e) ∧ Coherent (s.after convert e) := by
  unfold Scene.after
  cases hs : s.step? convert e with
  | none => exact ⟨.stay hs, h⟩
  | some s' => exact h.step hs

/-! ## A schedule -/

/-- The scenes that a schedule passes, the first and the last included. -/
def moments (convert : Text → Product) (s : Scene) (es : List Event) : List Scene :=
  es.scanl (Scene.after convert) s

theorem mem_moments_cons {es : List Event} {x : Scene}
    (hx : x ∈ (s.after convert e).moments convert es) : x ∈ s.moments convert (e :: es) := by
  rw [moments, List.scanl_cons]
  exact List.mem_cons_of_mem _ hx

/-- What every turn keeps of a scene and of the products put in place so far, the schedule keeps. -/
theorem Coherent.run_keeps {P : Scene → List Placement → Prop} (h : Coherent s) {es : List Event}
    (done : List Placement) (hP : P s done)
    (hkeeps : ∀ x ∈ s.moments convert es, ∀ e x' done, Coherent x → Turns convert x e x' →
      P x done → P x' (done ++ (x.placement? e).toList)) :
    P (s.run convert es) (done ++ s.placements convert es) := by
  induction es generalizing s done with
  | nil => simpa [run, placements] using hP
  | cons e es ih =>
      obtain ⟨hturn, hcoherent⟩ := h.after convert e
      have hfirst := hkeeps s (by simp [moments]) e _ done h hturn hP
      rw [placements, ← List.append_assoc]
      exact ih hcoherent _ hfirst fun x hx => hkeeps x (mem_moments_cons hx)

theorem Coherent.run (h : Coherent s) (es : List Event) : Coherent (s.run convert es) := by
  induction es generalizing s with
  | nil => exact h
  | cons e es ih => exact ih (h.after convert e).2

/-! ## What is put in place -/

/-- The callbacks when one of them has come to a stage: that one, and the others as they were. -/
theorem mem_moveTo {old stage : Stage} (hj : ⟨t, old⟩ ∈ s.jobs) {k : Job} :
    k ∈ (s.moveTo t stage).jobs ↔ k = ⟨t, stage⟩ ∨ k ∈ s.jobs ∧ k.timer ≠ t := by
  simp only [moveTo, List.mem_map]
  constructor
  · rintro ⟨j, hmem, rfl⟩
    by_cases htimer : j.timer = t
    · exact .inl (by simp [htimer])
    · exact .inr (by simp [htimer, hmem])
  · rintro (rfl | ⟨hmem, htimer⟩)
    · exact ⟨⟨t, old⟩, hj, by simp⟩
    · exact ⟨k, hmem, by simp [htimer]⟩

/-- Whether a callback other than that of a timer is about to remove the file of a kind. -/
def threatened (s : Scene) (t : Timer) (report : Bool) : Bool :=
  s.jobs.any fun j => j.timer != t && j.removes report

theorem removes_moveTo {old : Stage} (hj : ⟨t, old⟩ ∈ s.jobs) (stage : Stage) (report : Bool) :
    (s.moveTo t stage).jobs.any (Job.removes report) =
      (Job.removes report ⟨t, stage⟩ || s.threatened t report) := by
  rw [Bool.eq_iff_iff, Bool.or_eq_true, threatened, List.any_eq_true, List.any_eq_true]
  constructor
  · rintro ⟨j, hmem, hremoves⟩
    rcases (mem_moveTo hj).mp hmem with rfl | ⟨hmem, htimer⟩
    · exact .inl hremoves
    · exact .inr ⟨j, hmem, by simp [htimer, hremoves]⟩
  · rintro (hremoves | ⟨j, hmem, hremoves⟩)
    · exact ⟨_, (mem_moveTo hj).mpr (.inl rfl), hremoves⟩
    · have hboth : j.timer ≠ t ∧ j.removes report = true := by simpa using hremoves
      exact ⟨j, (mem_moveTo hj).mpr (.inr ⟨hmem, hboth.1⟩), hboth.2⟩

theorem Coherent.moveTo_self (h : Coherent s) {stage : Stage} (hj : ⟨t, stage⟩ ∈ s.jobs) :
    s.moveTo t stage = s := by
  have hsame : s.jobs.map (fun j => if j.timer = t then { j with stage } else j) = s.jobs := by
    refine (List.map_congr_left fun j hmem => ?_).trans (List.map_id' s.jobs)
    by_cases htimer : j.timer = t
    · rw [if_pos htimer, h.job_unique hmem hj htimer]
    · rw [if_neg htimer]
  rw [moveTo, hsame]

theorem Coherent.removes_eq (h : Coherent s) {stage : Stage} (hj : ⟨t, stage⟩ ∈ s.jobs)
    (report : Bool) :
    s.jobs.any (Job.removes report) = (Job.removes report ⟨t, stage⟩ || s.threatened t report) := by
  have hmoved := removes_moveTo hj stage report
  rwa [h.moveTo_self hj] at hmoved

theorem Coherent.placement?_advance (h : Coherent s) {stage : Stage} (hj : ⟨t, stage⟩ ∈ s.jobs) :
    s.placement? (.advance t) =
      match stage with
      | .hasConverted p => some ⟨p, s.threatened t p.isReport⟩
      | _ => none := by
  rw [placement?, h.find? hj]
  cases stage with
  | begun | hasRead _ | hasPlaced _ => rfl
  | hasConverted p =>
      simp only [h.removes_eq hj]
      rfl

/-- What is not possible puts nothing in place. -/
theorem placement?_eq_none (hs : s.step? convert e = none) : s.placement? e = none := by
  cases e with
  | write _ | notice | expire _ | enter _ => rfl
  | advance t =>
      have hnone : s.jobs.find? (fun j => j.timer == t) = none := Option.map_eq_none_iff.mp hs
      rw [placement?, hnone]

/-- **What a file will be changes only when a product is put in place.** -/
theorem Coherent.due_turn (h : Coherent s) (hturn : Turns convert s e s') (report : Bool) :
    s'.due report = (s.placement? e).elim (s.due report) (·.leaves report) := by
  cases hturn with
  | stay hs => rw [placement?_eq_none hs]; rfl
  | write | notice | expire | giveUp => rfl
  | call => simp [placement?, due, file, Job.removes]
  | read hj | convert hj =>
      rw [h.placement?_advance hj, due, removes_moveTo hj, due, h.removes_eq hj]
      rfl
  | @place t p hj =>
      have hj' : ⟨t, .hasConverted p⟩ ∈ (s.withProduct p).jobs := by simpa using hj
      have hthreat : (s.withProduct p).threatened t = s.threatened t := by
        funext r
        rw [threatened, threatened, withProduct_jobs]
      have hfile : ((s.withProduct p).moveTo t (.hasPlaced p)).file report =
          (s.withProduct p).file report := rfl
      rw [h.placement?_advance hj, due, removes_moveTo hj', hfile, withProduct_file, hthreat]
      -- its own callback is about to remove the file of the other kind
      by_cases hkind : p.isReport = report
      · subst hkind
        cases hcontested : s.threatened t p.isReport <;>
          simp [Placement.leaves, Job.removes, hcontested]
      · simp [Placement.leaves, Job.removes, hkind]
  | @clear t p d hj hd =>
      have hrest :
          (s.jobs.filter (·.timer != t)).any (Job.removes report) = s.threatened t report := by
        rw [List.any_filter]
        rfl
      rw [h.placement?_advance hj, due, due, h.removes_eq hj]
      simp only [hrest]
      have hfile : file { s.withoutOther p with
          jobs := s.jobs.filter (·.timer != t), debouncer := d } report =
            (s.withoutOther p).file report := rfl
      rw [hfile, withoutOther_file]
      by_cases hkind : p.isReport = report
      · simp [Job.removes, hkind]
      · simp [Job.removes, hkind]

/-- **The last product that a schedule puts in place decides what the files will be.** -/
theorem Coherent.due_run (h : Coherent s) (es : List Event) (report : Bool) :
    (s.run convert es).due report =
      (s.placements convert es).getLast?.elim (s.due report) (·.leaves report) := by
  refine h.run_keeps (P := fun x done =>
    x.due report = done.getLast?.elim (s.due report) (·.leaves report)) [] rfl ?_
  intro x _ e x' done hx hturn hdue
  rw [hx.due_turn hturn]
  cases x.placement? e with
  | none => simpa using hdue
  | some pl => simp

/-! ## What comes out of the last content -/

/-- Whether what comes out of the source as it is has still to be put in place: an event is owed, or
a timer counts, or a callback works on it. -/
def Pending (convert : Text → Product) (s : Scene) : Prop :=
  s.unnoticed = true ∨ s.debouncer.current ≠ [] ∨ ∃ j ∈ s.jobs, j.Follows convert s.source

/-- A callback that goes on still follows the source if its new stage does. -/
theorem Coherent.follows_moveTo (h : Coherent s) (convert : Text → Product) {old : Stage}
    (hj : ⟨t, old⟩ ∈ s.jobs) (stage : Stage)
    (hnext : Job.Follows convert s.source ⟨t, old⟩ → Job.Follows convert s.source ⟨t, stage⟩)
    (hfollows : ∃ j ∈ s.jobs, j.Follows convert s.source) :
    ∃ j ∈ (s.moveTo t stage).jobs, j.Follows convert s.source := by
  obtain ⟨j, hmem, hfollows⟩ := hfollows
  by_cases htimer : j.timer = t
  · rw [h.job_unique hmem hj htimer] at hfollows
    exact ⟨_, (mem_moveTo hj).mpr (.inl rfl), hnext hfollows⟩
  · exact ⟨j, (mem_moveTo hj).mpr (.inr ⟨hmem, htimer⟩), hfollows⟩

/-- **What is pending is put in place.** -/
theorem Coherent.pending_turn (h : Coherent s) (hturn : Turns convert s e s')
    (hpending : Pending convert s) :
    Pending convert s'
      ∨ ∃ t, e = .advance t ∧ ⟨t, .hasConverted (convert s.source)⟩ ∈ s.jobs
          ∧ s' = (s.withProduct (convert s.source)).moveTo t (.hasPlaced (convert s.source)) := by
  cases hturn with
  | stay => exact .inl hpending
  | write => exact .inl (.inl rfl)
  | notice hd => exact .inl (.inr (.inl hd))
  | expire hd | giveUp hd => exact .inl (hpending.imp id fun hrest => hrest.imp (hd ▸ ·) id)
  | @call t d => exact .inl (.inr (.inr ⟨{ timer := t }, by simp, trivial⟩))
  | read hj =>
      exact .inl (hpending.imp id fun hrest => hrest.imp id (h.follows_moveTo _ hj _ fun _ => rfl))
  | convert hj =>
      exact .inl (hpending.imp id fun hrest =>
        hrest.imp id (h.follows_moveTo _ hj _ (congrArg convert)))
  | @place t p hj =>
      by_cases hp : p = convert s.source
      · exact .inr ⟨t, rfl, hp ▸ hj, hp ▸ rfl⟩
      · have hfollows := h.follows_moveTo convert hj (.hasPlaced p) hp
        have hpending' := hpending.imp id fun hrest => hrest.imp id hfollows
        exact .inl (by simpa [Pending, moveTo] using hpending')
  | @clear t p d hj hd =>
      refine .inl (hpending.imp (by simp) fun hrest => hrest.imp (hd ▸ ·) ?_)
      rintro ⟨j, hmem, hfollows⟩
      have htimer : j.timer ≠ t := by
        intro htimer
        rw [h.job_unique hmem hj htimer] at hfollows
        exact hfollows
      exact ⟨j, by simp [hmem, htimer], by simpa using hfollows⟩

/-- Whether what came out of the source as it is was put in place last, without being contested, and
nothing has been read since. -/
def Placed (convert : Text → Product) (s : Scene) (done : List Placement) : Prop :=
  done.getLast? = some ⟨convert s.source, false⟩ ∧ ∀ j ∈ s.jobs, ∃ p, j.stage = .hasPlaced p

/-- A callback that works alone puts in place what is pending, and nothing comes after it before the
next event. -/
theorem Coherent.placed_turn (h : Coherent s) (hturn : Turns convert s e s')
    (halone : s.jobs.length ≤ 1) {done : List Placement}
    (hs : Pending convert s ∨ Placed convert s done) :
    Pending convert s' ∨ Placed convert s' (done ++ (s.placement? e).toList) := by
  rcases hs with hpending | ⟨hlast, hplaced⟩
  · rcases h.pending_turn hturn hpending with hpending | ⟨t, rfl, hj, rfl⟩
    · exact .inl hpending
    · have honly : s.jobs = [⟨t, .hasConverted (convert s.source)⟩] := by
        obtain ⟨j, hjobs⟩ := List.length_eq_one_iff.mp
          (Nat.le_antisymm halone (List.length_pos_of_mem hj))
        rw [hjobs] at hj ⊢
        rw [List.mem_singleton.mp hj]
      have hcontested : s.threatened t (convert s.source).isReport = false := by
        simp [threatened, honly]
      refine .inr ⟨?_, ?_⟩
      · simp [h.placement?_advance hj, hcontested, moveTo]
      · simp [moveTo, honly]
  · cases hturn with
    | stay hs => exact .inr (by simpa [placement?_eq_none hs] using ⟨hlast, hplaced⟩)
    | write => exact .inl (.inl rfl)
    | notice hd => exact .inl (.inr (.inl hd))
    | expire | giveUp => exact .inr ⟨by simpa [placement?] using hlast, hplaced⟩
    | @call t d => exact .inl (.inr (.inr ⟨{ timer := t }, by simp, trivial⟩))
    | read hj | convert hj | place hj =>
        obtain ⟨p, hp⟩ := hplaced _ hj
        exact absurd hp (by simp)
    | clear hj hd =>
        refine .inr ⟨?_, fun j hmem => hplaced j (List.mem_filter.mp hmem).1⟩
        simpa [h.placement?_advance hj] using hlast

/-! ## From the last content to the end -/

theorem Turns.source (hturn : Turns convert s e s') : s'.source = e.written?.getD s.source := by
  cases hturn with
  | stay hs =>
      cases e with
      | write text => exact absurd hs (by simp [step?])
      | notice | expire _ | enter _ | advance _ => rfl
  | write | notice | expire | giveUp | call | read | convert => rfl
  | place | clear => simp [moveTo, Event.written?]

/-- The source is what was written to it last. -/
theorem Coherent.source_run (h : Coherent s) (es : List Event) :
    (s.run convert es).source = (lastWritten es).getD s.source := by
  induction es generalizing s with
  | nil => rfl
  | cons e es ih =>
      obtain ⟨hturn, hcoherent⟩ := h.after convert e
      refine (ih hcoherent).trans ?_
      rw [hturn.source]
      cases hw : e.written? with
      | none => simp [lastWritten, hw]
      | some text =>
          simp [lastWritten, hw, List.getLast?_cons]

/-- What holds whenever something is pending, and is kept by every turn, holds after a schedule that
writes to the source. -/
theorem Coherent.written_keeps {P : Scene → List Placement → Prop} (h : Coherent s)
    {es : List Event} {text : Text} (hwritten : lastWritten es = some text) (done : List Placement)
    (hpending : ∀ x done, Pending convert x → P x done)
    (hkeeps : ∀ x ∈ s.moments convert es, ∀ e x' done, Coherent x → Turns convert x e x' →
      P x done → P x' (done ++ (x.placement? e).toList)) :
    P (s.run convert es) (done ++ s.placements convert es) := by
  induction es generalizing s done with
  | nil => exact absurd hwritten (by simp [lastWritten])
  | cons e es ih =>
      obtain ⟨-, hcoherent⟩ := h.after convert e
      rw [placements, ← List.append_assoc]
      cases e with
      | write text =>
          -- from here on an event is owed
          exact hcoherent.run_keeps _ (hpending _ _ (.inl rfl)) fun x hx =>
            hkeeps x (mem_moments_cons hx)
      | notice | expire _ | enter _ | advance _ =>
          exact ih hcoherent hwritten _ fun x hx =>
            hkeeps x (mem_moments_cons hx)

theorem start_coherent (source : Text) (output report : Option Text) :
    Coherent { source, output, report } := ⟨Debouncer.tracked_start, rfl, rfl⟩

theorem isQuiet_iff :
    s.isQuiet = true ↔ s.unnoticed = false ∧ s.debouncer.armed = [] ∧ s.debouncer.started = []
      ∧ s.jobs = [] := by
  simp [isQuiet, and_assoc]

theorem Coherent.not_pending (h : Coherent s) (hquiet : s.isQuiet = true) : ¬Pending convert s := by
  obtain ⟨hnoticed, harmed, hstarted, hjobs⟩ := isQuiet_iff.mp hquiet
  rintro (howed | hcurrent | ⟨j, hj, -⟩)
  · simp [hnoticed] at howed
  · obtain ⟨t, ht⟩ := List.exists_mem_of_ne_nil _ hcurrent
    have hwaits := h.tracked.waiting t ht
    simp [harmed, hstarted] at hwaits
  · simp [hjobs] at hj

/-- When all is quiet, the files are what they will be. -/
theorem due_of_quiet (hquiet : s.isQuiet = true) (report : Bool) :
    s.due report = s.file report := by
  obtain ⟨-, -, -, hjobs⟩ := isQuiet_iff.mp hquiet
  simp [due, hjobs]

/-- What came out of the source stays in place, or is pending again after a write. -/
theorem Coherent.converted_turn (h : Coherent s) (hturn : Turns convert s e s')
    {done : List Placement}
    (hs : Pending convert s ∨ ∃ pl ∈ done, pl.product = convert s.source) :
    Pending convert s'
      ∨ ∃ pl ∈ done ++ (s.placement? e).toList, pl.product = convert s'.source := by
  rcases hs with hpending | ⟨pl, hmem, hpl⟩
  · rcases h.pending_turn hturn hpending with hpending | ⟨t, rfl, hj, rfl⟩
    · exact .inl hpending
    · rw [h.placement?_advance hj]
      exact .inr ⟨_, List.mem_append_right done List.mem_cons_self, by simp [moveTo]⟩
  · have hkept : s'.source = s.source → ∃ pl ∈ done ++ (s.placement? e).toList,
        pl.product = convert s'.source := fun hsource =>
      ⟨pl, List.mem_append_left _ hmem, hsource ▸ hpl⟩
    cases hturn with
    | write => exact .inl (.inl rfl)
    | stay | notice | expire | giveUp | call | read | convert => exact .inr (hkept rfl)
    | place | clear => exact .inr (hkept (by simp [moveTo]))

/-- What comes out of the last content is put in place at some time. -/
theorem Coherent.converted (h : Coherent s) {es : List Event} {text : Text}
    (hwritten : lastWritten es = some text) (hquiet : (s.run convert es).isQuiet = true) :
    ∃ pl ∈ s.placements convert es, pl.product = convert text := by
  have hsource : (s.run convert es).source = text := by rw [h.source_run, hwritten]; rfl
  have hend := h.written_keeps (P := fun x done =>
    Pending convert x ∨ ∃ pl ∈ done, pl.product = convert x.source) hwritten []
    (fun x done => .inl) fun x hx e x' done hcoherent hturn => hcoherent.converted_turn hturn
  rw [List.nil_append, hsource] at hend
  exact hend.resolve_left ((h.run es).not_pending hquiet)

/-- Callbacks that never overlap leave what comes out of the last content. -/
theorem Coherent.placed (h : Coherent s) {es : List Event} {text : Text}
    (hwritten : lastWritten es = some text) (hquiet : (s.run convert es).isQuiet = true)
    (halone : ∀ x ∈ s.moments convert es, x.jobs.length ≤ 1) :
    (s.placements convert es).getLast? = some ⟨convert text, false⟩ := by
  have hsource : (s.run convert es).source = text := by rw [h.source_run, hwritten]; rfl
  have hend := h.written_keeps (P := fun x done => Pending convert x ∨ Placed convert x done)
    hwritten [] (fun x done => .inl)
    fun x hx e x' done hcoherent hturn => hcoherent.placed_turn hturn (halone x hx)
  have hplaced := hend.resolve_left ((h.run es).not_pending hquiet)
  rw [← hsource]
  exact hplaced.1

theorem shows_iff_of_leaves {pl : Placement} (hfiles : ∀ report, s.file report = pl.leaves report) :
    s.Shows p ↔ pl.product = p ∧ pl.contested = false := by
  rw [Shows, hfiles, hfiles]
  constructor
  · rintro ⟨hshown, -⟩
    unfold Placement.leaves at hshown
    split at hshown
    · rename_i hkind
      obtain ⟨⟨kind, content⟩, contested⟩ := pl
      obtain ⟨kind', content'⟩ := p
      simp_all
    · exact absurd hshown (by simp)
  · rintro ⟨rfl, hfree⟩
    simp [Placement.leaves, hfree]

/-- **What stands beside a source when all is quiet is what was put in place last.** A source is
written, with an event after each write, and callbacks take their steps in any order. When nothing
is left to happen, what comes out of the last content was put in place at some time, and:

* if no callback was about to remove the file to which the last product went, that product stands
  there alone, and otherwise nothing does;
* so what comes out of the last content stands there if and only if it was put in place last, and
  was not contested;
* this is the case if no callback starts before the one before it has ended. -/
theorem settles_iff (convert : Text → Product) (source : Text) (output report : Option Text)
    (es : List Event) (text : Text) (hwritten : lastWritten es = some text)
    (hquiet : (run convert { source, output, report } es).isQuiet = true) :
    let start : Scene := { source, output, report }
    let final := start.run convert es
    (∃ pl ∈ start.placements convert es, pl.product = convert text)
      ∧ ∃ last, (start.placements convert es).getLast? = some last
        ∧ (∀ kind, final.file kind = last.leaves kind)
        ∧ (final.Shows (convert text) ↔ last.product = convert text ∧ last.contested = false)
        ∧ ((∀ x ∈ start.moments convert es, x.jobs.length ≤ 1) → final.Shows (convert text)) := by
  intro start final
  have h : Coherent start := start_coherent source output report
  obtain ⟨pl, hmem, hpl⟩ := h.converted hwritten hquiet
  obtain ⟨last, hlast⟩ : ∃ last, (start.placements convert es).getLast? = some last :=
    Option.isSome_iff_exists.mp (List.getLast?_isSome.mpr (List.ne_nil_of_mem hmem))
  have hfiles : ∀ kind, final.file kind = last.leaves kind := by
    intro kind
    rw [← due_of_quiet hquiet, h.due_run, hlast]
    rfl
  refine ⟨⟨pl, hmem, hpl⟩, last, hlast, hfiles, shows_iff_of_leaves hfiles, fun halone => ?_⟩
  have hsettled := h.placed hwritten hquiet halone
  rw [hlast] at hsettled
  rw [shows_iff_of_leaves hfiles, Option.some.inj hsettled]
  exact ⟨rfl, rfl⟩

/-- A conversion that fails for all texts but one. -/
def fussy (text : Text) : Product := if text = Text.ofString "y" then ⟨false, text⟩ else ⟨true, "?"⟩

/-- The callback of a timer starts after an event. -/
def begins (n : Nat) : List Event := [.notice, .expire ⟨n, key⟩, .enter ⟨n, key⟩]

/-- The callback of a timer takes some steps. -/
def goes (n steps : Nat) : List Event := List.replicate steps (.advance ⟨n, key⟩)

/-- The callback for the first content ends after the one for the second. -/
def overtaken : List Event :=
  .write "x" :: begins 0 ++ goes 0 1 ++ .write "y" :: begins 1 ++ goes 1 4 ++ goes 0 3

/-- Each callback removes what the other one has put in place. -/
def crossed : List Event :=
  .write "x" :: begins 0 ++ goes 0 2 ++ .write "y" :: begins 1 ++ goes 1 2
    ++ goes 0 1 ++ goes 1 1 ++ goes 0 1 ++ goes 1 1

/-- The second callback starts when the first one has ended. -/
def apart : List Event := .write "x" :: begins 0 ++ goes 0 4 ++ .write "y" :: begins 1 ++ goes 1 4

/-- Callbacks that overlap may leave what came out of the content before the last, or nothing; those
that do not leave what comes out of the last. -/
theorem overtaken_shows_old :
    lastWritten overtaken = some "y"
      ∧ (run fussy { source := [] } overtaken).isQuiet = true
      ∧ ¬(run fussy { source := [] } overtaken).Shows (fussy "y")
      ∧ (run fussy { source := [] } overtaken).Shows (fussy "x")
      ∧ (∀ kind, (run fussy { source := [] } crossed).file kind = none)
      ∧ (run fussy { source := [] } apart).Shows (fussy "y") := by
  have hwritten : lastWritten overtaken = some "y" := by decide
  have hquiet : (run fussy { source := [] } overtaken).isQuiet = true := by decide
  obtain ⟨-, old, hold, hfiles, hovertaken, -⟩ :=
    settles_iff fussy [] none none overtaken "y" hwritten hquiet
  obtain ⟨-, lost, hlost, hnothing, -, -⟩ :=
    settles_iff fussy [] none none crossed "y" (by decide) (by decide)
  obtain ⟨-, -, -, -, -, hapart⟩ := settles_iff fussy [] none none apart "y" (by decide) (by decide)
  have hold' : old = ⟨fussy "x", false⟩ := by
    refine Option.some.inj (hold.symm.trans ?_)
    decide
  have hlost' : lost = ⟨fussy "y", true⟩ := by
    refine Option.some.inj (hlost.symm.trans ?_)
    decide
  refine ⟨hwritten, hquiet, ?_, ?_, ?_, hapart (by decide)⟩
  · rw [hovertaken, hold']
    decide
  · exact (shows_iff_of_leaves hfiles).mpr ⟨by rw [hold'], by rw [hold']⟩
  · intro kind
    rw [hnothing, hlost']
    simp [Placement.leaves]

end Scene

end MathMarkup.Watch
