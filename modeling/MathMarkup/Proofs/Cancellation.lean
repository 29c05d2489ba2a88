import MathMarkup.Engine.Service
import MathMarkup.History.Memory

/-!
# Cancelled conversions

A conversion asks before each of its stages whether it is cancelled. The conversion on its own and
the engine do so at the same moments, so that wherever the work is cut off they say the same; and
work that is not cut off ends as if nobody had asked.

How often a conversion asks (`Conversion.checks`) depends on the stage that ends it. Every entry
point is compared with that number and with the plain conversion.
-/

namespace MathMarkup

/-! ## Asking -/

/-- Whether work that asks `k` times is never told that it is cancelled. -/
def Cancellation.outlasts : Cancellation → Nat → Bool
  | none, _ => true
  | some n, k => k ≤ n

namespace Cancellation

/-- Work is cut off where it asks more often than it may. -/
theorem outlasts_eq_false_iff {cancel : Cancellation} {k : Nat} :
    cancel.outlasts k = false ↔ ∃ n, cancel = some n ∧ n < k := by
  cases cancel <;> simp [outlasts]

end Cancellation

/-! ## Conversions -/

/-- How the stages of a conversion go: one of them fails, or all succeed. -/
inductive Course (limits : Limits) (source : Text) : Prop where
  | uncleaned (e : StageError) (clean : (Cleaning.clean limits.passes source).result = .error e)
  | unread (cleaned : Text) (e : StageError)
      (clean : (Cleaning.clean limits.passes source).result = .ok cleaned)
      (parse : Grammar.parse limits.depth cleaned = .error e)
  | unrendered (cleaned : Text) (tree : Node) (e : StageError)
      (clean : (Cleaning.clean limits.passes source).result = .ok cleaned)
      (parse : Grammar.parse limits.depth cleaned = .ok tree)
      (render : Solver.render limits.depth tree = .error e)
  | rendered (cleaned : Text) (tree : Node) (output : Text)
      (clean : (Cleaning.clean limits.passes source).result = .ok cleaned)
      (parse : Grammar.parse limits.depth cleaned = .ok tree)
      (render : Solver.render limits.depth tree = .ok output)

theorem course (limits : Limits) (source : Text) : Course limits source := by
  cases clean : (Cleaning.clean limits.passes source).result with
  | error e => exact .uncleaned e clean
  | ok cleaned =>
      cases parse : Grammar.parse limits.depth cleaned with
      | error e => exact .unread cleaned e clean parse
      | ok tree =>
          cases render : Solver.render limits.depth tree with
          | error e => exact .unrendered cleaned tree e clean parse render
          | ok output => exact .rendered cleaned tree output clean parse render

namespace Conversion

/-- How often a conversion asks whether it is cancelled: once if the source cannot be cleaned, twice
if the cleaned text cannot be read, and else three times. -/
def checks (limits : Limits) (source : Text) : Nat :=
  match (Cleaning.clean limits.passes source).result with
  | .error _ => 1
  | .ok cleaned =>
    match Grammar.parse limits.depth cleaned with
    | .error _ => 2
    | .ok _ => 3

/-- The result of a conversion that nobody cancels. -/
def uncut (limits : Limits) (source : Text) : Except Interrupted Text :=
  match convert limits source with
  | .error report => .error (.failed report)
  | .ok conversion => .ok conversion.output

/-- **A conversion is cancelled exactly if it is told so at one of its questions**, and else ends as
if it had not asked. -/
theorem convertUnless_eq (limits : Limits) (cancel : Cancellation) (source : Text) :
    convertUnless limits cancel source
      = if cancel.outlasts (checks limits source) then uncut limits source
        else .error .cancelled := by
  -- a course decides how many questions there are, and then which of them cuts it off
  cases course limits source with
  | uncleaned e clean =>
      have hchecks : checks limits source = 1 := by simp [checks, clean]
      rcases cancel with _ | _ | n <;>
        simp [convertUnless, uncut, convert, Cancellation.check?, Cancellation.outlasts, hchecks,
          clean]
  | unread cleaned e clean parse =>
      have hchecks : checks limits source = 2 := by simp [checks, clean, parse]
      rcases cancel with _ | _ | _ | n <;>
        simp [convertUnless, uncut, convert, Cancellation.check?, Cancellation.outlasts, hchecks,
          clean, parse]
  | unrendered cleaned tree e clean parse render =>
      have hchecks : checks limits source = 3 := by simp [checks, clean, parse]
      rcases cancel with _ | _ | _ | _ | n <;>
        simp [convertUnless, uncut, convert, Cancellation.check?, Cancellation.outlasts, hchecks,
          clean, parse, render]
  | rendered cleaned tree output clean parse render =>
      have hchecks : checks limits source = 3 := by simp [checks, clean, parse]
      rcases cancel with _ | _ | _ | _ | n <;>
        simp [convertUnless, uncut, convert, Cancellation.check?, Cancellation.outlasts, hchecks,
          clean, parse, render]

end Conversion

/-! ## The engine -/

namespace Engine

variable {c : ConverterConfig} {elapsed : Time.Duration} {cancel : Cancellation} {input : Text}
variable {out : Outcome} {why : Fault}

@[simp] theorem after_fault (w : Work) (t : Trail) : (w.after t).fault = w.fault := rfl

@[simp] theorem after_outcome (w : Work) (t : Trail) : (w.after t).outcome = w.outcome := rfl

/-- **The engine fails as the conversion does**, and else gives its output. -/
theorem stages_agree (hsize : isTooLarge c input = false) :
    match Conversion.convertUnless (limits c) cancel input with
    | .ok output => (stages c elapsed cancel input out why).fault = []
        ∧ (stages c elapsed cancel input out why).outcome.output = output
    | .error i => (stages c elapsed cancel input out why).fault = Fault.ofInterrupted i why
        ∧ (stages c elapsed cancel input out why).outcome.output = out.output := by
  cases course (limits c) input with
  | uncleaned e clean =>
      rcases cancel with _ | _ | n <;>
        simp [Conversion.convertUnless, stages, Cancellation.check?, Fault.ofInterrupted,
          hsize, clean]
  | unread cleaned e clean parse =>
      rcases cancel with _ | _ | _ | n <;>
        simp [Conversion.convertUnless, stages, Cancellation.check?, Fault.ofInterrupted,
          hsize, clean, parse]
  | unrendered cleaned tree e clean parse render =>
      rcases cancel with _ | _ | _ | _ | n <;>
        simp [Conversion.convertUnless, stages, Cancellation.check?, Fault.ofInterrupted,
          hsize, clean, parse, render]
  | rendered cleaned tree output clean parse render =>
      rcases cancel with _ | _ | _ | _ | n <;>
        simp [Conversion.convertUnless, stages, Cancellation.check?, Fault.ofInterrupted,
          hsize, clean, parse, render]

/-- The outcome of work that is not cut off holds all that the stages saw. -/
theorem stages_outcome (hsize : isTooLarge c input = false) {conversion : Conversion}
    (hconvert : Conversion.convert (limits c) input = .ok conversion)
    (huncut : cancel.outlasts (Conversion.checks (limits c) input) = true) :
    (stages c elapsed cancel input out why).outcome =
      { out with
        output := conversion.output
        cleaned := conversion.cleaned
        passes := conversion.passes
        nodes := conversion.nodes } := by
  cases course (limits c) input with
  | uncleaned e clean => simp [Conversion.convert, clean] at hconvert
  | unread cleaned e clean parse => simp [Conversion.convert, clean, parse] at hconvert
  | unrendered cleaned tree e clean parse render =>
      simp [Conversion.convert, clean, parse, render] at hconvert
  | rendered cleaned tree output clean parse render =>
      simp only [Conversion.convert, clean, parse, render, Except.ok.injEq] at hconvert
      subst hconvert
      have hchecks : Conversion.checks (limits c) input = 3 := by
        simp [Conversion.checks, clean, parse]
      rw [hchecks] at huncut
      rcases cancel with _ | _ | _ | _ | n
      case none | some.succ.succ.succ =>
        simp [stages, Cancellation.check?, hsize, clean, parse, render]
      all_goals exact absurd huncut (by simp [Cancellation.outlasts])

/-- What a service leaves behind does not change its reply: it is that of the stages. -/
theorem reply_eq {σ : Type} (st : History.Storage σ) (w : Surroundings) (cancel : Cancellation)
    (r : Request) (s : Service σ) (why : Fault) :
    let work := stages s.config w.elapsed cancel r.input
      { requestId := (r.complete w.fresh).requestId } why
    (s.convert st w cancel r why).2.outcome = work.outcome
      ∧ (s.convert st w cancel r why).2.fault = work.fault := by
  intro work
  show (convert s.config w.elapsed w.traceId cancel (r.complete w.fresh) why).outcome = work.outcome
    ∧ (convert s.config w.elapsed w.traceId cancel (r.complete w.fresh) why).fault = work.fault
  unfold convert
  dsimp only
  split
  · rename_i hnone
    exact ⟨rfl, (List.isEmpty_iff.mp hnone).symm⟩
  · exact ⟨rfl, rfl⟩

/-- **All entry points run the same conversion**, wherever it is cancelled. For an input that is not
too large, and a context that turns away every question after the first `n`, or none:

* the service answers with the output of the conversion, or with its fault, which is that of the
  context if the conversion was cancelled;
* the conversion is cancelled exactly if it asks more than `n` times;
* if it is not, it ends as the plain conversion does, and after success the outcome of the service
  holds what that saw.
-/
theorem entry_points_agree {σ : Type} (st : History.Storage σ) (w : Surroundings)
    (cancel : Cancellation) (r : Request) (s : Service σ) (why : Fault)
    (hsize : isTooLarge s.config r.input = false) :
    let limits := Limits.ofRequest s.config.maxCleanPasses s.config.maxDepth
    let reply := (s.convert st w cancel r why).2
    let converted := Conversion.convertUnless limits cancel r.input
    let cut := ∃ n, cancel = some n ∧ n < Conversion.checks limits r.input
    (match converted with
      | .ok output => reply.fault = [] ∧ reply.outcome.output = output
      | .error i => reply.fault = Fault.ofInterrupted i why ∧ reply.outcome.output = [])
      ∧ (converted = .error .cancelled ↔ cut)
      ∧ (¬ cut →
          match Conversion.convert limits r.input with
          | .error report => converted = .error (.failed report)
          | .ok conversion => converted = .ok conversion.output
            ∧ reply.outcome =
              { requestId := (r.complete w.fresh).requestId
                output := conversion.output
                cleaned := conversion.cleaned
                passes := conversion.passes
                nodes := conversion.nodes }) := by
  intro limits reply converted cut
  obtain ⟨houtcome, hfault⟩ := reply_eq st w cancel r s why
  have hcut : cancel.outlasts (Conversion.checks limits r.input) = false ↔ cut :=
    Cancellation.outlasts_eq_false_iff
  have hconverted := Conversion.convertUnless_eq limits cancel r.input
  refine ⟨?_, ?_, fun huncut => ?_⟩
  · show match converted with
      | .ok output => reply.fault = [] ∧ reply.outcome.output = output
      | .error i => reply.fault = Fault.ofInterrupted i why ∧ reply.outcome.output = []
    rw [hfault, houtcome]
    exact stages_agree hsize
  · rw [← hcut]
    show Conversion.convertUnless limits cancel r.input = _ ↔ _
    rw [hconverted]
    cases hlast : cancel.outlasts (Conversion.checks limits r.input) with
    | false => simp
    | true =>
        -- a conversion that is not cut off fails only with a report
        unfold Conversion.uncut
        cases Conversion.convert limits r.input <;> simp
  · have hlast : cancel.outlasts (Conversion.checks limits r.input) = true := by
      simpa [← hcut] using huncut
    rw [if_pos hlast] at hconverted
    unfold Conversion.uncut at hconverted
    cases hconvert : Conversion.convert limits r.input with
    | error report =>
        rw [hconvert] at hconverted
        exact hconverted
    | ok conversion =>
        rw [hconvert] at hconverted
        exact ⟨hconverted, houtcome.trans (stages_outcome hsize hconvert hlast)⟩

/-- A sine whose time is over after two questions has been cleaned and read, and is not rendered. -/
theorem sine_cut_before_rendering :
    let s : Service History.Memory := { config := {} }
    let w : Surroundings := { fresh := "1", now := .zero }
    let r : Request := { input := "\\sin(x)" }
    isTooLarge s.config r.input = false
      ∧ Conversion.checks (Limits.ofRequest s.config.maxCleanPasses s.config.maxDepth) r.input = 3
      ∧ (s.convert History.Memory.storage w (some 2) r [.deadline]).2.fault = [.deadline] := by
  intro s w r
  have hsize : isTooLarge s.config r.input = false := by decide +kernel
  have hchecks : Conversion.checks
      (Limits.ofRequest s.config.maxCleanPasses s.config.maxDepth) r.input = 3 := by decide +kernel
  obtain ⟨hreply, hcut, -⟩ :=
    entry_points_agree History.Memory.storage w (some 2) r s [.deadline] hsize
  rw [hcut.mpr ⟨2, rfl, by rw [hchecks]; decide⟩] at hreply
  exact ⟨hsize, hchecks, hreply.1⟩

end Engine

end MathMarkup
