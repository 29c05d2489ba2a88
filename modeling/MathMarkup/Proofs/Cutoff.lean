import MathMarkup.Conversion
import MathMarkup.Proofs.DepthLimit

/-!
# Limits are cut-offs

The limits of a conversion are there to end it, and for nothing else: a conversion that no limit
ends gives the same under higher limits. Each stage is compared with itself under a higher limit
(`CutOff`). Cleaning makes its passes and counts them; reading has been compared already, with the
height of its trees (`Grammar.parse_within`); rendering goes down the tree under both limits at
once.
-/

namespace MathMarkup

/-- Either the first of two runs ends with the failure of a limit, or the second does the same. -/
def CutOff {α : Type} (reached : StageError) (run run' : Except StageError α) : Prop :=
  run = .error reached ∨ run' = run

theorem CutOff.bind {α β : Type} {reached : StageError} {run run' : Except StageError α}
    {f f' : α → Except StageError β} (h : CutOff reached run run')
    (hf : ∀ a, CutOff reached (f a) (f' a)) : CutOff reached (run >>= f) (run' >>= f') := by
  rcases h with rfl | rfl
  · exact Or.inl rfl
  · cases run' with
    | error e => exact Or.inr rfl
    | ok a => exact hf a

theorem cutOff_refl {α : Type} {reached : StageError} (run : Except StageError α) :
    CutOff reached run run := Or.inr rfl

/-! ## Cleaning -/

/-- A higher limit leaves the more passes to be made, and as many are made. -/
theorem Cleaning.cleanFrom_cutOff {limit left : Nat} (more : Nat) (hleft : left ≤ limit)
    (t : Text) :
    (cleanFrom limit left t).result = .error (nonConvergence limit)
      ∨ cleanFrom (limit + more) (left + more) t = cleanFrom limit left t := by
  induction left generalizing t with
  | zero => exact Or.inl rfl
  | succ left ih =>
      have hpasses : limit + more - (left + more) = limit - left := by omega
      rw [Nat.add_right_comm, cleanFrom, cleanFrom, hpasses]
      cases pass t with
      | error e => exact Or.inr rfl
      | ok next =>
          dsimp only
          split
          · exact Or.inr rfl
          · exact ih (by omega) next

theorem Cleaning.clean_cutOff {limit limit' : Nat} (h : limit ≤ limit') (t : Text) :
    (clean limit t).result = .error (nonConvergence limit) ∨ clean limit' t = clean limit t := by
  obtain ⟨more, rfl⟩ := Nat.le.dest h
  exact cleanFrom_cutOff more (Nat.le_refl limit) t

/-! ## Rendering -/

namespace Solver

/-- A node within the higher limit only is where the lower one is reached. -/
theorem cutOff_node {limit limit' depth : Nat} (h : limit ≤ limit')
    {run run' : Except StageError Text} (hrun : CutOff (tooDeep limit) run run') :
    CutOff (tooDeep limit) (if depth > limit then .error (tooDeep limit) else run)
      (if depth > limit' then .error (tooDeep limit') else run') := by
  by_cases hdepth : depth > limit
  · exact Or.inl (if_pos hdepth)
  · rw [if_neg hdepth, if_neg (by omega)]
    exact hrun

mutual

theorem renderAt_cutOff {limit limit' : Nat} (h : limit ≤ limit') (depth : Nat) :
    ∀ n : Node, CutOff (tooDeep limit) (renderAt limit depth n) (renderAt limit' depth n)
  | .absent kind => by
      rw [renderAt, renderAt]
      exact cutOff_node h (cutOff_refl _)
  | .root es s => by
      rw [renderAt, renderAt]
      exact cutOff_node h ((renderPresent_cutOff h (depth + 1) _ es).bind fun _ => cutOff_refl _)
  | .expression w ns s => by
      rw [renderAt, renderAt]
      exact cutOff_node h ((renderList_cutOff h (depth + 1) ns).bind fun _ => cutOff_refl _)
  | .function name args exponent s => by
      rw [renderAt, renderAt]
      refine cutOff_node h ((renderArguments_cutOff h (depth + 1) args).bind fun parts => ?_)
      exact (cutOff_refl _).bind fun base => renderPower_cutOff h (depth + 1) base exponent
  | .unit cs s => by
      rw [renderAt, renderAt]
      exact cutOff_node h (cutOff_refl _)
  | .char c => by
      rw [renderAt, renderAt]
      exact cutOff_node h (cutOff_refl _)
  | .environment type es s => by
      rw [renderAt, renderAt]
      refine cutOff_node h ?_
      split
      · exact (renderPresent_cutOff h (depth + 1) _ es).bind fun _ => cutOff_refl _
      · exact cutOff_refl _

theorem renderList_cutOff {limit limit' : Nat} (h : limit ≤ limit') (depth : Nat) :
    ∀ ns : List Node,
      CutOff (tooDeep limit) (renderList limit depth ns) (renderList limit' depth ns)
  | [] => cutOff_refl _
  | n :: ns => by
      rw [renderList, renderList]
      refine (renderAt_cutOff h depth n).bind fun first => ?_
      exact (renderList_cutOff h depth ns).bind fun _ => cutOff_refl _

theorem renderPresent_cutOff {limit limit' : Nat} (h : limit ≤ limit') (depth : Nat)
    (missing : StageError) : ∀ ns : List Node,
      CutOff (tooDeep limit) (renderPresent limit depth missing ns)
        (renderPresent limit' depth missing ns)
  | [] => cutOff_refl _
  | n :: ns => by
      rw [renderPresent, renderPresent]
      split
      · exact cutOff_refl _
      · refine (renderAt_cutOff h depth n).bind fun first => ?_
        exact (renderPresent_cutOff h depth missing ns).bind fun _ => cutOff_refl _

theorem renderArguments_cutOff {limit limit' : Nat} (h : limit ≤ limit') (depth : Nat) :
    ∀ ns : List Node,
      CutOff (tooDeep limit) (renderArguments limit depth ns) (renderArguments limit' depth ns)
  | [] => cutOff_refl _
  | n :: ns => by
      rw [renderArguments, renderArguments]
      refine (renderAt_cutOff h depth n).bind fun first => (cutOff_refl _).bind fun stripped => ?_
      exact (renderArguments_cutOff h depth ns).bind fun _ => cutOff_refl _

theorem renderPower_cutOff {limit limit' : Nat} (h : limit ≤ limit') (depth : Nat) (base : Text) :
    ∀ o : Option Node,
      CutOff (tooDeep limit) (renderPower limit depth base o) (renderPower limit' depth base o)
  | none => cutOff_refl _
  | some n => by
      rw [renderPower, renderPower]
      exact (renderAt_cutOff h depth n).bind fun _ => cutOff_refl _

end

end Solver

/-! ## Conversion -/

/--
**Limits are cut-offs.** A conversion that does not fail because of a limit gives the same under
higher limits, whether it succeeds or fails: the output and the cleaned text, the numbers of passes
and nodes, or the whole report.
-/
theorem convert_eq_of_limits_le {limits limits' : Limits} (hpasses : limits.passes ≤ limits'.passes)
    (hdepth : limits.depth ≤ limits'.depth) (source : Text)
    (h : ∀ report, Conversion.convert limits source = .error report → report.category ≠ .limit) :
    Conversion.convert limits' source = Conversion.convert limits source := by
  unfold Conversion.convert at h ⊢
  dsimp only at h ⊢
  rcases Cleaning.clean_cutOff hpasses source with hreached | hclean
  · rw [hreached] at h
    exact absurd rfl (h _ rfl)
  rw [hclean]
  cases hresult : (Cleaning.clean limits.passes source).result with
  | error e => rfl
  | ok cleaned =>
      rw [hresult] at h
      dsimp only at h ⊢
      rcases Grammar.parse_within limits.depth cleaned with hreached | ⟨hparse, _⟩
      · rw [hreached] at h
        exact absurd rfl (h _ rfl)
      rw [hparse _ hdepth]
      cases htree : Grammar.parse limits.depth cleaned with
      | error e => rfl
      | ok tree =>
          rw [htree] at h
          dsimp only at h ⊢
          rcases Solver.renderAt_cutOff hdepth 1 tree with hreached | hrender
          · rw [Solver.render, hreached] at h
            exact absurd rfl (h _ rfl)
          · rw [Solver.render, Solver.render, hrender]

/-- Three passes and four levels are all that the first text takes. The second is refused after the
first pass, and so it is under any limits. -/
theorem splitCommand_limits :
    (∃ r, Conversion.convert ⟨3, 4⟩ "\\te,xt\x7ba\x7d(1)" = .ok r ∧ r.output = "(1)"
      ∧ Conversion.convert {} "\\te,xt\x7ba\x7d(1)" = .ok r)
    ∧ ∃ report, Conversion.convert ⟨1, 2⟩ "(1" = .error report ∧ report.category = .markup
      ∧ Conversion.convert {} "(1" = .error report := by
  constructor
  · have hout : (Conversion.convert ⟨3, 4⟩ "\\te,xt\x7ba\x7d(1)").toOption.map (·.output)
        = some "(1)" := by decide +kernel
    cases hconv : Conversion.convert ⟨3, 4⟩ "\\te,xt\x7ba\x7d(1)" with
    | error e => rw [hconv] at hout; exact absurd hout (by simp [Except.toOption])
    | ok r =>
        rw [hconv] at hout
        refine ⟨r, rfl, Option.some.inj hout, ?_⟩
        rw [@convert_eq_of_limits_le ⟨3, 4⟩ {} (by decide) (by decide), hconv]
        intro report hreport
        rw [hconv] at hreport
        exact absurd hreport (by simp)
  · have hrefused : (match Conversion.convert ⟨1, 2⟩ "(1" with
      | .ok _ => none
      | .error report => some report.category) = some .markup := by decide +kernel
    split at hrefused
    · exact absurd hrefused (by simp)
    · rename_i report hconv
      have hcategory : report.category = .markup := Option.some.inj hrefused
      refine ⟨report, hconv, hcategory, ?_⟩
      rw [@convert_eq_of_limits_le ⟨1, 2⟩ {} (by decide) (by decide), hconv]
      intro report' hreport
      rw [hconv] at hreport
      cases hreport
      simp [hcategory]

end MathMarkup
