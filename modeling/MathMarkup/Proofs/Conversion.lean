import MathMarkup.Conversion
import MathMarkup.Proofs.Cleaning
import MathMarkup.Proofs.Parsing
import MathMarkup.Proofs.Rendering

/-!
# Conversion from end to end

The contracts of the three stages fit together. Cleaning leaves no separating comma, so reading
gives a tree whose leaves have none; reading gives a tree that is built, so rendering writes solver
syntax.

A conversion that succeeds gives a text in solver syntax (`convert_output_nested`). One that fails
fails in one of four ways, each with its place (`convert_failure_cases`).
-/

namespace MathMarkup

open MathMarkup.Bracket (Nested Inside)
open MathMarkup.Text (byte)

/-- **A tree that is read from a text renders as solver syntax**, or fails for one of two reasons.
-/
theorem Solver.parsed_renders (commas : Bool) {t : Text} {tree : Node} {depth : Nat}
    (he : commas = false → Cleaning.removeCommas t = t) (h : Grammar.parse depth t = .ok tree)
    (limit : Nat) : Solver.Renders t.length (Solver.render limit tree) (Written commas) := by
  have hout := Grammar.parse_outcome commas depth t he
  rw [h] at hout
  obtain ⟨ns, rfl, hns⟩ := hout
  have hrows : ∀ r ∈ [(ns, (⟨0, t.length⟩ : Span))], ∀ n ∈ r.1,
      Solver.Rendered commas t.length n := by
    intro r hr n hn
    rw [List.mem_singleton.mp hr] at hn
    exact Solver.built_renders (hns n hn)
  unfold Solver.render
  rw [Solver.renderAt]
  split
  · exact Solver.tooDeep_renders limit
  · refine Solver.Renders.bind (Solver.renderPresent_renders hrows limit _) fun parts hparts => ?_
    exact written_flatten hparts

/-! ## Success -/

/--
**The output of a conversion is nested in all kinds of brackets together**, has none of the signs of
markup, no blank but a space directly behind a comma, and no comma outside of brackets.
-/
theorem convert_output_nested {limits : Limits} {source : Text} {r : Conversion}
    (h : Conversion.convert limits source = .ok r) :
    Nested r.output
      ∧ (∀ b ∈ r.output, b ≠ byte '\\' ∧ b ≠ byte '|' ∧ b ≠ byte '&')
      ∧ (∀ u b v, r.output = u ++ b :: v → Text.isBlank b = true →
        b = byte ' ' ∧ u.getLast? = some (byte ','))
      ∧ ∀ u v, r.output = u ++ byte ',' :: v → Inside u := by
  unfold Conversion.convert at h
  dsimp only at h
  split at h
  · exact absurd h (by simp)
  · rename_i cleaned hclean
    split at h
    · exact absurd h (by simp)
    · rename_i tree hparse
      split at h
      · exact absurd h (by simp)
      · rename_i output hrender
        cases h
        -- the cleaned text has no separating comma, so the leaves have none
        have hwritten : Written false output := by
          have hrenders := Solver.parsed_renders false
            (fun _ => Cleaning.clean_removeCommas hclean) hparse limits.depth
          rw [hrender] at hrenders
          exact hrenders
        exact ⟨hwritten.nested, hwritten.signs, hwritten.blanks,
          fun u v hu => hwritten.commas u v hu rfl⟩

/-- A determinant with a binomial coefficient and a separating comma in it. -/
def fourCells : Text := "\\begin\x7bvmatrix\x7da&\\binom n k\\\\c, &d\\end\x7bvmatrix\x7d"

/-- Its commas, with and without a space behind them, stand in brackets. -/
theorem fourCells_output_nested :
    ∃ r, Conversion.convert {} fourCells = .ok r ∧ r.output = "det2(a,choose(n, k),c,d)"
      ∧ Nested r.output ∧ ∀ u v, r.output = u ++ byte ',' :: v → Inside u := by
  have hout : (Conversion.convert {} fourCells).toOption.map (·.output)
      = some "det2(a,choose(n, k),c,d)" := by decide +kernel
  cases hconv : Conversion.convert {} fourCells with
  | error e => rw [hconv] at hout; exact absurd hout (by simp [Except.toOption])
  | ok r =>
      rw [hconv] at hout
      obtain ⟨hnested, _, _, hcommas⟩ := convert_output_nested hconv
      exact ⟨r, rfl, Option.some.inj hout, hnested, hcommas⟩

/-! ## Failure -/

/-- The ways in which a conversion fails, with what its report says. -/
inductive Conversion.Fails (limits : Limits) (source : Text) (r : Report) : Prop where
  /-- Cleaning refuses the source, at a place of it. -/
  | cleaning :
      r.category = .cleaning ∨ r.category = .delimiter →
      (Cleaning.clean limits.passes source).result = .error r.cause →
      0 ≤ r.position → r.position < source.length → Fails limits source r
  /-- The cleaned text is no markup, at a place of it. -/
  | markup (cleaned : Text) :
      (Cleaning.clean limits.passes source).result = .ok cleaned → r.category = .markup →
      0 ≤ r.position → r.position ≤ cleaned.length → Fails limits source r
  /-- A determinant cannot be written; it stands at a place of the cleaned text. -/
  | determinant (cleaned : Text) (cells : List Node) (span : Span) :
      (Cleaning.clean limits.passes source).result = .ok cleaned → r.category = .rendering →
      r.cause.reason? = some .unsupportedDeterminantOrder →
      r.node = some (.environment .determinant cells span) →
      0 ≤ r.position → r.position < cleaned.length → Fails limits source r
  /-- A limit is reached, and the report says no more than that. -/
  | limit :
      r.category = .limit →
      r.cause.reason? = some .nonConvergence ∨ r.cause.reason? = some .depthLimit →
      r.position = -1 → r.message = "Error." → Fails limits source r

theorem Conversion.Fails.known {limits : Limits} {source : Text} {r : Report}
    (h : Fails limits source r) : r.category ≠ .unknown := by
  intro hu
  cases h with
  | cleaning hc => rw [hu] at hc; exact absurd hc (by simp)
  | markup _ _ hc => rw [hu] at hc; exact absurd hc (by simp)
  | determinant _ _ _ _ hc => rw [hu] at hc; exact absurd hc (by simp)
  | limit hc => rw [hu] at hc; exact absurd hc (by simp)

/-- The report of a limit that was reached tells nothing. -/
theorem limit_fails {limits : Limits} {source : Text} {l : LimitError}
    (h : l.reason = some .nonConvergence ∨ l.reason = some .depthLimit) (t : Text) :
    Conversion.Fails limits source ((StageError.limit l).report t) := .limit rfl h rfl rfl

theorem Cleaning.failure_reported {limits : Limits} {source : Text} {e : StageError}
    (h : (clean limits.passes source).result = .error e) :
    Conversion.Fails limits source (e.report source) := by
  rcases clean_located h with hloc | rfl
  · unfold StageError.Located at hloc
    split at hloc
    · exact .cleaning (Or.inl rfl) h hloc.1 hloc.2
    · exact .cleaning (Or.inr rfl) h hloc.1 hloc.2
    · exact hloc.elim
  · exact limit_fails (Or.inl rfl) _

theorem Grammar.failure_reported {limits : Limits} {source cleaned : Text} {e : StageError}
    (hclean : (Cleaning.clean limits.passes source).result = .ok cleaned)
    (h : e.Placed cleaned) : Conversion.Fails limits source (e.report cleaned) := by
  unfold StageError.Placed at h
  split at h
  · rename_i e
    obtain ⟨start, stop, h1, h2, hstart, _⟩ := h
    refine .markup cleaned hclean rfl ?_ ?_
    · show 0 ≤ e.start
      rw [hstart]
      exact Int.natCast_nonneg _
    · show e.start ≤ _
      rw [hstart]
      exact Int.ofNat_le.mpr (Nat.le_trans h1 h2)
  · exact limit_fails (Or.inr h) _
  · exact h.elim

theorem Solver.failure_reported {limits : Limits} {source cleaned : Text} {e : StageError}
    (hclean : (Cleaning.clean limits.passes source).result = .ok cleaned)
    (h : e.Unrendered cleaned.length) : Conversion.Fails limits source (e.report cleaned) := by
  unfold StageError.Unrendered at h
  split at h
  · exact limit_fails (Or.inr h) _
  · rename_i r
    obtain ⟨hreason, cells, span, hnode, h0, h1, h2⟩ := h
    -- the place of a determinant is valid, so it is the one reported
    have hpos : r.position = span.start := by
      have hvalid : span.isValid = true := by simp [Span.isValid, h0, h1]
      simp only [RenderError.position, hnode, Node.span, hvalid, if_true]
    refine .determinant cleaned cells span hclean rfl hreason hnode ?_ ?_
    · show 0 ≤ r.position
      rw [hpos]
      exact h0
    · show r.position < _
      rw [hpos]
      exact h2
  · exact h.elim

/--
**The ways in which a conversion fails.** Cleaning fails at a place of the source, reading at a
place of the cleaned text, and rendering because of a determinant, which has a place in it; or a
limit is reached. The category of the failure is always known.

Whatever the text and the limits, rendering a tree that was read from a text fails for no other
reason: no bracket is missing, no function is unknown or has too few arguments, no node is missing.
-/
theorem convert_failure_cases :
    (∀ limits source report, Conversion.convert limits source = .error report →
      Conversion.Fails limits source report ∧ report.category ≠ .unknown)
    ∧ ∀ depth limit text tree e, Grammar.parse depth text = .ok tree →
      Solver.render limit tree = .error e →
      (e.category = .limit ∧ e.reason? = some .depthLimit)
        ∨ (e.category = .rendering ∧ e.reason? = some .unsupportedDeterminantOrder) := by
  constructor
  · intro limits source report h
    suffices hfails : Conversion.Fails limits source report from ⟨hfails, hfails.known⟩
    unfold Conversion.convert at h
    dsimp only at h
    split at h
    · rename_i e hclean
      cases h
      exact Cleaning.failure_reported hclean
    · rename_i cleaned hclean
      have hparsed := Grammar.parse_outcome true limits.depth cleaned (by simp)
      split at h
      · rename_i e hparse
        cases h
        rw [hparse] at hparsed
        exact Grammar.failure_reported hclean hparsed
      · rename_i tree hparse
        have hrendered := Solver.parsed_renders true (by simp) hparse limits.depth
        split at h
        · rename_i e hrender
          cases h
          rw [hrender] at hrendered
          exact Solver.failure_reported hclean hrendered
        · exact absurd h (by simp)
  · intro depth limit text tree e hparse hrender
    have hrendered := Solver.parsed_renders true (by simp) hparse limit
    rw [hrender] at hrendered
    have hrendered : e.Unrendered text.length := hrendered
    unfold StageError.Unrendered at hrendered
    split at hrendered
    · exact Or.inl ⟨rfl, hrendered⟩
    · exact Or.inr ⟨rfl, hrendered.1⟩
    · exact hrendered.elim

/-- A determinant with three cells. -/
def threeCells : Text := "x+\\begin\x7bvmatrix\x7da&b\\\\c\\end\x7bvmatrix\x7d"

/-- It is refused where it stands. -/
theorem threeCells_failure :
    (∃ report, Conversion.convert {} threeCells = .error report ∧ report.position = 2
      ∧ Conversion.Fails {} threeCells report)
    ∧ ∃ tree e, Grammar.parse 256 threeCells = .ok tree ∧ Solver.render 256 tree = .error e
      ∧ ((e.category = .limit ∧ e.reason? = some .depthLimit)
        ∨ (e.category = .rendering ∧ e.reason? = some .unsupportedDeterminantOrder)) := by
  constructor
  · have hplace : (match Conversion.convert {} threeCells with
      | .ok _ => none
      | .error r => some r.position) = some 2 := by decide +kernel
    split at hplace
    · exact absurd hplace (by simp)
    · rename_i report hconv
      exact ⟨report, hconv, Option.some.inj hplace, (convert_failure_cases.1 _ _ _ hconv).1⟩
  · have hrefused : ((Grammar.parse 256 threeCells).toOption.map
      fun tree => (Solver.render 256 tree).toOption) = some none := by decide +kernel
    cases hparse : Grammar.parse 256 threeCells with
    | error e => rw [hparse] at hrefused; exact absurd hrefused (by simp [Except.toOption])
    | ok tree =>
        rw [hparse] at hrefused
        have hnone : (Solver.render 256 tree).toOption = none := Option.some.inj hrefused
        cases hrender : Solver.render 256 tree with
        | ok t => rw [hrender] at hnone; exact absurd hnone (by simp [Except.toOption])
        | error e =>
            exact ⟨tree, e, rfl, hrender, convert_failure_cases.2 _ _ _ _ _ hparse hrender⟩

end MathMarkup
