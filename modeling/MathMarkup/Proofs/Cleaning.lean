import MathMarkup.Proofs.Tracing

/-!
# What comes out of cleaning

A pass applies the rules one after the other, and cleaning makes passes until one changes nothing.
Followed through all of that, the result of cleaning is an edited source (`traceFrom_traces`), and
without the marks it is the result of `clean` (`traceClean_bytes`).

For whoever reads the result, the last rule of a pass matters most: no comma is left that the rule
would remove (`clean_removeCommas`). For whoever reads the error, it has a place in the source
(`clean_located`), since the text never grows.
-/

namespace MathMarkup.Cleaning

/-! ## Passes -/

/-- Rules one after the other, on a text with marks. -/
def traceRules (rules : List Rule) (xs : List Mark) : Except StageError (List Mark) :=
  rules.foldlM (fun xs rule => rule.trace xs) xs

theorem traceRules_bytes (rules : List Rule) (xs : List Mark) :
    (traceRules rules xs).map bytes = rules.foldlM (fun t rule => rule.apply t) (bytes xs) := by
  induction rules generalizing xs with
  | nil => rfl
  | cons rule rules ih =>
      rw [traceRules, List.foldlM_cons, List.foldlM_cons, ← rule.trace_bytes]
      cases rule.trace xs with
      | error e => rfl
      | ok ys => exact ih ys

theorem Traces.after {xs ys : List Mark} {r : Except StageError (List Mark)} (hr : Traces ys r)
    (h : Edits xs ys) : Traces xs r := by
  unfold Traces at *
  split at hr
  · exact h.trans hr
  · exact hr.mono h.length_le

theorem Traces.bind {xs : List Mark} {r : Except StageError (List Mark)}
    {f : List Mark → Except StageError (List Mark)} (h : Traces xs r)
    (hf : ∀ ys, Edits xs ys → Traces ys (f ys)) : Traces xs (r >>= f) := by
  cases r with
  | error e => exact h
  | ok ys => exact (hf ys h).after h

theorem traceRules_traces (rules : List Rule) (xs : List Mark) :
    Traces xs (traceRules rules xs) := by
  induction rules generalizing xs with
  | nil => exact .refl
  | cons rule rules ih =>
      rw [traceRules, List.foldlM_cons]
      exact (rule.trace_traces xs).bind fun ys _ => ih ys

/-! ## Cleaning -/

/-- `cleanFrom` on a text with marks. -/
def traceFrom (limit : Nat) : Nat → List Mark → Except StageError (List Mark)
  | 0, _ => .error (nonConvergence limit)
  | left + 1, xs =>
    match traceRules Rule.all xs with
    | .error e => .error e
    | .ok next => if bytes next = bytes xs then .ok next else traceFrom limit left next

/-- Cleans a source and keeps the places of its bytes. -/
def traceClean (limit : Nat) (source : Text) : Except StageError (List Mark) :=
  traceFrom limit limit (marked source)

theorem traceFrom_bytes (limit left : Nat) (xs : List Mark) :
    (traceFrom limit left xs).map bytes = (cleanFrom limit left (bytes xs)).result := by
  induction left generalizing xs with
  | zero => rfl
  | succ left ih =>
      rw [traceFrom, cleanFrom, pass, ← traceRules_bytes]
      cases traceRules Rule.all xs with
      | error e => rfl
      | ok next =>
          show (if bytes next = bytes xs then .ok next else traceFrom limit left next).map bytes
            = (if bytes next = bytes xs then (⟨.ok (bytes next), limit - left⟩ : Outcome)
              else cleanFrom limit left (bytes next)).result
          by_cases heq : bytes next = bytes xs
          · rw [if_pos heq, if_pos heq]
            rfl
          · rw [if_neg heq, if_neg heq]
            exact ih next

/-- **Without the marks it is cleaning.** -/
theorem traceClean_bytes (limit : Nat) (source : Text) :
    (traceClean limit source).map bytes = (clean limit source).result := by
  unfold traceClean clean
  rw [traceFrom_bytes, bytes_marked]

/-- **Cleaning edits the source**, fails at a place of it, or does not come to an end in time. -/
theorem traceFrom_traces (limit left : Nat) (xs : List Mark) :
    Traces xs (traceFrom limit left xs)
      ∨ traceFrom limit left xs = .error (nonConvergence limit) := by
  induction left generalizing xs with
  | zero => exact Or.inr rfl
  | succ left ih =>
      have hpass := traceRules_traces Rule.all xs
      rw [traceFrom]
      cases hrules : traceRules Rule.all xs with
      | error e => rw [hrules] at hpass; exact Or.inl hpass
      | ok next =>
          rw [hrules] at hpass
          have hpass : Edits xs next := hpass
          dsimp only
          split
          · exact Or.inl hpass
          · rcases ih next with hnext | hnext
            · exact Or.inl (hnext.after hpass)
            · exact Or.inr hnext

/-! ## Commas -/

theorem removeCommasFrom_idem (odd : Bool) (t : Text) :
    removeCommasFrom odd (removeCommasFrom odd t) = removeCommasFrom odd t := by
  induction t generalizing odd with
  | nil => rfl
  | cons b t ih =>
      rw [removeCommasFrom]
      split
      · -- a comma goes only behind an even number of backslashes, and leaves the parity as it is
        rename_i hb
        have : odd = false := by simpa using (Bool.and_eq_true_iff.mp hb).2
        subst this
        exact ih false
      · rename_i hb
        rw [removeCommasFrom, if_neg hb, ih]

/-- The last rule of a pass is the one for commas. -/
theorem pass_removeCommas {t u : Text} (h : pass t = .ok u) : removeCommas u = u := by
  obtain ⟨v, rfl⟩ : ∃ v, u = removeCommas v := by
    unfold pass Rule.all at h
    rw [show [Rule.textcolor, .operators, .leftRight, .text, .spacing, .ampersand, .comma]
      = [Rule.textcolor, .operators, .leftRight, .text, .spacing, .ampersand] ++ [.comma] from rfl,
      List.foldlM_append] at h
    cases hv : [Rule.textcolor, .operators, .leftRight, .text, .spacing, .ampersand].foldlM
        (fun t rule => rule.apply t) t with
    | error e => rw [hv] at h; exact absurd h (by simp [bind, Except.bind])
    | ok v => rw [hv] at h; exact ⟨v, (Except.ok.inj h).symm⟩
  exact removeCommasFrom_idem false v

theorem cleanFrom_removeCommas {limit left : Nat} {t c : Text}
    (h : (cleanFrom limit left t).result = .ok c) : removeCommas c = c := by
  induction left generalizing t with
  | zero => exact absurd h (by simp [cleanFrom])
  | succ left ih =>
      rw [cleanFrom] at h
      split at h
      · exact absurd h (by simp)
      · rename_i next hpass
        split at h
        · cases h
          exact pass_removeCommas hpass
        · exact ih h

/-- **No separating comma is left in a cleaned text.** -/
theorem clean_removeCommas {limit : Nat} {source c : Text}
    (h : (clean limit source).result = .ok c) : removeCommas c = c := cleanFrom_removeCommas h

/-- **The failures of cleaning have a place in the source**, or the passes were too few. -/
theorem clean_located {limit : Nat} {source : Text} {e : StageError}
    (h : (clean limit source).result = .error e) :
    e.Located source.length ∨ e = nonConvergence limit := by
  rw [← traceClean_bytes] at h
  have htraces := traceFrom_traces limit limit (marked source)
  unfold traceClean at h
  cases htrace : traceFrom limit limit (marked source) with
  | ok ys => rw [htrace] at h; exact absurd h (by simp [Except.map])
  | error e' =>
      rw [htrace] at h htraces
      obtain rfl := Except.error.inj h
      have hlen : (marked source).length = source.length := by simp [marked]
      rcases htraces with hloc | hlimit
      · exact Or.inl (hlen ▸ hloc)
      · exact Or.inr (Except.error.inj hlimit)

end MathMarkup.Cleaning
