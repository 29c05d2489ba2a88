import MathMarkup.Proofs.DepthLimit

/-!
# Nested functions

The bound on nesting counts sequences. A function whose argument is a command nests no sequence, so
the bound says nothing about `\sin\sin…\sin 1`: it is read under every bound, and the height of its
tree grows with the number of sines (`parse_sines`). What the bound does say is how high a tree can
be that has a given number of functions on a way down (`parse_depth_le`).
-/

namespace MathMarkup.Grammar

open MathMarkup.Grammar.Parser

variable {s : Scope} {rules : Rules}

/-- The sine of the sine, and so on `n` times, of one. -/
def sines : Nat → Text
  | 0 => "1"
  | n + 1 => "\\sin" ++ sines n

/-- Its tokens, from an offset on. -/
def sineTokens : Nat → Nat → List Token
  | pos, 0 => [⟨.char, "1", pos, pos + 1⟩]
  | pos, n + 1 => ⟨.command, "sin", pos, pos + 4⟩ :: sineTokens (pos + 4) n

theorem tokensFrom_sines (pos n : Nat) :
    tokensFrom pos 0 (sines n) = .ok (sineTokens pos n) := by
  induction n generalizing pos with
  | zero => rfl
  | succ n ih =>
      -- the name ends where the next command or the digit begins
      have hname : ("sin" ++ sines n : Text).takeWhile Text.isLetter = "sin" := by
        cases n <;> rfl
      have hhead : headLexeme (Text.byte '\\') ("sin" ++ sines n) = .token .command
          (("sin" ++ sines n : Text).takeWhile Text.isLetter)
          ((("sin" ++ sines n : Text).takeWhile Text.isLetter).length + 1) := rfl
      rw [hname] at hhead
      show tokensFrom pos 0 (Text.byte '\\' :: ("sin" ++ sines n)) = _
      rw [tokensFrom, hhead]
      show (tokensFrom (pos + 4) 0 (sines n) >>= fun more => _) = _
      rw [ih (pos + 4)]
      rfl

theorem tokens_sines (n : Nat) : tokens (sines n) = .ok (sineTokens 0 n) := by
  unfold tokens
  rw [tokensFrom_sines]

/-- The command `\sin` in front of an argument. -/
theorem command_sine (pos stop : Nat) {n : Nat} {arg : Node} {c : Cursor}
    (h : operand rules s ⟨sineTokens (pos + 4) n, pos + 4⟩ = .ok (arg, c)) :
    command rules s ⟨sineTokens pos (n + 1), stop⟩
      = .ok (some (.function .regular [unitAt "sin" ⟨pos, (pos + 4 : Nat)⟩, arg] none
          ⟨pos, c.lastStop⟩), c) := by
  have hcaret : ((⟨sineTokens (pos + 4) n, pos + 4⟩ : Cursor).token s.text.length 0).kind
      ≠ .caret := by cases n <;> simp [sineTokens, Cursor.token]
  have hnamed : named rules "sin" s ⟨sineTokens pos (n + 1), stop⟩
      = .ok (.function .regular [unitAt "sin" ⟨pos, (pos + 4 : Nat)⟩, arg] none
          ⟨pos, c.lastStop⟩, c) := by
    refine (bind_of_ok next_eq).trans ((bind_of_ok (peekAt_eq 0)).trans ?_)
    dsimp only
    refine (congrFun (congrFun (if_neg hcaret) _) _).trans ?_
    exact (bind_of_ok h).trans rfl
  exact (bind_of_ok hnamed).trans rfl

/-- **Nested sines are read as an argument under every bound**, one unfolding of the grammar for
each of them. -/
theorem operand_sines {n k : Nat} (hk : n ≤ k) (s : Scope) (pos stop : Nat) :
    ∃ arg stop', operand (rulesTo k) s ⟨sineTokens pos n, stop⟩ = .ok (arg, ⟨[], stop'⟩)
      ∧ n < arg.depth := by
  induction n generalizing k pos stop with
  | zero => exact ⟨_, _, rfl, Nat.succ_pos _⟩
  | succ n ih =>
      obtain ⟨k, rfl⟩ : ∃ m, k = m + 1 := ⟨k - 1, by omega⟩
      obtain ⟨arg, stop', hrun, hdepth⟩ := ih (k := k) (by omega) (pos + 4) (pos + 4)
      have hcommand := command_sine pos stop hrun
      refine ⟨_, stop', (bind_of_ok (peekAt_eq 0)).trans ((bind_of_ok hcommand).trans rfl), ?_⟩
      simp only [wrapCurly, Node.depth, Node.depthList]
      omega

theorem sineTokens_length (pos n : Nat) : (sineTokens pos n).length = n + 1 := by
  induction n generalizing pos with
  | zero => rfl
  | succ n ih => rw [sineTokens, List.length_cons, ih]

/-- **Nested sines are a text under every bound**, and their tree is as high as they are many. -/
theorem parse_sines {limit : Nat} (hlimit : 1 ≤ limit) (n : Nat) :
    ∃ tree, parse limit (sines (n + 1)) = .ok tree ∧ n < tree.depth := by
  obtain ⟨k, hk, hle⟩ : ∃ k, unfoldings (sineTokens 0 (n + 1)) = k + 2 ∧ n ≤ k := by
    refine ⟨2 * (sineTokens 0 (n + 1)).length, rfl, ?_⟩
    rw [sineTokens_length]
    omega
  obtain ⟨arg, stop, hrun, hdepth⟩ := operand_sines hle ⟨sines (n + 1), limit, 1⟩ 4 4
  -- one sequence is nested in the text, and in it the command is all there is
  have hitems : items (rulesTo (k + 1)) .finish {} ⟨sines (n + 1), limit, 1⟩
      ⟨sineTokens 0 (n + 1), 0⟩ = .ok ([_], ⟨[], stop⟩) :=
    (bind_of_ok (command_sine 0 0 hrun)).trans rfl
  have hsequence : (rulesTo (k + 2)).sequence .finish true ⟨sines (n + 1), limit, 0⟩
      ⟨sineTokens 0 (n + 1), 0⟩ = .ok ([_], ⟨[], stop⟩) :=
    (if_neg (Nat.not_lt.mpr hlimit)).trans hitems
  rw [parse_of_tokens limit (tokens_sines (n + 1)), parseTokens, hk, hsequence]
  refine ⟨_, rfl, ?_⟩
  simp only [Node.depth, Node.depthList]
  omega

/-- **The height of a tree that is read under a bound**: twice the bound and the number of functions
on a way down, and two levels more. -/
theorem parse_depth_le {limit : Nat} {t : Text} {tree : Node} (h : parse limit t = .ok tree) :
    tree.depth ≤ 2 * (limit + tree.functions) + 2 := by
  rcases parse_within limit t with hdeep | ⟨_, hlow⟩
  · rw [hdeep] at h
    exact absurd h (by simp)
  · have hlow : tree.depth ≤ 2 * limit + 2 + 2 * tree.functions := hlow tree h
    omega

/-- A text whose tree is higher is nested too deeply. -/
theorem parse_tooDeep {limit higher : Nat} {t : Text} {tree : Node} (hle : limit ≤ higher)
    (h : parse higher t = .ok tree) (hhigh : 2 * (limit + tree.functions) + 2 < tree.depth) :
    parse limit t = .error (tooDeep limit) := by
  rcases parse_within limit t with hdeep | ⟨hsame, _⟩
  · exact hdeep
  · -- read alike under both bounds, the text would have too high a tree for the lower
    rw [hsame higher hle] at h
    exact absurd (parse_depth_le h) (by omega)

/--
**What the bound on nesting bounds.** The trees of some texts have a greatest height under a bound
if and only if there is a greatest number of functions on a way down them. That height is at most
twice the bound and this number, and two levels more, and a text with a higher tree is nested too
deeply.

Functions themselves are not bounded, so for all texts together there is no greatest height,
whatever the bound.
-/
theorem parse_depth_bounded_iff {limit : Nat} (hlimit : 1 ≤ limit) (texts : Text → Prop) :
    ((∃ bound, ∀ t tree, texts t → parse limit t = .ok tree → tree.depth ≤ bound)
      ↔ ∃ bound, ∀ t tree, texts t → parse limit t = .ok tree → tree.functions ≤ bound)
    ∧ (∀ t tree, parse limit t = .ok tree → tree.depth ≤ 2 * (limit + tree.functions) + 2)
    ∧ (∀ higher t tree, limit ≤ higher → parse higher t = .ok tree →
      2 * (limit + tree.functions) + 2 < tree.depth → parse limit t = .error (tooDeep limit))
    ∧ ¬ ∃ bound, ∀ t tree, parse limit t = .ok tree → tree.depth ≤ bound := by
  refine ⟨⟨?_, ?_⟩, fun _ _ => parse_depth_le, fun _ _ _ => parse_tooDeep, ?_⟩
  · rintro ⟨bound, hbound⟩
    refine ⟨bound, fun t tree ht h => ?_⟩
    exact Nat.le_trans tree.functions_le_depth (hbound t tree ht h)
  · rintro ⟨bound, hbound⟩
    refine ⟨2 * (limit + bound) + 2, fun t tree ht h => ?_⟩
    have hfunctions := hbound t tree ht h
    have hdepth := parse_depth_le h
    omega
  · rintro ⟨bound, hbound⟩
    obtain ⟨tree, h, hdepth⟩ := parse_sines hlimit bound
    exact absurd (hbound _ tree h) (by omega)

/-- Three sines have a tree of nine levels under a bound of one. Two pairs of brackets have one of
six, but not under that bound. -/
theorem nestedSines_depth :
    (∃ tree, parse 1 (sines 3) = .ok tree ∧ tree.depth = 9 ∧ tree.functions = 3
      ∧ tree.depth ≤ 2 * (1 + tree.functions) + 2)
    ∧ (∃ tree, parse 3 "((1))" = .ok tree ∧ tree.depth = 6 ∧ tree.functions = 0)
    ∧ parse 1 "((1))" = .error (tooDeep 1)
    ∧ ¬ ∃ bound, ∀ t tree, parse 1 t = .ok tree → tree.depth ≤ bound := by
  obtain ⟨_, hbound, hdeep, hsines⟩ := parse_depth_bounded_iff (Nat.le_refl 1) fun _ => True
  obtain ⟨tree, htree, hdepth, hfun⟩ : ∃ tree, parse 1 (sines 3) = .ok tree ∧ tree.depth = 9
      ∧ tree.functions = 3 := ⟨_, rfl, rfl, rfl⟩
  obtain ⟨pairs, hpairs, hdepth', hfun'⟩ : ∃ tree, parse 3 "((1))" = .ok tree ∧ tree.depth = 6
      ∧ tree.functions = 0 := ⟨_, rfl, rfl, rfl⟩
  refine ⟨⟨tree, htree, hdepth, hfun, hbound _ tree htree⟩, ⟨pairs, hpairs, hdepth', hfun'⟩,
    hdeep 3 _ pairs (by decide) hpairs ?_, hsines⟩
  rw [hfun', hdepth']
  decide

end MathMarkup.Grammar
