import MathMarkup.Proofs.Reading

/-!
# What a successful run has read

`Yields` is about the runs of a parser that succeed: whatever value and cursor they give have a
property. Refusals and runs that are cut short give nothing, so they need no rule of their own; the
other rules take a production apart into its calls, as those of `Meets` do.
-/

namespace MathMarkup.Grammar

open MathMarkup.Grammar.Parser

variable {α β : Type} {s : Scope} {c : Cursor}

/-- Whatever a parser gives from this cursor has `post`. -/
def Yields (p : Parser α) (s : Scope) (c : Cursor) (post : α → Cursor → Prop) : Prop :=
  ∀ a c', p s c = .ok (a, c') → post a c'

section Steps

variable {p : Parser α} {f : α → Parser β} {P : α → Cursor → Prop} {post : β → Cursor → Prop}

theorem Yields.bind (hp : Yields p s c P) (hf : ∀ a c', P a c' → Yields (f a) s c' post) :
    Yields (p >>= f) s c post := by
  intro b c2 hrun
  rw [run_bind] at hrun
  cases h : p s c with
  | ok r =>
      rw [h] at hrun
      exact hf r.1 r.2 (hp _ _ h) b c2 hrun
  | error e =>
      rw [h] at hrun
      exact absurd hrun (by simp)

theorem Yields.mono {P' : α → Cursor → Prop} (hp : Yields p s c P)
    (hP : ∀ a c', P a c' → P' a c') : Yields p s c P' := fun a c' h => hP a c' (hp a c' h)

theorem yields_pure {a : α} : Yields (pure a) s c P ↔ P a c := by
  constructor
  · intro h
    exact h a c rfl
  · intro h a' c' hrun
    cases hrun
    exact h

theorem Yields.map {g : α → β} (hp : Yields p s c P) (hg : ∀ a c', P a c' → post (g a) c') :
    Yields (g <$> p) s c post := by
  show Yields (p >>= fun a => pure (g a)) s c post
  exact hp.bind fun a c' ha => yields_pure.mpr (hg a c' ha)

theorem yields_ite {b : Prop} [Decidable b] {q : Parser α} (hp : b → Yields p s c P)
    (hq : ¬ b → Yields q s c P) : Yields (if b then p else q) s c P := by
  split
  · exact hp ‹b›
  · exact hq ‹¬ b›

/-- A step that always succeeds is taken. -/
theorem yields_of_ok {a : α} {c' : Cursor} (h : p s c = .ok (a, c')) :
    Yields (p >>= f) s c post ↔ Yields (f a) s c' post := by
  unfold Yields
  rw [bind_of_ok h]

theorem yields_pure_bind {a : α} : Yields (pure a >>= f) s c post ↔ Yields (f a) s c post :=
  yields_of_ok rfl

/-- What cannot succeed yields anything. -/
theorem yields_of_error {e : Halt} (h : p s c = .error e) : Yields p s c P := by
  intro a c' hrun
  rw [h] at hrun
  exact absurd hrun (by simp)

end Steps

section Tokens

variable {f : Token → Parser β} {post : β → Cursor → Prop}

theorem yields_peekAt {n : Nat} :
    Yields (peekAt n >>= f) s c post ↔ Yields (f (c.token s.text.length n)) s c post :=
  yields_of_ok (peekAt_eq n)

theorem yields_peek :
    Yields (peek >>= f) s c post ↔ Yields (f (c.token s.text.length 0)) s c post :=
  yields_of_ok (peekAt_eq 0)

theorem yields_next :
    Yields (next >>= f) s c post ↔ Yields (f (c.token s.text.length 0)) s c.tail post :=
  yields_of_ok next_eq

theorem yields_lookahead {g : List Token → Parser β} :
    Yields (lookahead >>= g) s c post ↔ Yields (g c.rest) s c post := yields_of_ok rfl

theorem yields_lastStop {g : Nat → Parser β} :
    Yields (lastStop >>= g) s c post ↔ Yields (g c.lastStop) s c post := yields_of_ok rfl

theorem yields_skip {n : Nat} {g : Unit → Parser β} :
    Yields (Parser.skip n >>= g) s c post ↔ Yields (g ()) s (c.skip n) post :=
  yields_of_ok (skip_eq n)

theorem yields_failAt {start stop : Nat} {found detail suggestion : Text} :
    Yields (failAt start stop found detail suggestion) s c post := yields_of_error rfl

theorem yields_unexpected {t : Token} {expected : List Text} :
    Yields (unexpected t expected) s c post := yields_of_error rfl

theorem yields_spent : Yields Parser.spent s c post := yields_of_error rfl

/-- A token that is expected is there and is read. -/
theorem yields_expect {kind : TokenKind}
    (h : (c.token s.text.length 0).kind = kind →
      Yields (f (c.token s.text.length 0)) s c.tail post) :
    Yields (expect kind >>= f) s c post := by
  refine Yields.bind (P := fun t c' => t = c.token s.text.length 0 ∧ c' = c.tail
    ∧ (c.token s.text.length 0).kind = kind) ?_ ?_
  · unfold expect
    rw [yields_peek]
    refine yields_ite (fun hk => ?_) fun _ => yields_unexpected
    intro t c' hrun
    rw [next_eq] at hrun
    cases hrun
    exact ⟨rfl, rfl, hk⟩
  · rintro t c' ⟨rfl, rfl, hk⟩
    exact h hk

end Tokens

theorem yields_nested {p : Parser α} {post : α → Cursor → Prop}
    (h : Yields p { s with depth := s.depth + 1 } c post) : Yields (nested p) s c post := by
  intro a c' hrun
  unfold nested at hrun
  split at hrun
  · exact absurd hrun (by simp [fail])
  · exact h a c' hrun

theorem Yields.rewordAtEnd {p : Parser α} {post : α → Cursor → Prop} {detail : Text}
    (h : Yields p s c post) : Yields (rewordAtEnd detail p) s c post := by
  intro a c' hrun
  unfold Parser.rewordAtEnd at hrun
  split at hrun
  · exact absurd hrun (by simp)
  · exact h a c' hrun

end MathMarkup.Grammar
