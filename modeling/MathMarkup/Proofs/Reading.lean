import MathMarkup.Proofs.Tokens
import MathMarkup.Grammar.Parser

/-!
# Running a parser

What a production does is stated from the cursor it starts at: it gives a value and a cursor with
some property, or it halts in a way that is allowed (`Meets`). The rules for `Meets` take a
production apart step by step. Looking at tokens and reading them always succeeds, so these steps
are rewritten away; what is left of a production are its calls of other productions.

A cursor only moves forward (`Reads`), over tokens that keep their order and stay literal
(`Cursor.Sound`). The places of syntax errors come from tokens, so they lie in the text (`Placed`).
-/

namespace MathMarkup

namespace Grammar

/-! ## Cursors -/

namespace Cursor

/-- The token `n` places after the cursor of a text of `size` bytes. -/
def token (c : Cursor) (size n : Nat) : Token := (c.rest[n]?).getD (Token.finish size)

/-- The cursor behind the next token, if there is one. -/
def tail (c : Cursor) : Cursor :=
  match c.rest with
  | [] => c
  | t :: ts => ⟨ts, t.stop⟩

/-- The cursor behind the next `n` tokens. -/
def skip : Nat → Cursor → Cursor
  | 0, c => c
  | n + 1, c => skip n c.tail

/-- The second cursor is reached from the first by reading tokens. -/
inductive Reads : Cursor → Cursor → Prop where
  | refl (c : Cursor) : Reads c c
  | next {c : Cursor} {t : Token} {ts : List Token} {stop : Nat} :
      Reads ⟨ts, t.stop⟩ c → Reads ⟨t :: ts, stop⟩ c

theorem Reads.trans {a b c : Cursor} (h : Reads a b) (h' : Reads b c) : Reads a c := by
  induction h with
  | refl => exact h'
  | next _ ih => exact .next (ih h')

theorem reads_tail (c : Cursor) : Reads c c.tail := by
  obtain ⟨rest, stop⟩ := c
  cases rest with
  | nil => exact .refl _
  | cons t ts => exact .next (.refl _)

theorem reads_skip (n : Nat) (c : Cursor) : Reads c (c.skip n) := by
  induction n generalizing c with
  | zero => exact .refl c
  | succ n ih => exact (reads_tail c).trans (ih c.tail)

theorem Reads.length_le {c c' : Cursor} (h : Reads c c') : c'.rest.length ≤ c.rest.length := by
  induction h with
  | refl => exact Nat.le_refl _
  | next _ ih => exact Nat.le_succ_of_le ih

theorem tail_length (c : Cursor) : c.tail.rest.length = c.rest.length - 1 := by
  obtain ⟨rest, stop⟩ := c
  cases rest <;> rfl

theorem skip_length (n : Nat) (c : Cursor) : (c.skip n).rest.length = c.rest.length - n := by
  induction n generalizing c with
  | zero => rfl
  | succ n ih => rw [skip, ih, tail_length]; omega

/-- A cursor in a text of `size` bytes: its tokens follow one another from where it stands, and
those that can stand in leaves are literal. -/
structure Sound (commas : Bool) (size : Nat) (c : Cursor) : Prop where
  tiled : Tiled size c.lastStop c.rest
  literal : ∀ t ∈ c.rest, t.Sound commas

variable {commas : Bool} {size : Nat} {c c' : Cursor}

theorem Reads.sound (h : Reads c c') (hc : c.Sound commas size) : c'.Sound commas size := by
  induction h with
  | refl => exact hc
  | next _ ih =>
      exact ih ⟨hc.tiled.2.2, fun t ht => hc.literal t (List.mem_cons_of_mem _ ht)⟩

/-- The cursor moves forward in the text. -/
theorem Reads.lastStop_le (h : Reads c c') (hc : c.Sound commas size) :
    c.lastStop ≤ c'.lastStop := by
  induction h with
  | refl => exact Nat.le_refl _
  | @next c t ts stop _ ih =>
      have := ih ⟨hc.tiled.2.2, fun t ht => hc.literal t (List.mem_cons_of_mem _ ht)⟩
      exact Nat.le_trans (Nat.le_trans hc.tiled.1 (Nat.le_of_lt hc.tiled.2.1)) this

theorem Sound.tail (hc : c.Sound commas size) : c.tail.Sound commas size := (reads_tail c).sound hc

theorem token_mem (c : Cursor) (size n : Nat) :
    c.token size n ∈ c.rest ∨ c.token size n = Token.finish size := by
  unfold token
  cases h : c.rest[n]? with
  | none => exact Or.inr rfl
  | some t => exact Or.inl (List.mem_of_getElem? h)

/-- A token that is not the end of the text is there to be read. -/
theorem rest_of_kind {kind : TokenKind} (h : (c.token size 0).kind = kind) (hk : kind ≠ .finish) :
    ∃ ts, c.rest = c.token size 0 :: ts := by
  unfold token at *
  cases hr : c.rest with
  | nil => rw [hr] at h; exact absurd h.symm hk
  | cons t ts => exact ⟨ts, rfl⟩

theorem rest_ne_nil {kind : TokenKind} (h : (c.token size 0).kind = kind) (hk : kind ≠ .finish) :
    c.rest ≠ [] := by
  obtain ⟨ts, hts⟩ := rest_of_kind h hk
  rw [hts]
  exact List.cons_ne_nil _ _

theorem Sound.token_literal (hc : c.Sound commas size) (n : Nat) :
    (c.token size n).Sound commas := by
  rcases token_mem c size n with h | h
  · exact hc.literal _ h
  · rw [h]
    intro hk
    exact absurd hk (by simp [Token.finish])

theorem tiled_token {lo : Nat} {ts : List Token} (h : Tiled size lo ts) (n : Nat) :
    lo ≤ ((ts[n]?).getD (Token.finish size)).start
      ∧ ((ts[n]?).getD (Token.finish size)).start ≤ ((ts[n]?).getD (Token.finish size)).stop
      ∧ ((ts[n]?).getD (Token.finish size)).stop ≤ size := by
  induction ts generalizing lo n with
  | nil => exact ⟨h, Nat.le_refl _, Nat.le_refl _⟩
  | cons t ts ih =>
      cases n with
      | zero => exact ⟨h.1, Nat.le_of_lt h.2.1, h.2.2.le⟩
      | succ n =>
          obtain ⟨h1, h2, h3⟩ := ih h.2.2 n
          exact ⟨Nat.le_trans h.1 (Nat.le_trans (Nat.le_of_lt h.2.1) h1), h2, h3⟩

/-- Tokens ahead lie between the end of what was read and the end of the text. -/
theorem Sound.token_place (hc : c.Sound commas size) (n : Nat) :
    c.lastStop ≤ (c.token size n).start ∧ (c.token size n).start ≤ (c.token size n).stop
      ∧ (c.token size n).stop ≤ size := tiled_token hc.tiled n

theorem Sound.token_le (hc : c.Sound commas size) (n : Nat) :
    (c.token size 0).start ≤ (c.token size n).stop := by
  obtain ⟨rest, stop⟩ := c
  cases rest with
  | nil => exact (hc.token_place n).2.1
  | cons t ts =>
      cases n with
      | zero => exact (hc.token_place 0).2.1
      | succ n =>
          obtain ⟨h1, h2, _⟩ := tiled_token hc.tiled.2.2 n
          exact Nat.le_trans (Nat.le_of_lt hc.tiled.2.1) (Nat.le_trans h1 h2)

theorem Sound.lastStop_le (hc : c.Sound commas size) : c.lastStop ≤ size := hc.tiled.le

/-- At least one token has been read. -/
def Past (c c' : Cursor) : Prop := c.Reads c' ∧ c'.rest.length < c.rest.length

theorem Reads.past {a b d : Cursor} (h : a.Reads b) (h' : b.Past d) : a.Past d :=
  ⟨h.trans h'.1, Nat.lt_of_lt_of_le h'.2 h.length_le⟩

theorem Past.reads {a b d : Cursor} (h : a.Past b) (h' : b.Reads d) : a.Past d :=
  ⟨h.1.trans h', Nat.lt_of_le_of_lt h'.length_le h.2⟩

/-- Reading a token that is not the end of the text moves the cursor. -/
theorem past_tail {kind : TokenKind} (h : (c.token size 0).kind = kind) (hk : kind ≠ .finish) :
    c.Past c.tail := by
  obtain ⟨ts, hts⟩ := rest_of_kind h hk
  refine ⟨c.reads_tail, ?_⟩
  rw [c.tail_length, hts, List.length_cons]
  omega

theorem past_skip {n : Nat} (hn : 1 ≤ n) (h : c.rest ≠ []) : c.Past (c.skip n) := by
  have : c.rest.length ≠ 0 := fun h0 => h (List.length_eq_zero_iff.mp h0)
  exact ⟨c.reads_skip n, by rw [c.skip_length]; omega⟩

/-- A cursor that has moved has moved over the next token. -/
theorem Past.tail (h : c.Past c') : c.tail.Reads c' := by
  obtain ⟨hr, hlt⟩ := h
  cases hr with
  | refl => exact absurd hlt (Nat.lt_irrefl _)
  | next hr => exact hr

/-- A token that was read starts before where the cursor stands. -/
theorem Sound.token_lt (hc : c.Sound commas size) (h : c.Past c') :
    (c.token size 0).start < c'.lastStop := by
  have hr := h.tail
  obtain ⟨rest, stop⟩ := c
  cases rest with
  | nil => exact absurd h.2 (by simp)
  | cons t ts => exact Nat.lt_of_lt_of_le hc.tiled.2.1 (hr.lastStop_le hc.tail)

end Cursor

end Grammar

/-! ## Places of errors -/

/-- A syntax error for bytes of a text, with the line and column of the first of them. -/
def SyntaxError.Placed (t : Text) (e : SyntaxError) : Prop :=
  ∃ start stop : Nat, start ≤ stop ∧ stop ≤ t.length ∧ e.start = start ∧ e.stop = stop
    ∧ e.line = Grammar.lineAt t start ∧ e.column = Grammar.columnAt t start

/-- The ways in which reading a text fails: at a place of it, or because it is nested too deeply. -/
def StageError.Placed (t : Text) : StageError → Prop
  | .markup e => e.Placed t
  | .limit e => e.reason = some .depthLimit
  | _ => False

namespace Grammar

open MathMarkup.Grammar.Parser

/-! ## Taking a parser apart -/

variable {α β : Type} {short : Prop} {s : Scope} {c : Cursor}

/--
From this cursor a parser gives a value and a cursor with `post`, or refuses the text at a place of
it. It runs out of unfoldings of the grammar only if `short` holds.
-/
def Meets (short : Prop) (p : Parser α) (s : Scope) (c : Cursor) (post : α → Cursor → Prop) :
    Prop :=
  match p s c with
  | .ok (a, c') => post a c'
  | .error (.failed e _) => e.Placed s.text
  | .error .spent => short

theorem run_bind (p : Parser α) (f : α → Parser β) :
    (p >>= f) s c = match p s c with
      | .ok (a, c') => f a s c'
      | .error h => .error h := rfl

theorem Meets.bind {p : Parser α} {f : α → Parser β} {P : α → Cursor → Prop}
    {post : β → Cursor → Prop} (hp : Meets short p s c P)
    (hf : ∀ a c', P a c' → Meets short (f a) s c' post) : Meets short (p >>= f) s c post := by
  -- a halt of `p` is one of both, for the same reason
  unfold Meets at hp ⊢
  rw [run_bind]
  cases h : p s c with
  | ok r => rw [h] at hp; exact hf r.1 r.2 hp
  | error e => rw [h] at hp; cases e <;> exact hp

theorem Meets.mono {p : Parser α} {post post' : α → Cursor → Prop} {short' : Prop}
    (h : Meets short p s c post) (hs : short → short') (hpost : ∀ a c', post a c' → post' a c') :
    Meets short' p s c post' := by
  unfold Meets at h ⊢
  split at h
  · exact hpost _ _ h
  · exact h
  · exact hs h

theorem Meets.map {p : Parser α} {f : α → β} {P : α → Cursor → Prop} {post : β → Cursor → Prop}
    (h : Meets short p s c P) (hf : ∀ a c', P a c' → post (f a) c') :
    Meets short (f <$> p) s c post :=
  h.bind (f := fun a => pure (f a)) hf

theorem meets_ite {b : Prop} [Decidable b] {p q : Parser α} {post : α → Cursor → Prop}
    (hp : b → Meets short p s c post) (hq : ¬ b → Meets short q s c post) :
    Meets short (if b then p else q) s c post := by
  split
  · exact hp ‹b›
  · exact hq ‹¬ b›

@[simp] theorem meets_pure {a : α} {post : α → Cursor → Prop} :
    Meets short (pure a) s c post ↔ post a c := Iff.rfl

theorem bind_of_ok {p : Parser α} {f : α → Parser β} {a : α} {c' : Cursor}
    (h : p s c = .ok (a, c')) : (p >>= f) s c = f a s c' := by
  rw [run_bind, h]

/-- A step that always succeeds is taken. -/
theorem meets_of_ok {p : Parser α} {f : α → Parser β} {a : α} {c' : Cursor}
    {post : β → Cursor → Prop} (h : p s c = .ok (a, c')) :
    Meets short (p >>= f) s c post ↔ Meets short (f a) s c' post := by
  unfold Meets
  rw [bind_of_ok h]

theorem peekAt_eq (n : Nat) : peekAt n s c = .ok (c.token s.text.length n, c) := by
  unfold peekAt Cursor.token
  cases c.rest[n]? <;> rfl

theorem next_eq : next s c = .ok (c.token s.text.length 0, c.tail) := by
  obtain ⟨rest, stop⟩ := c
  cases rest <;> rfl

theorem skip_eq (n : Nat) : Parser.skip n s c = .ok ((), c.skip n) := by
  induction n generalizing c with
  | zero => rfl
  | succ n ih =>
      rw [Parser.skip, bind_of_ok next_eq]
      exact ih

@[simp] theorem meets_pure_bind {a : α} {f : α → Parser β} {post : β → Cursor → Prop} :
    Meets short (pure a >>= f) s c post ↔ Meets short (f a) s c post := meets_of_ok rfl

@[simp] theorem meets_peekAt {n : Nat} {f : Token → Parser β} {post : β → Cursor → Prop} :
    Meets short (peekAt n >>= f) s c post ↔ Meets short (f (c.token s.text.length n)) s c post :=
  meets_of_ok (peekAt_eq n)

@[simp] theorem meets_peek {f : Token → Parser β} {post : β → Cursor → Prop} :
    Meets short (peek >>= f) s c post ↔ Meets short (f (c.token s.text.length 0)) s c post :=
  meets_of_ok (peekAt_eq 0)

@[simp] theorem meets_lookahead {f : List Token → Parser β} {post : β → Cursor → Prop} :
    Meets short (lookahead >>= f) s c post ↔ Meets short (f c.rest) s c post := meets_of_ok rfl

@[simp] theorem meets_lastStop {f : Nat → Parser β} {post : β → Cursor → Prop} :
    Meets short (lastStop >>= f) s c post ↔ Meets short (f c.lastStop) s c post := meets_of_ok rfl

@[simp] theorem meets_next {f : Token → Parser β} {post : β → Cursor → Prop} :
    Meets short (next >>= f) s c post ↔ Meets short (f (c.token s.text.length 0)) s c.tail post :=
  meets_of_ok next_eq

@[simp] theorem meets_skip {n : Nat} {f : Unit → Parser β} {post : β → Cursor → Prop} :
    Meets short (Parser.skip n >>= f) s c post ↔ Meets short (f ()) s (c.skip n) post :=
  meets_of_ok (skip_eq n)

/-! ## Refusals -/

theorem meets_failAt {start stop : Nat} {found detail suggestion : Text} {post : α → Cursor → Prop}
    (h1 : start ≤ stop) (h2 : stop ≤ s.text.length) :
    Meets short (failAt start stop found detail suggestion) s c post :=
  ⟨start, stop, h1, h2, rfl, rfl, rfl, rfl⟩

theorem meets_unexpected {t : Token} {expected : List Text} {post : α → Cursor → Prop}
    (h1 : t.start ≤ t.stop) (h2 : t.stop ≤ s.text.length) :
    Meets short (unexpected t expected) s c post :=
  ⟨t.start, t.stop, h1, h2, rfl, rfl, rfl, rfl⟩

variable {commas : Bool}

/-- Refusing a token ahead. -/
theorem meets_unexpected_token {n : Nat} {expected : List Text} {post : α → Cursor → Prop}
    (hc : c.Sound commas s.text.length) :
    Meets short (unexpected (c.token s.text.length n) expected) s c post :=
  meets_unexpected (hc.token_place n).2.1 (hc.token_place n).2.2

/-- A token that is expected is there and is read, or it is refused. -/
theorem meets_expect {kind : TokenKind} {f : Token → Parser β} {post : β → Cursor → Prop}
    (hc : c.Sound commas s.text.length)
    (h : (c.token s.text.length 0).kind = kind →
      Meets short (f (c.token s.text.length 0)) s c.tail post) :
    Meets short (expect kind >>= f) s c post := by
  refine Meets.bind (P := fun t c' => t = c.token s.text.length 0 ∧ c' = c.tail
    ∧ (c.token s.text.length 0).kind = kind) ?_ ?_
  · unfold expect
    rw [meets_peek]
    split
    · rename_i hk
      unfold Meets
      rw [next_eq]
      exact ⟨rfl, rfl, hk⟩
    · exact meets_unexpected_token hc
  · rintro t c' ⟨rfl, rfl, hk⟩
    exact h hk

/-- Going one sequence further in changes the depth only. -/
theorem meets_nested {p : Parser α} {post : α → Cursor → Prop}
    (h : Meets short p { s with depth := s.depth + 1 } c post) :
    Meets short (nested p) s c post := by
  -- too deep a sequence fails with the limit, which has no place; else `p` decides
  unfold Meets nested
  split
  · rename_i hs
    split at hs
    · exact absurd hs (by simp [fail])
    · unfold Meets at h; rw [hs] at h; exact h
  · rename_i e atEnd hs
    split at hs
    · obtain ⟨rfl, _⟩ := Halt.failed.inj (Except.error.inj hs)
      rfl
    · unfold Meets at h; rw [hs] at h; exact h
  · rename_i hs
    split at hs
    · exact absurd hs (by simp [fail])
    · unfold Meets at h; rw [hs] at h; exact h

/-- Another wording leaves an error where it is. -/
theorem Meets.rewordAtEnd {p : Parser α} {post : α → Cursor → Prop} {detail : Text}
    (h : Meets short p s c post) : Meets short (rewordAtEnd detail p) s c post := by
  unfold Meets Parser.rewordAtEnd at *
  split
  · rename_i hs
    split at hs
    · exact absurd hs (by simp)
    · rw [hs] at h; exact h
  · rename_i e atEnd hs
    split at hs
    · rename_i e' hp
      obtain ⟨rfl, _⟩ := Halt.failed.inj (Except.error.inj hs)
      rw [hp] at h
      exact h
    · rw [hs] at h; exact h
  · rename_i hs
    split at hs
    · exact absurd hs (by simp)
    · rw [hs] at h; exact h

end Grammar

end MathMarkup
