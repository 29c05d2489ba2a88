import MathMarkup.Proofs.Boundaries

/-!
# Reading with something behind

A parser is run twice: on the tokens of a text alone, and with a boundary behind them. `Follows`
says what the second run gives if the first succeeds. Three things are asked of it:

* `Steady`: it gives the same value and stands before the same tokens, the boundary behind them;
* `Inside`: it does so unless the first run has come to the end of the text. This is what can be
  said of a sequence with a stop of its own, which reaches the end only to be refused there;
* `Carried`: it does so unless the value ends in an operand without brackets at the end of the text
  and the boundary goes on with letters. Then the second run takes these letters in.

Places are the same in both runs; the end of the first text is where the boundary starts.
-/

namespace MathMarkup

/-! ## Loose ends -/

/-- The functions whose last argument is an operand: a group, or letters and digits as far as they
go. -/
def FunctionName.takesOperand : FunctionName → Bool
  | regular | derivative | logarithm | logarithm10 | logarithmLn | limit => true
  | _ => false

namespace Node

mutual

/-- Whether a tree ends in an operand without brackets, seen from its last argument. -/
def isLoose : Node → Bool
  | function name args _ _ => lastLoose name.takesOperand args
  | _ => false

/-- Whether the last of some arguments is loose. -/
def lastLoose (operand : Bool) : List Node → Bool
  | [] => false
  | [n] => argumentLoose operand n
  | _ :: n :: ns => lastLoose operand (n :: ns)

/-- Whether an argument is loose: letters and digits where an operand is asked for, or one construct
as an argument. -/
def argumentLoose (operand : Bool) : Node → Bool
  | unit _ _ => operand
  | expression .curly ns _ => singleLoose ns
  | _ => false

/-- Whether a list is a single tree that is loose. -/
def singleLoose : List Node → Bool
  | [n] => isLoose n
  | _ => false

end

theorem lastLoose_append (operand : Bool) (args : List Node) (n : Node) :
    lastLoose operand (args ++ [n]) = argumentLoose operand n := by
  induction args with
  | nil => rfl
  | cons a args ih =>
      cases args with
      | nil => rfl
      | cons b args => exact ih

/-- Whether the last tree of a sequence is loose. -/
def endsLoose (nodes : List Node) : Bool := nodes.getLast?.any isLoose

end Node

namespace Grammar

open MathMarkup.Grammar.Parser

variable {α β : Type} {tail : List Token} {ends : Bool} {s s' : Scope} {c c' : Cursor}

/-! ## Cursors before a boundary -/

namespace Cursor

/-- The cursor with more tokens behind those that are left. -/
def followed (c : Cursor) (tail : List Token) : Cursor := { c with rest := c.rest ++ tail }

@[simp] theorem followed_rest : (c.followed tail).rest = c.rest ++ tail := rfl

theorem followed_token {n : Nat} (hn : n < c.rest.length) (size size' : Nat) :
    (c.followed tail).token size' n = c.token size n := by
  unfold token
  rw [followed_rest, List.getElem?_append_left hn, List.getElem?_eq_getElem hn]
  rfl

theorem followed_tail (hc : c.rest ≠ []) : (c.followed tail).tail = c.tail.followed tail := by
  obtain ⟨rest, stop⟩ := c
  cases rest with
  | nil => exact absurd rfl hc
  | cons t ts => rfl

theorem followed_skip {n : Nat} (hn : n ≤ c.rest.length) :
    (c.followed tail).skip n = (c.skip n).followed tail := by
  induction n generalizing c with
  | zero => rfl
  | succ n ih =>
      have hc : c.rest ≠ [] := by
        intro hnil
        rw [hnil] at hn
        exact absurd hn (by simp)
      rw [skip, followed_tail hc, skip]
      refine ih ?_
      rw [tail_length]
      omega

/-- What is known of the tokens before a boundary: if it begins with a letter, no `d` is among them
that could be taken for a differential, and `ends` tells whether the last of them and the boundary
could belong to one run of letters and digits. -/
structure Apart (tail : List Token) (ends : Bool) (c : Cursor) : Prop where
  clear : ∀ u ∈ tail.head?, u.isLetter = true → ∀ t ∈ c.rest, t.isChar "d" = false
  last : ∀ z ∈ c.rest.getLast?, ends = (z.isOperand && tail.head?.any Token.isOperand)

theorem Apart.suffix {xs : List Token} (h : c.Apart tail ends) (hrest : c.rest = xs ++ c'.rest) :
    c'.Apart tail ends := by
  refine ⟨fun u hu hletter t ht => h.clear u hu hletter t ?_, fun z hz => h.last z ?_⟩
  · rw [hrest]
    exact List.mem_append_right _ ht
  · rw [hrest, List.getLast?_append, Option.mem_def.mp hz]
    rfl

theorem Apart.reads (h : c.Apart tail ends) (hreads : c.Reads c') : c'.Apart tail ends := by
  induction hreads with
  | refl => exact h
  | next _ ih =>
      refine ih ?_
      exact h.suffix (List.singleton_append ..).symm

/-- A text whose last token belongs to no run does not end in one. -/
theorem Apart.closed {xs : List Token} {z : Token} (h : c.Apart tail ends) (hz : z.kind ≠ .char)
    (hrest : c.rest = xs ++ z :: c'.rest) (hend : c'.rest = []) : ends = false := by
  have hoperand : z.isOperand = false := by simp [Token.isOperand, hz]
  have hlast := h.last z (by rw [hrest, hend]; simp)
  rw [hlast, hoperand, Bool.false_and]

theorem Apart.closed_tail {size : Nat} {kind : TokenKind} (h : c.Apart tail ends)
    (hk : (c.token size 0).kind = kind) (hfinish : kind ≠ .finish) (hchar : kind ≠ .char)
    (hend : c.tail.rest = []) : ends = false := by
  have hrest : c.rest = [] ++ c.token size 0 :: c.tail.rest := rest_tail hk hfinish
  exact h.closed (by rw [hk]; exact hchar) hrest hend

end Cursor

/-- The second scope has the room that the first has, and the first text ends where the boundary
starts. -/
structure Scope.Fits (tail : List Token) (s s' : Scope) : Prop where
  place : ∀ u ∈ tail.head?, u.start = s.text.length
  room : s.limit + s'.depth ≤ s'.limit + s.depth

theorem Scope.Fits.nested (h : s.Fits tail s') :
    Scope.Fits tail { s with depth := s.depth + 1 } { s' with depth := s'.depth + 1 } :=
  ⟨h.place, by have := h.room; dsimp only; omega⟩

/-- Where the next token starts, be it the boundary. -/
theorem Scope.Fits.start (h : s.Fits tail s') (htail : tail ≠ []) :
    ((c.followed tail).token s'.text.length 0).start = (c.token s.text.length 0).start := by
  by_cases hc : c.rest = []
  · obtain ⟨u, rest, rfl⟩ := List.exists_cons_of_ne_nil htail
    have hu := h.place u rfl
    simp [Cursor.token, hc, hu, Token.finish]
  · rw [Cursor.followed_token (List.length_pos_iff.mpr hc)]

/-! ## Two runs -/

/-- Whatever the first parser gives, it and what the second parser does with `tail` behind are
related by `post`. -/
def Follows (tail : List Token) (p p' : Parser α) (s s' : Scope) (c : Cursor)
    (post : α → Cursor → Except Halt (α × Cursor) → Prop) : Prop :=
  ∀ a c1, p s c = .ok (a, c1) → post a c1 (p' s' (c.followed tail))

/-- The second run gives the same. -/
def Steady (tail : List Token) (ends : Bool) (P : α → Cursor → Prop) (a : α) (c : Cursor)
    (run : Except Halt (α × Cursor)) : Prop :=
  c.Apart tail ends ∧ P a c ∧ run = .ok (a, c.followed tail)

/-- The second run gives the same if the first has not come to the end of the text. -/
def Inside (tail : List Token) (ends : Bool) (a : α) (c : Cursor) (run : Except Halt (α × Cursor)) :
    Prop :=
  c.rest ≠ [] → c.Apart tail ends ∧ run = .ok (a, c.followed tail)

/-- The second run gives the same, or takes in what the boundary goes on with. In a value, `loose`
tells whether it ends in an operand without brackets, if it ends in anything. -/
inductive Carried (tail : List Token) (ends : Bool) (loose : α → Option Bool) (a : α) (c : Cursor) :
    Except Halt (α × Cursor) → Prop
  | same : c.Apart tail ends → (c.rest = [] → ends = true → loose a = some false) →
      Carried tail ends loose a c (.ok (a, c.followed tail))
  | grown {a' : α} {c' : Cursor} : c.Apart tail ends → c.rest = [] → ends = true →
      loose a = some true → loose a' = some true → c'.rest = tail.dropWhile Token.isOperand →
      Carried tail ends loose a c (.ok (a', c'))

theorem Carried.inside {loose : α → Option Bool} {a : α} {run : Except Halt (α × Cursor)}
    (h : Carried tail ends loose a c run) : Inside tail ends a c run := by
  intro hc
  cases h with
  | same hapart _ => exact ⟨hapart, rfl⟩
  | grown _ hend => exact absurd hend hc

theorem Steady.inside {P : α → Cursor → Prop} {a : α} {run : Except Halt (α × Cursor)}
    (h : Steady tail ends P a c run) : Inside tail ends a c run := fun _ => ⟨h.1, h.2.2⟩

/-- The text does not end in a run here. -/
def Shut (ends : Bool) (_ : α) (c : Cursor) : Prop := c.rest = [] → ends = false

theorem Steady.carried {loose : α → Option Bool} {a : α} {run : Except Halt (α × Cursor)}
    (h : Steady tail ends (Shut ends) a c run) : Carried tail ends loose a c run := by
  obtain ⟨hapart, hshut, rfl⟩ := h
  refine .same hapart fun hend hends => ?_
  rw [hshut hend] at hends
  exact absurd hends (by simp)

section Steps

variable {p p' : Parser α} {f f' : α → Parser β} {P : α → Cursor → Prop}
  {Q : α → Cursor → Except Halt (α × Cursor) → Prop}
  {post : β → Cursor → Except Halt (β × Cursor) → Prop}

theorem Follows.mono {Q' : α → Cursor → Except Halt (α × Cursor) → Prop}
    (h : Follows tail p p' s s' c Q) (hQ : ∀ a c1 run, Q a c1 run → Q' a c1 run) :
    Follows tail p p' s s' c Q' := fun a c1 hrun => hQ a c1 _ (h a c1 hrun)

theorem follows_pure {a : α} (h : Q a c (.ok (a, c.followed tail))) :
    Follows tail (pure a) (pure a) s s' c Q := by
  intro a' c1 hrun
  cases hrun
  exact h

/-- A first run that fails says nothing. -/
theorem follows_of_yields (h : Yields p s c fun _ _ => False) : Follows tail p p' s s' c Q :=
  fun a c1 hrun => (h a c1 hrun).elim

theorem Follows.bind_steady (hp : Follows tail p p' s s' c (Steady tail ends P))
    (hf : ∀ a c1, c1.Apart tail ends → P a c1 → Follows tail (f a) (f' a) s s' c1 post) :
    Follows tail (p >>= f) (p' >>= f') s s' c post := by
  intro b c2 hrun
  rw [run_bind] at hrun
  cases h : p s c with
  | error e =>
      rw [h] at hrun
      exact absurd hrun (by simp)
  | ok r =>
      rw [h] at hrun
      obtain ⟨hapart, hP, hsecond⟩ := hp _ _ h
      rw [bind_of_ok hsecond]
      exact hf r.1 r.2 hapart hP b c2 hrun

/-- If the first run comes to the end of the text, what follows there has to take care of itself. -/
theorem Follows.bind_inside (hp : Follows tail p p' s s' c (Inside tail ends))
    (hend : ∀ a c1, c1.rest = [] → Yields (f a) s c1 fun b c2 => ∀ run, post b c2 run)
    (hf : ∀ a c1, c1.Apart tail ends → c1.rest ≠ [] →
      Follows tail (f a) (f' a) s s' c1 post) :
    Follows tail (p >>= f) (p' >>= f') s s' c post := by
  intro b c2 hrun
  rw [run_bind] at hrun
  cases h : p s c with
  | error e =>
      rw [h] at hrun
      exact absurd hrun (by simp)
  | ok r =>
      rw [h] at hrun
      by_cases hc : r.2.rest = []
      · exact hend r.1 r.2 hc b c2 hrun _
      · obtain ⟨hapart, hsecond⟩ := hp _ _ h hc
        rw [bind_of_ok hsecond]
        exact hf r.1 r.2 hapart hc b c2 hrun

/-- The last part of a production: a value is made of the last thing that was read. -/
theorem Follows.finish {loose : α → Option Bool} {loose' : β → Option Bool} {k : α → Nat → β}
    (hp : Follows tail p p' s s' c (Carried tail ends loose))
    (hk : ∀ a n, loose' (k a n) = loose a) :
    Follows tail (do let a ← p; let n ← lastStop; pure (k a n))
      (do let a ← p'; let n ← lastStop; pure (k a n)) s s' c (Carried tail ends loose') := by
  intro b c2 hrun
  rw [run_bind] at hrun ⊢
  cases h : p s c with
  | error e =>
      rw [h] at hrun
      exact absurd hrun (by simp)
  | ok r =>
      rw [h] at hrun
      have hsecond := hp _ _ h
      cases hrun
      generalize p' s' (c.followed tail) = run at hsecond ⊢
      cases hsecond with
      | same hapart hshut =>
          refine .same hapart fun hend hends => ?_
          rw [hk]
          exact hshut hend hends
      | grown hapart hend hends hloose hloose' hrest =>
          refine .grown hapart hend hends ?_ ?_ hrest
          · rw [hk]
            exact hloose
          · rw [hk]
            exact hloose'

theorem Follows.with_yields {P' : α → Cursor → Prop}
    (hp : Follows tail p p' s s' c (Steady tail ends P)) (hy : Yields p s c P') :
    Follows tail p p' s s' c (Steady tail ends fun a c1 => P a c1 ∧ P' a c1) := by
  intro a c1 hrun
  obtain ⟨hapart, hP, hsecond⟩ := hp a c1 hrun
  exact ⟨hapart, ⟨hP, hy a c1 hrun⟩, hsecond⟩

/-- What was read last goes into the value that the rest of a production gives. -/
theorem Follows.bind_carried {loose : α → Option Bool}
    (hp : Follows tail p p' s s' c (Carried tail ends loose))
    (hsame : ∀ a c1, c1.Apart tail ends →
      (c1.rest = [] → ends = true → loose a = some false) →
      Follows tail (f a) (f' a) s s' c1 post)
    (hgrown : ∀ a a' c1 c1', c1.Apart tail ends → c1.rest = [] → ends = true →
      loose a = some true → loose a' = some true → c1'.rest = tail.dropWhile Token.isOperand →
      Yields (f a) s c1 fun b c2 => post b c2 (f' a' s' c1')) :
    Follows tail (p >>= f) (p' >>= f') s s' c post := by
  intro b c2 hrun
  rw [run_bind] at hrun ⊢
  cases h : p s c with
  | error e =>
      rw [h] at hrun
      exact absurd hrun (by simp)
  | ok r =>
      rw [h] at hrun
      have hsecond := hp _ _ h
      generalize p' s' (c.followed tail) = run at hsecond ⊢
      cases hsecond with
      | same hapart hshut => exact hsame _ _ hapart hshut b c2 hrun
      | grown hapart hend hends hloose hloose' hrest =>
          exact hgrown _ _ _ _ hapart hend hends hloose hloose' hrest b c2 hrun

theorem Follows.map {loose : α → Option Bool} {loose' : β → Option Bool} {k : α → β}
    (hp : Follows tail p p' s s' c (Carried tail ends loose))
    (hk : ∀ a, loose' (k a) = loose a) :
    Follows tail (k <$> p) (k <$> p') s s' c (Carried tail ends loose') :=
  hp.finish (k := fun a _ => k a) fun a _ => hk a

theorem Follows.inside {loose : α → Option Bool}
    (hp : Follows tail p p' s s' c (Carried tail ends loose)) :
    Follows tail p p' s s' c (Inside tail ends) := hp.mono fun _ _ _ => Carried.inside

theorem Follows.of_steady (hp : Follows tail p p' s s' c (Steady tail ends P)) :
    Follows tail p p' s s' c (Inside tail ends) := hp.mono fun _ _ _ => Steady.inside

theorem Follows.carried {loose : α → Option Bool}
    (hp : Follows tail p p' s s' c (Steady tail ends (Shut ends))) :
    Follows tail p p' s s' c (Carried tail ends loose) := hp.mono fun _ _ _ => Steady.carried

theorem Follows.map_inside {k : α → β} (hp : Follows tail p p' s s' c (Inside tail ends)) :
    Follows tail (k <$> p) (k <$> p') s s' c (Inside tail ends) := by
  refine Follows.bind_inside hp (fun a c1 hend => yields_pure.mpr fun run hne => absurd hend hne) ?_
  exact fun a c1 hc1 _ => follows_pure fun _ => ⟨hc1, rfl⟩

theorem follows_ite {b : Prop} [Decidable b] {q q' : Parser α}
    (hp : b → Follows tail p p' s s' c Q) (hq : ¬ b → Follows tail q q' s s' c Q) :
    Follows tail (if b then p else q) (if b then p' else q') s s' c Q := by
  split
  · exact hp ‹b›
  · exact hq ‹¬ b›

/-- A step that both runs take. -/
theorem follows_of_ok {a : α} {c1 : Cursor} (h : p s c = .ok (a, c1))
    (h' : p' s' (c.followed tail) = .ok (a, c1.followed tail))
    (hf : Follows tail (f a) (f' a) s s' c1 post) :
    Follows tail (p >>= f) (p' >>= f') s s' c post := by
  intro b c2 hrun
  rw [bind_of_ok h] at hrun
  rw [bind_of_ok h']
  exact hf b c2 hrun

end Steps

section Tokens

variable {f f' : Token → Parser β} {post : β → Cursor → Except Halt (β × Cursor) → Prop}

theorem follows_peekAt {n : Nat} (hn : n < c.rest.length)
    (h : Follows tail (f (c.token s.text.length n)) (f' (c.token s.text.length n)) s s' c post) :
    Follows tail (peekAt n >>= f) (peekAt n >>= f') s s' c post := by
  refine follows_of_ok (peekAt_eq n) ?_ h
  rw [peekAt_eq, Cursor.followed_token hn]

theorem follows_peek (hc : c.rest ≠ [])
    (h : Follows tail (f (c.token s.text.length 0)) (f' (c.token s.text.length 0)) s s' c post) :
    Follows tail (peek >>= f) (peek >>= f') s s' c post :=
  follows_peekAt (List.length_pos_iff.mpr hc) h

theorem follows_next (hc : c.rest ≠ [])
    (h : Follows tail (f (c.token s.text.length 0)) (f' (c.token s.text.length 0)) s s' c.tail
      post) :
    Follows tail (next >>= f) (next >>= f') s s' c post := by
  refine follows_of_ok next_eq ?_ h
  rw [next_eq, Cursor.followed_token (List.length_pos_iff.mpr hc), Cursor.followed_tail hc]

theorem follows_skip {n : Nat} (hn : n ≤ c.rest.length) {g g' : Unit → Parser β}
    (h : Follows tail (g ()) (g' ()) s s' (c.skip n) post) :
    Follows tail (Parser.skip n >>= g) (Parser.skip n >>= g') s s' c post := by
  refine follows_of_ok (skip_eq n) ?_ h
  rw [skip_eq, Cursor.followed_skip hn]

theorem follows_lastStop {g g' : Nat → Parser β}
    (h : Follows tail (g c.lastStop) (g' c.lastStop) s s' c post) :
    Follows tail (lastStop >>= g) (lastStop >>= g') s s' c post := follows_of_ok rfl rfl h

/-- Looking ahead shows the second run the boundary as well. -/
theorem follows_lookahead {g g' : List Token → Parser β}
    (h : Follows tail (g c.rest) (g' (c.rest ++ tail)) s s' c post) :
    Follows tail (lookahead >>= g) (lookahead >>= g') s s' c post := h

/-- A value is made of the place where the next token starts. -/
theorem follows_start {k : Nat → β} (hs : s.Fits tail s') (htail : tail ≠ [])
    (h : post (k (c.token s.text.length 0).start) c
      (.ok (k (c.token s.text.length 0).start, c.followed tail))) :
    Follows tail (do let t ← peek; pure (k t.start)) (do let t ← peek; pure (k t.start)) s s' c
      post := by
  intro b c1 hrun
  rw [peek, bind_of_ok (peekAt_eq 0)] at hrun
  rw [peek, bind_of_ok (peekAt_eq 0), hs.start htail]
  cases hrun
  exact h

theorem follows_expect {kind : TokenKind} (hk : kind ≠ .finish)
    (h : (c.token s.text.length 0).kind = kind → c.rest ≠ [] →
      Follows tail (f (c.token s.text.length 0)) (f' (c.token s.text.length 0)) s s' c.tail post) :
    Follows tail (expect kind >>= f) (expect kind >>= f') s s' c post := by
  by_cases ht : (c.token s.text.length 0).kind = kind
  · have hc := c.rest_ne_nil ht hk
    have htoken : (c.followed tail).token s'.text.length 0 = c.token s.text.length 0 :=
      Cursor.followed_token (List.length_pos_iff.mpr hc) _ _
    refine follows_of_ok (expect_eq ht) ?_ (h ht hc)
    rw [expect_eq (by rw [htoken]; exact ht), htoken, Cursor.followed_tail hc]
  · refine follows_of_yields ?_
    exact yields_expect fun heq => absurd heq ht

end Tokens

theorem follows_nested {p p' : Parser α} {Q : α → Cursor → Except Halt (α × Cursor) → Prop}
    (hs : s.Fits tail s')
    (h : Follows tail p p' { s with depth := s.depth + 1 } { s' with depth := s'.depth + 1 } c Q) :
    Follows tail (nested p) (nested p') s s' c Q := by
  intro a c1 hrun
  unfold nested at hrun ⊢
  split at hrun
  · exact absurd hrun (by simp [fail])
  · rename_i hdepth
    have hroom := hs.room
    rw [if_neg (by omega)]
    exact h a c1 hrun

/-- A wording for failures does not touch a run that succeeds. -/
theorem Follows.rewordAtEnd {p p' : Parser α} {detail : Text}
    (h : Follows tail p p' s s' c (Inside tail ends)) :
    Follows tail (rewordAtEnd detail p) (rewordAtEnd detail p') s s' c (Inside tail ends) := by
  intro a c1 hrun hc
  unfold Parser.rewordAtEnd at hrun ⊢
  split at hrun
  · exact absurd hrun (by simp)
  · obtain ⟨hapart, hsecond⟩ := h a c1 hrun hc
    rw [hsecond]
    exact ⟨hapart, rfl⟩

/-! ## What needs a token -/

/-- A parser that fails at the end of a text. -/
def Needs (p : Parser α) (s : Scope) : Prop :=
  ∀ c : Cursor, c.rest = [] → Yields p s c fun _ _ => False

section Needs

variable {p p' : Parser α} {f f' : α → Parser β}

theorem needs_bind (hp : ∀ c, Yields p s c fun _ c' => c.Frames c') (hf : ∀ a, Needs (f a) s) :
    Needs (p >>= f) s := by
  intro c hc
  refine (hp c).bind fun a c' hframes => hf a c' ?_
  obtain ⟨xs, hxs, -⟩ := hframes
  rw [hc] at hxs
  exact (List.append_eq_nil_iff.mp hxs.symm).2

theorem Needs.bind (hp : Needs p s) : Needs (p >>= f) s :=
  fun c hc => (hp c hc).bind fun _ _ hfalse => hfalse.elim

theorem needs_ite {b : Prop} [Decidable b] {q : Parser α} (hp : Needs p s) (hq : Needs q s) :
    Needs (if b then p else q) s := by
  split
  · exact hp
  · exact hq

theorem needs_expect {kind : TokenKind} (hk : kind ≠ .finish) : Needs (expect kind) s := by
  intro c hc
  unfold expect
  rw [yields_peek]
  refine yields_ite (fun heq => ?_) fun _ => yields_unexpected
  exact absurd hc (c.rest_ne_nil heq hk)

theorem Follows.bind_needs {post : β → Cursor → Except Halt (β × Cursor) → Prop}
    (hp : Follows tail p p' s s' c (Inside tail ends)) (hneeds : ∀ a, Needs (f a) s)
    (hf : ∀ a c1, c1.Apart tail ends → c1.rest ≠ [] → Follows tail (f a) (f' a) s s' c1 post) :
    Follows tail (p >>= f) (p' >>= f') s s' c post :=
  hp.bind_inside (fun a c1 hend => (hneeds a c1 hend).mono fun _ _ hfalse => hfalse.elim) hf

end Needs

end Grammar

end MathMarkup
