import MathMarkup.Proofs.Parsing

/-!
# Rules that agree

The productions refer to each other through a record of rules. What is compared here are two such
records, run from one cursor (`Agrees`): if they do the same wherever the weight is below `w`, then,
unfolded once more, they do the same below `w + 1` (`Rules.Agree.unfold`). The weight of a rule at a
cursor is twice the number of tokens left, one less for a command and one more for the rows of an
environment.

So every reference of a rule to a rule goes down in weight, and a way around from a rule to itself
has read a token. How far each production moves the cursor is carried along, since it is what makes
the next reference weigh less.
-/

namespace MathMarkup.Grammar

open MathMarkup.Grammar.Parser

variable {α β : Type} {s : Scope} {c : Cursor}

/-! ## Running two parsers from one cursor -/

/-- From this cursor two parsers do the same. They come to a cursor with `post`, or refuse the text;
they do not run out of unfoldings. -/
def Agrees (p p' : Parser α) (s : Scope) (c : Cursor) (post : Cursor → Prop) : Prop :=
  p' s c = p s c ∧
    match p s c with
    | .ok (_, c') => post c'
    | .error (.failed _ _) => True
    | .error .spent => False

section Steps

variable {p p' : Parser α} {f f' : α → Parser β} {P post : Cursor → Prop}

theorem Agrees.mono {post' : Cursor → Prop} (h : Agrees p p' s c post)
    (hpost : ∀ c', post c' → post' c') : Agrees p p' s c post' := by
  refine ⟨h.1, ?_⟩
  have hrun := h.2
  split
  · rename_i hok
    rw [hok] at hrun
    exact hpost _ hrun
  · trivial
  · rename_i hspent
    rw [hspent] at hrun
    exact hrun

theorem Agrees.bind (hp : Agrees p p' s c P)
    (hf : ∀ a c', P c' → Agrees (f a) (f' a) s c' post) :
    Agrees (p >>= f) (p' >>= f') s c post := by
  obtain ⟨heq, hrun⟩ := hp
  unfold Agrees
  rw [run_bind, run_bind, heq]
  cases h : p s c with
  | ok r => rw [h] at hrun; exact hf r.1 r.2 hrun
  | error e => rw [h] at hrun; cases e <;> exact ⟨rfl, hrun⟩

theorem Agrees.map {g : α → β} (h : Agrees p p' s c post) :
    Agrees (g <$> p) (g <$> p') s c post := by
  show Agrees (p >>= fun a => pure (g a)) (p' >>= fun a => pure (g a)) s c post
  exact h.bind fun _ _ hc => ⟨rfl, hc⟩

@[simp] theorem agrees_pure {a : α} : Agrees (pure a) (pure a) s c post ↔ post c :=
  ⟨fun h => h.2, fun h => ⟨rfl, h⟩⟩

theorem agrees_ite {b : Prop} [Decidable b] {q q' : Parser α}
    (hp : b → Agrees p p' s c post) (hq : ¬ b → Agrees q q' s c post) :
    Agrees (if b then p else q) (if b then p' else q') s c post := by
  split
  · exact hp ‹b›
  · exact hq ‹¬ b›

/-- A step that always succeeds is taken by both. -/
theorem agrees_of_ok {a : α} {c' : Cursor} (h : p s c = .ok (a, c')) :
    Agrees (p >>= f) (p >>= f') s c post ↔ Agrees (f a) (f' a) s c' post := by
  unfold Agrees
  rw [bind_of_ok h, bind_of_ok h]

theorem agrees_pure_bind {a : α} :
    Agrees (pure a >>= f) (pure a >>= f') s c post ↔ Agrees (f a) (f' a) s c post :=
  agrees_of_ok rfl

end Steps

section Tokens

variable {f f' : Token → Parser β} {post : Cursor → Prop}

theorem agrees_peekAt {n : Nat} :
    Agrees (peekAt n >>= f) (peekAt n >>= f') s c post
      ↔ Agrees (f (c.token s.text.length n)) (f' (c.token s.text.length n)) s c post :=
  agrees_of_ok (peekAt_eq n)

theorem agrees_peek :
    Agrees (peek >>= f) (peek >>= f') s c post
      ↔ Agrees (f (c.token s.text.length 0)) (f' (c.token s.text.length 0)) s c post :=
  agrees_of_ok (peekAt_eq 0)

theorem agrees_next :
    Agrees (next >>= f) (next >>= f') s c post
      ↔ Agrees (f (c.token s.text.length 0)) (f' (c.token s.text.length 0)) s c.tail post :=
  agrees_of_ok next_eq

theorem agrees_lookahead {g g' : List Token → Parser β} :
    Agrees (lookahead >>= g) (lookahead >>= g') s c post ↔ Agrees (g c.rest) (g' c.rest) s c post :=
  agrees_of_ok rfl

theorem agrees_lastStop {g g' : Nat → Parser β} :
    Agrees (lastStop >>= g) (lastStop >>= g') s c post
      ↔ Agrees (g c.lastStop) (g' c.lastStop) s c post :=
  agrees_of_ok rfl

theorem agrees_skip {n : Nat} {g g' : Unit → Parser β} :
    Agrees (Parser.skip n >>= g) (Parser.skip n >>= g') s c post
      ↔ Agrees (g ()) (g' ()) s (c.skip n) post :=
  agrees_of_ok (skip_eq n)

theorem agrees_failAt {start stop : Nat} {found detail suggestion : Text} :
    Agrees (α := α) (failAt start stop found detail suggestion)
      (failAt start stop found detail suggestion) s c post := ⟨rfl, trivial⟩

theorem agrees_unexpected {t : Token} {expected : List Text} :
    Agrees (α := α) (unexpected t expected) (unexpected t expected) s c post := ⟨rfl, trivial⟩

/-- A token of the kind that is expected is read. -/
theorem expect_eq {kind : TokenKind} (h : (c.token s.text.length 0).kind = kind) :
    expect kind s c = .ok (c.token s.text.length 0, c.tail) :=
  (bind_of_ok (peekAt_eq 0)).trans ((congrFun (congrFun (if_pos h) s) c).trans next_eq)

/-- A token that is expected is there and is read, or it is refused. -/
theorem agrees_expect {kind : TokenKind}
    (h : (c.token s.text.length 0).kind = kind →
      Agrees (f (c.token s.text.length 0)) (f' (c.token s.text.length 0)) s c.tail post) :
    Agrees (expect kind >>= f) (expect kind >>= f') s c post := by
  by_cases hk : (c.token s.text.length 0).kind = kind
  · exact (agrees_of_ok (expect_eq hk)).mpr (h hk)
  · refine Agrees.bind (P := fun _ => False) ?_ fun _ _ hfalse => hfalse.elim
    unfold expect
    rw [agrees_peek, if_neg hk]
    exact agrees_unexpected

end Tokens

theorem agrees_nested {p p' : Parser α} {post : Cursor → Prop}
    (h : Agrees p p' { s with depth := s.depth + 1 } c post) :
    Agrees (nested p) (nested p') s c post := by
  unfold Agrees nested
  by_cases hdeep : s.depth + 1 > s.limit
  · rw [if_pos hdeep, if_pos hdeep]
    exact ⟨rfl, trivial⟩
  · rw [if_neg hdeep, if_neg hdeep]
    exact h

theorem Agrees.rewordAtEnd {p p' : Parser α} {post : Cursor → Prop} {detail : Text}
    (h : Agrees p p' s c post) :
    Agrees (rewordAtEnd detail p) (rewordAtEnd detail p') s c post := by
  obtain ⟨heq, hrun⟩ := h
  unfold Agrees Parser.rewordAtEnd
  rw [heq]
  refine ⟨rfl, ?_⟩
  -- another wording does not make a value of an error
  cases hp : p s c with
  | ok r => rw [hp] at hrun; exact hrun
  | error halt =>
      rw [hp] at hrun
      cases halt with
      | spent => exact hrun
      | failed e atEnd => cases e <;> cases atEnd <;> trivial

/-! ## The contract of the productions -/

/-- Where a sequence ends: further on, at its stop. -/
def Cursor.Ends (c : Cursor) (stop : Stop) (c' : Cursor) : Prop :=
  c.Reads c' ∧ stop.holds c'.rest = true

/-- Two sets of rules agree wherever the weight is below `w`. The weight is twice the number of
tokens left, one less for a command, which is referred to at a token only, and one more for rows. -/
structure Rules.Agree (w : Nat) (rules rules' : Rules) : Prop where
  sequence : ∀ {stop : Stop} {definable : Bool} {s : Scope} {c : Cursor}, 2 * c.rest.length < w →
    Agrees (rules.sequence stop definable) (rules'.sequence stop definable) s c (c.Ends stop)
  items : ∀ {stop : Stop} {b : Builder} {s : Scope} {c : Cursor}, 2 * c.rest.length < w →
    Agrees (rules.items stop b) (rules'.items stop b) s c (c.Ends stop)
  command : ∀ {s : Scope} {c : Cursor}, c.rest ≠ [] → 2 * c.rest.length ≤ w →
    Agrees rules.command rules'.command s c c.Past
  operand : ∀ {s : Scope} {c : Cursor}, 2 * c.rest.length < w →
    Agrees rules.operand rules'.operand s c c.Past
  scriptArg : ∀ {s : Scope} {c : Cursor}, 2 * c.rest.length < w →
    Agrees rules.scriptArg rules'.scriptArg s c c.Past
  rows : ∀ {matrix : Bool} {name : Text} {row before : List Node} {s : Scope} {c : Cursor},
    2 * c.rest.length + 1 < w →
    Agrees (rules.rows matrix name row before) (rules'.rows matrix name row before) s c c.Past

variable {w : Nat} {rules rules' : Rules}

/-! ## Groups, carets and definitions -/

theorem groupContents_agrees {kind : Bracket} (h : rules.Agree w rules')
    (hw : 2 * (c.rest.length - 1) < w) :
    Agrees (groupContents rules kind) (groupContents rules' kind) s c c.Past := by
  unfold groupContents
  rw [agrees_next]
  refine Agrees.bind (h.sequence (by rw [c.tail_length]; exact hw)) ?_
  rintro nodes c1 ⟨hr, -⟩
  refine agrees_expect fun hk => ?_
  rw [agrees_pure]
  exact (c.reads_tail.trans hr).past (c1.past_tail hk (by simp))

theorem group_agrees {kind : Bracket} (h : rules.Agree w rules')
    (hw : 2 * (c.rest.length - 1) < w) :
    Agrees (group rules kind) (group rules' kind) s c c.Past := by
  unfold group
  refine Agrees.bind (groupContents_agrees h hw) ?_
  rintro ⟨nodes, span⟩ c' hp
  rw [agrees_pure]
  exact hp

theorem absolute_agrees (h : rules.Agree w rules') (hw : 2 * (c.rest.length - 1) < w) :
    Agrees (absolute rules) (absolute rules') s c c.Past := by
  unfold absolute
  rw [agrees_next]
  refine Agrees.bind (h.sequence (by rw [c.tail_length]; exact hw)) ?_
  rintro nodes c1 ⟨hr, -⟩
  refine agrees_expect fun hk => ?_
  rw [agrees_pure]
  exact (c.reads_tail.trans hr).past (c1.past_tail hk (by simp))

theorem caret_agrees {b : Builder} (hk : (c.token s.text.length 0).kind = .caret) :
    Agrees (caret b) (caret b) s c c.Past := by
  unfold caret
  rw [agrees_peek, agrees_lookahead]
  split
  · rw [agrees_next, agrees_pure]
    exact c.past_tail hk (by simp)
  · rename_i width hwidth
    rw [agrees_peekAt]
    split
    · exact agrees_failAt
    · rw [agrees_skip, agrees_pure]
      exact c.past_skip (degreeWidth?_pos hwidth) (c.rest_ne_nil hk (by simp))

/-- A definition reads nothing, or it reads on to the stop of its sequence. -/
theorem definition_agrees {stop : Stop} (h : rules.Agree w rules') (hw : 2 * c.rest.length ≤ w) :
    Agrees (definition rules stop) (definition rules' stop) s c c.Reads := by
  unfold definition
  rw [agrees_lookahead]
  split
  · rw [agrees_pure]
    exact .refl c
  · rename_i name width hd
    obtain ⟨⟨t, rest, hrest, -⟩, hwidth, -⟩ := definitionHead?_some hd
    have hskip := c.past_skip hwidth (by rw [hrest]; simp)
    have hlen := hskip.2
    rw [agrees_peek, agrees_skip]
    refine Agrees.bind (group_agrees h (by omega)) ?_
    intro inner c2 hp2
    have hlen2 := hp2.2
    rw [agrees_next]
    refine Agrees.bind (h.sequence (by rw [c2.tail_length]; omega)) ?_
    rintro body c3 ⟨hr3, -⟩
    rw [agrees_peek, agrees_pure]
    exact (hskip.1.trans hp2.1).trans (c2.reads_tail.trans hr3)

/-! ## Sequences -/

theorem items_agrees {stop : Stop} {b : Builder} (h : rules.Agree w rules')
    (hw : 2 * c.rest.length ≤ w) :
    Agrees (items rules stop b) (items rules' stop b) s c (c.Ends stop) := by
  -- the rest of the sequence, behind at least one token
  have more : ∀ (b' : Builder) (c' : Cursor), c.Past c' →
      Agrees (rules.items stop b') (rules'.items stop b') s c' (c.Ends stop) := by
    intro b' c' hp
    have hlen := hp.2
    refine (h.items (by omega)).mono ?_
    rintro c2 ⟨hr, hstop⟩
    exact ⟨hp.1.trans hr, hstop⟩
  unfold items
  rw [agrees_lookahead]
  split
  · rename_i hstop
    rw [agrees_pure]
    exact ⟨.refl c, hstop⟩
  · rw [agrees_peek]
    have inner : ∀ {kind : TokenKind}, (c.token s.text.length 0).kind = kind → kind ≠ .finish →
        2 * (c.rest.length - 1) < w := by
      intro kind hk hne
      have := (c.past_tail hk hne).2
      omega
    split
    · rename_i hk
      rw [agrees_next]
      exact more _ _ (c.past_tail hk (by simp))
    · rename_i hk
      rw [agrees_next]
      exact more _ _ (c.past_tail hk (by simp))
    · rename_i kind hk
      exact Agrees.bind (group_agrees h (inner hk (by simp))) fun n c' => more _ c'
    · rename_i hk
      exact Agrees.bind (absolute_agrees h (inner hk (by simp))) fun n c' => more _ c'
    · rename_i hk
      exact Agrees.bind (caret_agrees hk) fun b' c' => more b' c'
    · rename_i hk
      refine Agrees.bind (h.command (c.rest_ne_nil hk (by simp)) hw) ?_
      intro o c' hp
      cases o with
      | some n => exact more _ c' hp
      | none => exact more _ c' hp
    all_goals exact agrees_unexpected

theorem sequence_agrees {stop : Stop} {definable : Bool} (h : rules.Agree w rules')
    (hw : 2 * c.rest.length ≤ w) :
    Agrees (sequence rules stop definable) (sequence rules' stop definable) s c (c.Ends stop) := by
  have behind : ∀ (b : Builder) (s : Scope) (c' : Cursor), c.Reads c' →
      Agrees (items rules stop b) (items rules' stop b) s c' (c.Ends stop) := by
    intro b s c' hr
    have hlen := hr.length_le
    refine (items_agrees h (by omega)).mono ?_
    rintro c2 ⟨hr2, hstop⟩
    exact ⟨hr.trans hr2, hstop⟩
  unfold sequence
  refine agrees_nested ?_
  cases definable with
  | false => exact behind {} _ c (.refl c)
  | true =>
      refine Agrees.bind (definition_agrees h hw) ?_
      intro first c' hr
      cases first with
      | some n => exact behind _ _ c' hr
      | none => exact behind {} _ c' hr

/-! ## Arguments -/

theorem operand_agrees (h : rules.Agree w rules') (hw : 2 * c.rest.length ≤ w) :
    Agrees (operand rules) (operand rules') s c c.Past := by
  have inner : ∀ {kind : TokenKind}, (c.token s.text.length 0).kind = kind → kind ≠ .finish →
      2 * (c.rest.length - 1) < w := by
    intro kind hk hne
    have := (c.past_tail hk hne).2
    omega
  unfold operand
  rw [agrees_peek]
  split
  · rename_i hk
    refine Agrees.bind (groupContents_agrees h (inner hk (by simp))) ?_
    rintro ⟨nodes, span⟩ c' hp
    rw [agrees_pure]
    exact hp
  · rename_i kind hk
    exact group_agrees h (inner hk (by simp))
  · rename_i hk
    exact absolute_agrees h (inner hk (by simp))
  · rename_i hk
    refine Agrees.bind (h.command (c.rest_ne_nil hk (by simp)) hw) ?_
    intro o c' hp
    cases o with
    | some n => exact agrees_pure.mpr hp
    | none =>
        have hlen := hp.2
        exact (h.operand (by omega)).mono fun c2 hp2 => hp.1.past hp2
  · rename_i hk
    refine agrees_ite (fun hop => ?_) fun _ => agrees_unexpected
    rw [agrees_lookahead, agrees_skip, agrees_pure]
    obtain ⟨ts, hts⟩ := c.rest_of_kind hk (by simp)
    refine c.past_skip ?_ (by rw [hts]; simp)
    rw [hts, List.takeWhile_cons_of_pos hop, List.length_cons]
    omega
  · exact agrees_unexpected

theorem scriptArg_agrees (h : rules.Agree w rules') (hw : 2 * c.rest.length ≤ w) :
    Agrees (scriptArg rules) (scriptArg rules') s c c.Past := by
  unfold scriptArg
  rw [agrees_peek]
  split
  · rename_i hk
    have := (c.past_tail hk (by simp)).2
    exact group_agrees h (by omega)
  · rename_i hk
    rw [agrees_next, agrees_pure]
    exact c.past_tail hk (by simp)
  · rename_i hk
    refine Agrees.bind (h.command (c.rest_ne_nil hk (by simp)) hw) ?_
    intro o c' hp
    cases o with
    | some n => exact agrees_pure.mpr hp
    | none =>
        have hlen := hp.2
        exact (h.scriptArg (by omega)).mono fun c2 hp2 => hp.1.past hp2
  · exact agrees_unexpected

/-! ## Commands

A command reads its own token first, so the weight `2 * (c.rest.length - 1)` is that of what stands
behind it. -/

/-- The cursor behind a command weighs less than the command. -/
theorem behind_command (hw : 2 * (c.rest.length - 1) < w) {c' : Cursor} (hr : c.tail.Reads c') :
    2 * c'.rest.length < w := by
  have hlen := hr.length_le
  rw [c.tail_length] at hlen
  omega

theorem past_command (hc : c.rest ≠ []) {c' : Cursor} (hr : c.tail.Reads c') : c.Past c' :=
  (c.past_skip (n := 1) (Nat.le_refl 1) hc).reads hr

theorem unary_agrees {name : FunctionName} (h : rules.Agree w rules') (hc : c.rest ≠ [])
    (hw : 2 * (c.rest.length - 1) < w) :
    Agrees (unary rules name) (unary rules' name) s c c.Past := by
  unfold unary
  rw [agrees_next]
  refine Agrees.bind (scriptArg_agrees h (Nat.le_of_lt (behind_command hw (.refl _)))) ?_
  intro arg c1 hp1
  rw [agrees_lastStop, agrees_pure]
  exact past_command hc hp1.1

/-- Two arguments behind the token of a command. -/
theorem pair_agrees {name : FunctionName} {start : Nat} (h : rules.Agree w rules')
    (hc : c.rest ≠ []) (hw : 2 * (c.rest.length - 1) < w) :
    Agrees (do
        let first ← scriptArg rules
        let second ← scriptArg rules
        pure (Node.function name [first, second] none ⟨start, ← lastStop⟩))
      (do
        let first ← scriptArg rules'
        let second ← scriptArg rules'
        pure (Node.function name [first, second] none ⟨start, ← lastStop⟩)) s c.tail c.Past := by
  refine Agrees.bind (scriptArg_agrees h (Nat.le_of_lt (behind_command hw (.refl _)))) ?_
  intro first c1 hp1
  refine Agrees.bind (scriptArg_agrees h (Nat.le_of_lt (behind_command hw hp1.1))) ?_
  intro second c2 hp2
  rw [agrees_lastStop, agrees_pure]
  exact past_command hc (hp1.1.trans hp2.1)

theorem named_agrees {name : Text} (h : rules.Agree w rules') (hc : c.rest ≠ [])
    (hw : 2 * (c.rest.length - 1) < w) :
    Agrees (named rules name) (named rules' name) s c c.Past := by
  -- the argument behind the name, with or without an exponent
  have rest : ∀ (exponent : Option Node) (head : Token) (c' : Cursor), c.tail.Reads c' →
      Agrees (do
          let arg ← operand rules
          pure (Node.function .regular [unitAt name head.span, arg] exponent
            ⟨head.start, ← lastStop⟩))
        (do
          let arg ← operand rules'
          pure (Node.function .regular [unitAt name head.span, arg] exponent
            ⟨head.start, ← lastStop⟩)) s c' c.Past := by
    intro exponent head c' hr
    refine Agrees.bind (operand_agrees h (Nat.le_of_lt (behind_command hw hr))) ?_
    intro arg c1 hp1
    rw [agrees_lastStop, agrees_pure]
    exact past_command hc (hr.trans hp1.1)
  unfold named
  rw [agrees_next, agrees_peek]
  dsimp only
  split
  · rw [agrees_next]
    refine Agrees.bind (P := c.tail.Reads) (Agrees.map ?_) fun e c1 hr => rest e _ c1 hr
    have hw' := behind_command hw c.tail.reads_tail
    exact (scriptArg_agrees h (Nat.le_of_lt hw')).mono fun c1 hp1 => c.tail.reads_tail.trans hp1.1
  · exact agrees_pure_bind.mpr (rest none _ c.tail (.refl _))

theorem fraction_agrees (h : rules.Agree w rules') (hc : c.rest ≠ [])
    (hw : 2 * (c.rest.length - 1) < w) :
    Agrees (fraction rules) (fraction rules') s c c.Past := by
  unfold fraction
  rw [agrees_next, agrees_lookahead]
  split
  · rw [agrees_skip]
    have hr := c.tail.reads_skip 7
    refine Agrees.bind (operand_agrees h (Nat.le_of_lt (behind_command hw hr))) ?_
    intro arg c1 hp1
    rw [agrees_lastStop, agrees_pure]
    exact past_command hc (hr.trans hp1.1)
  · exact pair_agrees h hc hw

theorem root_agrees (h : rules.Agree w rules') (hc : c.rest ≠ [])
    (hw : 2 * (c.rest.length - 1) < w) :
    Agrees (root rules) (root rules') s c c.Past := by
  have rest : ∀ (degree : Option Node) (start : Nat) (c' : Cursor), c.tail.Reads c' →
      Agrees (do
          let radicand ← scriptArg rules
          pure (Node.function .sqrt (degree.toList ++ [radicand]) none ⟨start, ← lastStop⟩))
        (do
          let radicand ← scriptArg rules'
          pure (Node.function .sqrt (degree.toList ++ [radicand]) none ⟨start, ← lastStop⟩)) s c'
        c.Past := by
    intro degree start c' hr
    refine Agrees.bind (scriptArg_agrees h (Nat.le_of_lt (behind_command hw hr))) ?_
    intro radicand c1 hp1
    rw [agrees_lastStop, agrees_pure]
    exact past_command hc (hr.trans hp1.1)
  unfold root
  rw [agrees_next, agrees_peek]
  dsimp only
  split
  · refine Agrees.bind (P := c.tail.Reads) (Agrees.map ?_) fun d c1 hr => rest d _ c1 hr
    refine (group_agrees h ?_).mono fun c1 hp1 => hp1.1
    have := behind_command hw (.refl c.tail)
    omega
  · exact agrees_pure_bind.mpr (rest none _ c.tail (.refl _))

theorem script_agrees {subAllowed : Bool} {r : Scripts} (h : rules.Agree w rules')
    (hw : 2 * c.rest.length ≤ w) :
    Agrees (script rules subAllowed r) (script rules' subAllowed r) s c c.Reads := by
  have hw' : 2 * c.tail.rest.length ≤ w := by
    rw [c.tail_length]
    omega
  unfold script
  rw [agrees_peek]
  refine agrees_ite (fun _ => ?_) fun _ => agrees_ite (fun _ => ?_) fun _ => ?_
  · rw [agrees_next]
    refine Agrees.bind (scriptArg_agrees h hw') ?_
    intro arg c1 hp1
    rw [agrees_pure]
    exact c.reads_tail.trans hp1.1
  · rw [agrees_next]
    refine Agrees.bind (scriptArg_agrees h hw') ?_
    intro arg c1 hp1
    rw [agrees_pure]
    exact c.reads_tail.trans hp1.1
  · rw [agrees_pure]
    exact .refl c

/-- Reading over `\limits` only moves the cursor. -/
theorem agrees_skipLimits {f f' : Unit → Parser β} {post : Cursor → Prop}
    (h : ∀ c', c.Reads c' → Agrees (f ()) (f' ()) s c' post) :
    Agrees (skipLimits >>= f) (skipLimits >>= f') s c post := by
  have hrun : skipLimits s c
      = .ok ((), c.skip (c.rest.takeWhile (·.isCommand ["limits"])).length) := skip_eq _
  rw [agrees_of_ok hrun]
  exact h _ (c.reads_skip _)

theorem integralBody_agrees (h : rules.Agree w rules') (hw : 2 * c.rest.length < w) :
    Agrees (integralBody rules) (integralBody rules') s c c.Reads := by
  unfold integralBody
  rw [agrees_peek]
  refine agrees_ite (fun _ => ?_) fun _ => ?_
  · exact (group_agrees h (by omega)).mono fun c1 hp1 => hp1.1
  · refine Agrees.bind (h.sequence hw) ?_
    rintro nodes c1 ⟨hr, -⟩
    rw [agrees_peek, agrees_pure]
    exact hr

theorem integral_agrees (h : rules.Agree w rules') (hc : c.rest ≠ [])
    (hw : 2 * (c.rest.length - 1) < w) :
    Agrees (integral rules) (integral rules') s c c.Past := by
  unfold integral
  rw [agrees_next]
  refine agrees_skipLimits fun c1 hr1 => ?_
  refine Agrees.bind (script_agrees h (Nat.le_of_lt (behind_command hw hr1))) ?_
  intro one c2 hr2
  refine agrees_skipLimits fun c3 hr3 => ?_
  have hr3 := (hr1.trans hr2).trans hr3
  refine Agrees.bind (script_agrees h (Nat.le_of_lt (behind_command hw hr3))) ?_
  intro both c4 hr4
  refine agrees_skipLimits fun c5 hr5 => ?_
  have hr5 := (hr3.trans hr4).trans hr5
  refine agrees_ite (fun _ => ?_) fun _ => ?_
  · rw [agrees_peek]
    exact agrees_failAt
  · refine Agrees.bind (integralBody_agrees h (behind_command hw hr5)) ?_
    intro body c6 hr6
    rw [agrees_peek, agrees_peekAt]
    refine agrees_ite (fun _ => ?_) fun _ => agrees_unexpected
    rw [agrees_skip, agrees_pure]
    exact past_command hc ((hr5.trans hr6).trans (c6.reads_skip 2))

theorem limit_agrees (h : rules.Agree w rules') (hc : c.rest ≠ [])
    (hw : 2 * (c.rest.length - 1) < w) :
    Agrees (limit rules) (limit rules') s c c.Past := by
  unfold limit
  rw [agrees_next]
  refine agrees_expect fun _ => agrees_expect fun _ => ?_
  have hr1 := c.tail.reads_tail.trans c.tail.tail.reads_tail
  refine Agrees.bind (h.sequence (behind_command hw hr1)) ?_
  rintro name c2 ⟨hr2, -⟩
  have hr2 := hr1.trans hr2
  rw [agrees_peek]
  refine agrees_ite (fun _ => ?_) fun _ => agrees_unexpected
  rw [agrees_next]
  have hr3 := hr2.trans c2.reads_tail
  refine Agrees.bind (h.sequence (behind_command hw hr3)) ?_
  rintro target c4 ⟨hr4, -⟩
  have hr4 := hr3.trans hr4
  refine agrees_expect fun _ => ?_
  have hr5 := hr4.trans c4.reads_tail
  refine Agrees.bind (operand_agrees h (Nat.le_of_lt (behind_command hw hr5))) ?_
  intro arg c6 hp6
  rw [agrees_lastStop, agrees_pure]
  exact past_command hc (hr5.trans hp6.1)

theorem logarithm_agrees (h : rules.Agree w rules') (hc : c.rest ≠ [])
    (hw : 2 * (c.rest.length - 1) < w) :
    Agrees (logarithm rules) (logarithm rules') s c c.Past := by
  unfold logarithm
  rw [agrees_next]
  refine Agrees.bind (script_agrees h (Nat.le_of_lt (behind_command hw (.refl _)))) ?_
  intro one c1 hr1
  refine Agrees.bind (script_agrees h (Nat.le_of_lt (behind_command hw hr1))) ?_
  intro both c2 hr2
  have hr2 := hr1.trans hr2
  refine Agrees.bind (operand_agrees h (Nat.le_of_lt (behind_command hw hr2))) ?_
  intro arg c3 hp3
  have hp := past_command hc (hr2.trans hp3.1)
  rw [agrees_lastStop]
  split
  · exact agrees_pure.mpr hp
  · exact agrees_ite (fun _ => agrees_pure.mpr hp) fun _ => agrees_pure.mpr hp

/-! ## Environments -/

theorem environmentName_agrees :
    Agrees environmentName environmentName s c
      (fun c' => c.Past c' ∧ c'.rest.length + 2 ≤ c.rest.length) := by
  unfold environmentName
  refine agrees_expect fun hopen => ?_
  have hp := c.past_tail hopen (by simp)
  rw [agrees_peek, agrees_lookahead, agrees_skip]
  have hr := c.tail.reads_skip ((c.tail.rest.takeWhile (·.kind == .char)).length)
  refine agrees_expect fun hclose => ?_
  have hp' := hr.past (Cursor.past_tail hclose (by simp))
  rw [agrees_pure]
  have hlen := hp.2
  have hlen' := hp'.2
  exact ⟨hp.reads hp'.1, by omega⟩

theorem rows_agrees {matrix : Bool} {name : Text} {row before : List Node}
    (h : rules.Agree w rules') (hw : 2 * c.rest.length < w) :
    Agrees (rows rules matrix name row before) (rows rules' matrix name row before) s c c.Past := by
  unfold rows
  rw [agrees_peek]
  refine Agrees.bind (h.sequence hw).rewordAtEnd ?_
  rintro nodes c1 ⟨hr, hstop⟩
  -- a cell ends at a token, which is read
  have hp : c.Past c1.tail := by
    refine hr.past (c1.past_skip (n := 1) (Nat.le_refl _) ?_)
    intro hnil
    rw [hnil] at hstop
    exact absurd hstop (by simp [Stop.holds])
  have hlen := hp.2
  have more : ∀ row' before' : List Node,
      Agrees (rules.rows matrix name row' before') (rules'.rows matrix name row' before') s c1.tail
        c.Past :=
    fun _ _ => (h.rows (by omega)).mono fun c' hp' => hp.1.past hp'
  rw [agrees_peek, agrees_next]
  refine agrees_ite (fun _ => more _ _) fun _ => agrees_ite (fun _ => ?_) fun _ => more _ _
  rw [agrees_pure]
  exact hp

theorem environment_agrees (h : rules.Agree w rules') (hc : c.rest ≠ [])
    (hw : 2 * (c.rest.length - 1) < w) :
    Agrees (environment rules) (environment rules') s c c.Past := by
  -- the rows and the end, with or without the columns of an array before them
  have rest : ∀ (type : EnvironmentType) (name : Text) (start : Nat) (c' : Cursor),
      c.tail.Past c' →
      Agrees (do
          let cells ← rules.rows (type == .determinant) name [] []
          let last ← environmentName
          if last.1 = name then pure (Node.environment type cells ⟨start, ← lastStop⟩)
          else
            failAt last.2 (← lastStop) last.1
              ("\\begin\x7b" ++ name ++ "\x7d ended by \\end\x7b" ++ last.1 ++ "\x7d"))
        (do
          let cells ← rules'.rows (type == .determinant) name [] []
          let last ← environmentName
          if last.1 = name then pure (Node.environment type cells ⟨start, ← lastStop⟩)
          else
            failAt last.2 (← lastStop) last.1
              ("\\begin\x7b" ++ name ++ "\x7d ended by \\end\x7b" ++ last.1 ++ "\x7d")) s c'
        c.Past := by
    intro type name start c' hp
    have hlen := hp.2
    have hw' := behind_command hw (.refl c.tail)
    refine Agrees.bind (h.rows (by omega)) ?_
    intro cells c1 hp1
    refine Agrees.bind environmentName_agrees ?_
    rintro ⟨last, lastStart⟩ c2 ⟨hp2, -⟩
    refine agrees_ite (fun _ => ?_) fun _ => ?_
    · rw [agrees_lastStop, agrees_pure]
      exact past_command hc (hp.1.trans (hp1.1.trans hp2.1))
    · rw [agrees_lastStop]
      exact agrees_failAt
  unfold environment
  rw [agrees_next]
  refine Agrees.bind environmentName_agrees ?_
  rintro ⟨name, nameStart⟩ c1 ⟨hp1, -⟩
  dsimp only
  split
  · rw [agrees_lastStop]
    exact agrees_failAt
  · rw [agrees_peek]
    split
    · refine Agrees.bind (group_agrees h ?_) ?_
      · have := behind_command hw hp1.1
        omega
      · intro _ c2 hp2
        exact rest _ _ _ c2 (hp1.reads hp2.1)
    · exact rest _ _ _ c1 hp1

/-! ## The grammar -/

theorem command_agrees (h : rules.Agree w rules') (hc : c.rest ≠ [])
    (hw : 2 * (c.rest.length - 1) < w) :
    Agrees (command rules) (command rules') s c c.Past := by
  have hp := past_command hc (.refl c.tail)
  unfold command
  rw [agrees_peek]
  refine agrees_ite (fun _ => ?_) fun _ => agrees_ite (fun _ => ?_) fun _ => ?_
  · rw [agrees_next, agrees_pure]
    exact hp
  · rw [agrees_next, agrees_pure]
    exact hp
  split
  · exact (named_agrees h hc hw).map
  · refine agrees_ite (fun _ => (fraction_agrees h hc hw).map) fun _ => ?_
    refine agrees_ite (fun _ => (root_agrees h hc hw).map) fun _ => ?_
    refine agrees_ite (fun _ => (integral_agrees h hc hw).map) fun _ => ?_
    refine agrees_ite (fun _ => (limit_agrees h hc hw).map) fun _ => ?_
    refine agrees_ite (fun _ => (logarithm_agrees h hc hw).map) fun _ => ?_
    refine agrees_ite (fun _ => Agrees.map ?_) fun _ => ?_
    · unfold binary
      rw [agrees_next]
      exact pair_agrees h hc hw
    refine agrees_ite (fun _ => (unary_agrees h hc hw).map) fun _ => ?_
    exact agrees_ite (fun _ => (environment_agrees h hc hw).map) fun _ => agrees_failAt

/-- **Unfolding goes up in weight**: what the rules do at a weight depends on what they do below
it. -/
theorem Rules.Agree.unfold (h : rules.Agree w rules') :
    rules.unfold.Agree (w + 1) rules'.unfold where
  sequence hw := sequence_agrees h (by omega)
  items hw := items_agrees h (by omega)
  command {s c} hc hw := by
    have : c.rest.length ≠ 0 := fun h0 => hc (List.length_eq_zero_iff.mp h0)
    exact command_agrees h hc (by omega)
  operand hw := operand_agrees h (by omega)
  scriptArg hw := scriptArg_agrees h (by omega)
  rows hw := rows_agrees h (by omega)

/-- No weight is below zero. -/
theorem agree_zero (rules rules' : Rules) : rules.Agree 0 rules' where
  sequence hw := absurd hw (by omega)
  items hw := absurd hw (by omega)
  command hc hw := absurd (List.length_eq_zero_iff.mp (by omega)) hc
  operand hw := absurd hw (by omega)
  scriptArg hw := absurd hw (by omega)
  rows hw := absurd hw (by omega)

end MathMarkup.Grammar
