import MathMarkup.Proofs.Agreement

/-!
# Reading ends by itself

The grammar is unfolded a number of times, and the number is bookkeeping: what is read from a cursor
depends on the tokens that are left and not on how often the grammar was unfolded. In other words
the equations of the grammar have exactly one solution (`grammar_unfold`, `grammar_unique`), and a
text is read by running it. It gives a tree or an error and never runs out of unfoldings, because
every reference of a rule to a rule weighs less (`Rules.Agree.unfold`).

A cursor is a place in the list of tokens with the end of the text behind it. It never leaves that
list (`Cursor.At`).
-/

namespace MathMarkup.Grammar

open MathMarkup.Grammar.Parser

variable {α : Type} {s : Scope} {c : Cursor}

/-! ## The solution of the grammar -/

/-- The grammar: at every cursor the rules are unfolded as often as its tokens ask for. -/
def grammar : Rules where
  sequence stop definable s c := (rulesTo (unfoldings c.rest)).sequence stop definable s c
  items stop b s c := (rulesTo (unfoldings c.rest)).items stop b s c
  command s c := (rulesTo (unfoldings c.rest)).command s c
  operand s c := (rulesTo (unfoldings c.rest)).operand s c
  scriptArg s c := (rulesTo (unfoldings c.rest)).scriptArg s c
  rows matrix name row before s c :=
    (rulesTo (unfoldings c.rest)).rows matrix name row before s c

theorem rulesTo_agree (n k : Nat) : (rulesTo n).Agree n (rulesTo (n + k)) := by
  induction n with
  | zero => exact agree_zero _ _
  | succ n ih =>
      rw [Nat.add_right_comm]
      exact ih.unfold

/-- Rules that solve the equations of the grammar agree with it, however often it is unfolded. -/
theorem rulesTo_agree_of_fixed {rules : Rules} (h : rules.unfold = rules) (n : Nat) :
    (rulesTo n).Agree n rules := by
  induction n with
  | zero => exact agree_zero _ _
  | succ n ih =>
      have := ih.unfold
      rw [h] at this
      exact this

/-- Two parsers that do what a third does agree; the second may be any that does the same here. -/
theorem Agrees.trans {p p' p'' q : Parser α} {post : Cursor → Prop} (h : Agrees p p' s c post)
    (h' : Agrees p p'' s c post) (hq : q s c = p'' s c) : Agrees p' q s c post := by
  obtain ⟨heq, hrun⟩ := h
  refine ⟨hq.trans (h'.1.trans heq.symm), ?_⟩
  rw [heq]
  exact hrun

/-- Two numbers of unfoldings that are both enough do the same. -/
theorem rulesTo_agree_grammar (n : Nat) : (rulesTo n).Agree n grammar := by
  have both : ∀ m k, m ≤ n → m ≤ k →
      (rulesTo m).Agree m (rulesTo n) ∧ (rulesTo m).Agree m (rulesTo k) := by
    intro m k hn hk
    obtain ⟨i, rfl⟩ := Nat.le.dest hn
    obtain ⟨j, rfl⟩ := Nat.le.dest hk
    exact ⟨rulesTo_agree m i, rulesTo_agree m j⟩
  have hle : ∀ c : Cursor, 2 * c.rest.length + 2 ≤ unfoldings c.rest := fun c => Nat.le_refl _
  refine ⟨?_, ?_, ?_, ?_, ?_, ?_⟩
  · intro stop definable s c hw
    obtain ⟨h, h'⟩ := both _ _ hw (Nat.le_of_succ_le (hle c))
    exact (h.sequence (Nat.lt_succ_self _)).trans (h'.sequence (Nat.lt_succ_self _)) rfl
  · intro stop b s c hw
    obtain ⟨h, h'⟩ := both _ _ hw (Nat.le_of_succ_le (hle c))
    exact (h.items (Nat.lt_succ_self _)).trans (h'.items (Nat.lt_succ_self _)) rfl
  · intro s c hc hw
    obtain ⟨h, h'⟩ := both _ _ hw (Nat.le_of_add_right_le (hle c))
    exact (h.command hc (Nat.le_refl _)).trans (h'.command hc (Nat.le_refl _)) rfl
  · intro s c hw
    obtain ⟨h, h'⟩ := both _ _ hw (Nat.le_of_succ_le (hle c))
    exact (h.operand (Nat.lt_succ_self _)).trans (h'.operand (Nat.lt_succ_self _)) rfl
  · intro s c hw
    obtain ⟨h, h'⟩ := both _ _ hw (Nat.le_of_succ_le (hle c))
    exact (h.scriptArg (Nat.lt_succ_self _)).trans (h'.scriptArg (Nat.lt_succ_self _)) rfl
  · intro matrix name row before s c hw
    obtain ⟨h, h'⟩ := both _ _ hw (hle c)
    exact (h.rows (Nat.lt_succ_self _)).trans (h'.rows (Nat.lt_succ_self _)) rfl

/-- At the end of the text a command is refused, whatever the rules. -/
theorem command_finish (rules rules' : Rules) (hc : c.rest = []) :
    command rules s c = command rules' s c := by
  obtain ⟨rest, stop⟩ := c
  cases hc
  rfl

/-- Rules that agree with every unfolding of the grammar are the grammar. -/
theorem eq_grammar {rules : Rules} (h : ∀ n, (rulesTo n).Agree n rules)
    (hcommand : ∀ s c, c.rest = [] → rules.command s c = grammar.command s c) :
    rules = grammar := by
  -- the weights of all rules at a cursor are below the number of its unfoldings
  have hle : ∀ c : Cursor, 2 * c.rest.length + 1 < unfoldings c.rest := fun c => Nat.le_refl _
  have hlt : ∀ c : Cursor, 2 * c.rest.length < unfoldings c.rest :=
    fun c => Nat.lt_of_succ_lt (hle c)
  obtain ⟨sequence, items, command, operand, scriptArg, rows⟩ := rules
  unfold grammar
  congr 1
  · funext stop definable s c
    exact ((h (unfoldings c.rest)).sequence (hlt c)).1
  · funext stop b s c
    exact ((h (unfoldings c.rest)).items (hlt c)).1
  · funext s c
    by_cases hc : c.rest = []
    · exact hcommand s c hc
    · exact ((h (unfoldings c.rest)).command hc (Nat.le_of_lt (hlt c))).1
  · funext s c
    exact ((h (unfoldings c.rest)).operand (hlt c)).1
  · funext s c
    exact ((h (unfoldings c.rest)).scriptArg (hlt c)).1
  · funext matrix name row before s c
    exact ((h (unfoldings c.rest)).rows (hle c)).1

/-- **The grammar solves its own equations.** -/
theorem grammar_unfold : grammar.unfold = grammar := by
  refine eq_grammar (fun n => ?_) fun s c hc => ?_
  · cases n with
    | zero => exact agree_zero _ _
    | succ n => exact (rulesTo_agree_grammar n).unfold
  · show command grammar s c = (rulesTo (unfoldings c.rest)).command s c
    rw [hc]
    exact command_finish _ _ hc

/-- **There is no other solution.** -/
theorem grammar_unique {rules : Rules} (h : rules.unfold = rules) : rules = grammar := by
  refine eq_grammar (rulesTo_agree_of_fixed h) fun s c hc => ?_
  rw [← h, ← grammar_unfold]
  exact command_finish _ _ hc

/-- From every cursor the grammar does not run out of unfoldings, and moves as it should. -/
theorem grammar_agree (w : Nat) : grammar.Agree w grammar := by
  induction w with
  | zero => exact agree_zero _ _
  | succ w ih =>
      have := ih.unfold
      rw [grammar_unfold] at this
      exact this

/-! ## Progress -/

theorem Agrees.ok {p p' : Parser α} {post : Cursor → Prop} {a : α} {c' : Cursor}
    (h : Agrees p p' s c post) (hok : p s c = .ok (a, c')) : post c' := by
  have hrun := h.2
  rw [hok] at hrun
  exact hrun

/-- The productions that introduce something, and what they move the cursor by. -/
structure Rules.Progress (rules : Rules) (s : Scope) (c : Cursor) : Prop where
  command : ∀ {o c'}, rules.command s c = .ok (o, c') → c.Past c'
  operand : ∀ {n c'}, rules.operand s c = .ok (n, c') → c.Past c'
  scriptArg : ∀ {n c'}, rules.scriptArg s c = .ok (n, c') → c.Past c'
  group : ∀ {kind n c'}, Grammar.group rules kind s c = .ok (n, c') → c.Past c'
  absolute : ∀ {n c'}, Grammar.absolute rules s c = .ok (n, c') → c.Past c'
  environment : ∀ {n c'}, Grammar.environment rules s c = .ok (n, c') → c.Past c'

/-- At the end of the text no environment is read. -/
theorem environment_rest {rules : Rules} {n : Node} {c' : Cursor}
    (h : environment rules s c = .ok (n, c')) : c.rest ≠ [] := by
  intro hc
  obtain ⟨rest, stop⟩ := c
  cases hc
  cases h

theorem grammar_progress (s : Scope) (c : Cursor) : grammar.Progress s c where
  command {o c'} h := by
    by_cases hc : c.rest = []
    · have hrun : grammar.command s c = unsupported (Token.finish s.text.length) s c := by
        obtain ⟨rest, stop⟩ := c
        cases hc
        rfl
      rw [hrun] at h
      exact absurd h (by simp [unsupported, failAt, fail])
    · exact ((grammar_agree _).command hc (Nat.le_refl _)).ok h
  operand h := ((grammar_agree _).operand (Nat.lt_succ_self _)).ok h
  scriptArg h := ((grammar_agree _).scriptArg (Nat.lt_succ_self _)).ok h
  group h := (group_agrees (grammar_agree _) (Nat.lt_succ_self _)).ok h
  absolute h := (absolute_agrees (grammar_agree _) (Nat.lt_succ_self _)).ok h
  environment h :=
    (environment_agrees (grammar_agree _) (environment_rest h) (Nat.lt_succ_self _)).ok h

/-! ## Where a cursor stands -/

/-- A cursor stands at an index of the tokens, or behind the last one, at the end of the text. -/
def Cursor.At (ts : List Token) (i : Nat) (c : Cursor) : Prop := i ≤ ts.length ∧ c.rest = ts.drop i

theorem Cursor.Reads.at {c c' : Cursor} (h : c.Reads c') {ts : List Token} {i : Nat}
    (hc : c.At ts i) : ∃ j, i ≤ j ∧ c'.At ts j := by
  induction h generalizing i with
  | refl => exact ⟨i, Nat.le_refl i, hc⟩
  | @next c t rest stop _ ih =>
      obtain ⟨hi, hrest⟩ := hc
      have hlt : i < ts.length := by
        rcases Nat.lt_or_ge i ts.length with hlt | hge
        · exact hlt
        · rw [List.drop_eq_nil_of_le hge] at hrest
          exact absurd hrest (by simp)
      have hdrop : rest = ts.drop (i + 1) := by
        rw [List.drop_eq_getElem_cons hlt] at hrest
        exact (List.cons.inj hrest).2
      obtain ⟨j, hj, hat⟩ := ih (i := i + 1) ⟨hlt, hdrop⟩
      exact ⟨j, by omega, hat⟩

/-- What a cursor sees is a token of the list, or the end of the text behind it. -/
theorem Cursor.At.token {ts : List Token} {i : Nat} (h : c.At ts i) (size n : Nat) :
    (ts ++ [Token.finish size])[min (i + n) ts.length]? = some (c.token size n) := by
  obtain ⟨hi, hrest⟩ := h
  unfold Cursor.token
  rw [hrest, List.getElem?_drop]
  rcases Nat.lt_or_ge (i + n) ts.length with hlt | hge
  · rw [Nat.min_eq_left (Nat.le_of_lt hlt), List.getElem?_append_left hlt,
      List.getElem?_eq_getElem hlt]
    rfl
  · rw [Nat.min_eq_right hge, List.getElem?_append_right (Nat.le_refl _), Nat.sub_self,
      List.getElem?_eq_none hge]
    rfl

/-- Reading a token moves the cursor by one, but not past the end of the text. -/
theorem Cursor.At.tail {ts : List Token} {i : Nat} (h : c.At ts i) :
    c.tail.At ts (min (i + 1) ts.length) := by
  obtain ⟨hi, hrest⟩ := h
  refine ⟨Nat.min_le_right _ _, ?_⟩
  have htail : c.tail.rest = c.rest.drop 1 := by
    obtain ⟨rest, stop⟩ := c
    cases rest <;> rfl
  rw [htail, hrest, List.drop_drop]
  rcases Nat.lt_or_ge i ts.length with hlt | hge
  · rw [Nat.min_eq_left hlt]
  · rw [Nat.min_eq_right (by omega), List.drop_eq_nil_of_le (by omega),
      List.drop_eq_nil_of_le (Nat.le_refl _)]

/-! ## Whole texts -/

/-- **Running the grammar on all tokens of a text reads it**, to a tree or to an error. -/
theorem parse_grammar {t : Text} {ts : List Token} (h : tokens t = .ok ts) (limit : Nat) :
    (∃ nodes c, grammar.sequence .finish true ⟨t, limit, 0⟩ ⟨ts, 0⟩ = .ok (nodes, c) ∧ c.rest = []
      ∧ parse limit t = .ok (.root [.expression .none nodes ⟨0, t.length⟩] ⟨0, t.length⟩))
    ∨ ∃ e atEnd, grammar.sequence .finish true ⟨t, limit, 0⟩ ⟨ts, 0⟩ = .error (.failed e atEnd)
      ∧ parse limit t = .error e := by
  have hagree : Agrees (grammar.sequence .finish true) (grammar.sequence .finish true)
      ⟨t, limit, 0⟩ ⟨ts, 0⟩ (Cursor.Ends ⟨ts, 0⟩ .finish) :=
    (grammar_agree (2 * ts.length + 1)).sequence (Nat.lt_succ_self _)
  have htokens : parseTokens limit t ts
      = (do
        let r ← grammar.sequence .finish true ⟨t, limit, 0⟩ ⟨ts, 0⟩
        pure r.1) := rfl
  rw [parse_of_tokens limit h, htokens]
  have hrun := hagree.2
  cases hg : grammar.sequence .finish true ⟨t, limit, 0⟩ ⟨ts, 0⟩ with
  | ok r =>
      rw [hg] at hrun
      refine Or.inl ⟨r.1, r.2, rfl, ?_, rfl⟩
      have hstop := hrun.2
      cases hrest : r.2.rest with
      | nil => rfl
      | cons t' ts' => rw [hrest] at hstop; exact absurd hstop (by simp [Stop.holds])
  | error halt =>
      rw [hg] at hrun
      cases halt with
      | failed e atEnd => exact Or.inr ⟨e, atEnd, rfl, rfl⟩
      | spent => exact hrun.elim

/--
**Reading a text ends by itself**, under every bound on nesting.

The equations of the grammar have one solution, and running it on all tokens gives the tree or the
error. This is because every reference of a rule to a rule, also that of a loop to its next round,
goes down in weight, so that none comes back to where it started without having read a token. At
every cursor that is reached, the productions that introduce something read at least one token, and
what is looked at and read are tokens of the text or the end of the text behind them, where the
cursor stays.
-/
theorem reading_terminates {t : Text} {ts : List Token} (h : tokens t = .ok ts) (limit : Nat) :
    (grammar.unfold = grammar ∧ ∀ rules : Rules, rules.unfold = rules → rules = grammar)
    ∧ ((∃ nodes c, grammar.sequence .finish true ⟨t, limit, 0⟩ ⟨ts, 0⟩ = .ok (nodes, c)
          ∧ c.rest = []
          ∧ parse limit t = .ok (.root [.expression .none nodes ⟨0, t.length⟩] ⟨0, t.length⟩))
        ∨ ∃ e atEnd, grammar.sequence .finish true ⟨t, limit, 0⟩ ⟨ts, 0⟩ = .error (.failed e atEnd)
          ∧ parse limit t = .error e)
    ∧ (∀ (w : Nat) (rules rules' : Rules), rules.Agree w rules' →
        rules.unfold.Agree (w + 1) rules'.unfold)
    ∧ ∀ (s : Scope) (c : Cursor), Cursor.Reads ⟨ts, 0⟩ c →
        grammar.Progress s c ∧ ∃ i, c.At ts i
          ∧ (∀ n, ∃ token, (ts ++ [Token.finish s.text.length])[min (i + n) ts.length]? = some token
            ∧ peekAt n s c = .ok (token, c))
          ∧ ∃ token c', (ts ++ [Token.finish s.text.length])[i]? = some token
            ∧ next s c = .ok (token, c') ∧ c'.At ts (min (i + 1) ts.length) := by
  refine ⟨⟨grammar_unfold, fun _ => grammar_unique⟩, parse_grammar h limit,
    fun _ _ _ => Rules.Agree.unfold, ?_⟩
  intro s c hreads
  obtain ⟨i, -, hat⟩ := hreads.at (i := 0) ⟨Nat.zero_le _, rfl⟩
  refine ⟨grammar_progress s c, i, hat, fun n => ⟨_, hat.token _ n, peekAt_eq n⟩, ?_⟩
  have htoken := hat.token s.text.length 0
  rw [Nat.add_zero, Nat.min_eq_left hat.1] at htoken
  exact ⟨_, _, htoken, next_eq, hat.tail⟩

/-- An integral is read to its end, and a bracket that nobody closes is refused at it. -/
theorem integral_read_through :
    (∃ ts nodes c, tokens "\\int_0^1|x|dx" = .ok ts ∧ ts.length = 10
      ∧ grammar.sequence .finish true ⟨"\\int_0^1|x|dx", 3, 0⟩ ⟨ts, 0⟩ = .ok (nodes, c)
      ∧ nodes.length = 1 ∧ c.rest = [])
    ∧ ∃ ts e, tokens "(1" = .ok ts
      ∧ grammar.sequence .finish true ⟨"(1", 2, 0⟩ ⟨ts, 0⟩ = .error (.failed e true) := by
  constructor
  · obtain ⟨ts, htokens, hlen⟩ : ∃ ts, tokens "\\int_0^1|x|dx" = .ok ts ∧ ts.length = 10 :=
      ⟨_, rfl, rfl⟩
    obtain ⟨nodes, hnodes, hparse⟩ : ∃ nodes : List Node, nodes.length = 1
        ∧ parse 3 "\\int_0^1|x|dx" = .ok (.root [.expression .none nodes ⟨0, 13⟩] ⟨0, 13⟩) :=
      ⟨[_], rfl, rfl⟩
    rcases (reading_terminates htokens 3).2.1 with ⟨nodes', c, hrun, hrest, hok⟩ | ⟨e, _, _, hno⟩
    · rw [hparse] at hok
      cases hok
      exact ⟨ts, nodes, c, htokens, hlen, hrun, hnodes, hrest⟩
    · rw [hparse] at hno
      exact absurd hno (by simp)
  · exact ⟨_, _, rfl, rfl⟩

end MathMarkup.Grammar
