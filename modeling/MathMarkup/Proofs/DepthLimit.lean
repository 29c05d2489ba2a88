import MathMarkup.Proofs.Height
import MathMarkup.Proofs.Parsing

/-!
# The bound on nesting

What the bound does to a parser is said in one judgement (`Within`): wherever it starts, the parser
reaches the bound, or it does not notice it, that is to say it does the same under every higher
bound, and then what it gives has a property. The property kept by the productions is that trees are
low, by how much the bound leaves to them (`Scope.room`).

The productions owe this to one another (`Rules.Limited`), and unfolding the grammar keeps it. For a
whole text the two halves of the judgement say that a higher bound never changes an answer, and how
high a tree can be under a bound (`parse_within`).
-/

namespace MathMarkup.Grammar

open MathMarkup.Grammar.Parser
open MathMarkup.Node (Low LowAll LowOption lowAll_nil lowAll_append lowOption_none lowOption_some)

variable {α β : Type} {s : Scope}

/-! ## Taking a parser apart -/

/-- From every cursor a parser reaches the bound on nesting, or it does the same under every higher
bound and gives a value with `post`, if it gives one. -/
def Within (p : Parser α) (s : Scope) (post : α → Prop) : Prop :=
  ∀ c, (∃ atEnd, p s c = .error (.failed (tooDeep s.limit) atEnd))
    ∨ ((∀ limit, s.limit ≤ limit → p { s with limit } c = p s c)
      ∧ ∀ a c', p s c = .ok (a, c') → post a)

theorem Within.mono {p : Parser α} {post post' : α → Prop} (h : Within p s post)
    (hpost : ∀ a, post a → post' a) : Within p s post' := by
  intro c
  rcases h c with hdeep | ⟨hsame, hvalue⟩
  · exact Or.inl hdeep
  · exact Or.inr ⟨hsame, fun a c' ha => hpost a (hvalue a c' ha)⟩

theorem Within.bind {p : Parser α} {f : α → Parser β} {P : α → Prop} {post : β → Prop}
    (hp : Within p s P) (hf : ∀ a, P a → Within (f a) s post) : Within (p >>= f) s post := by
  intro c
  rcases hp c with ⟨atEnd, hdeep⟩ | ⟨hsame, hvalue⟩
  · exact Or.inl ⟨atEnd, by rw [run_bind, hdeep]⟩
  · simp only [run_bind]
    cases hrun : p s c with
    | error e =>
        refine Or.inr ⟨fun limit hl => by rw [hsame limit hl, hrun], ?_⟩
        exact fun _ _ hok => absurd hok (by simp)
    | ok r =>
        rcases hf r.1 (hvalue r.1 r.2 hrun) r.2 with hdeep | ⟨hsame', hvalue'⟩
        · exact Or.inl hdeep
        · refine Or.inr ⟨fun limit hl => ?_, hvalue'⟩
          rw [hsame limit hl, hrun]
          exact hsame' limit hl

theorem within_pure {a : α} {post : α → Prop} (h : post a) : Within (pure a) s post :=
  fun _ => Or.inr ⟨fun _ _ => rfl, fun _ _ ha => by cases ha; exact h⟩

theorem Within.map {p : Parser α} {f : α → β} {P : α → Prop} {post : β → Prop}
    (h : Within p s P) (hf : ∀ a, P a → post (f a)) : Within (f <$> p) s post :=
  h.bind (f := fun a => pure (f a)) fun a ha => within_pure (hf a ha)

theorem within_ite {b : Prop} [Decidable b] {p q : Parser α} {post : α → Prop}
    (hp : b → Within p s post) (hq : ¬ b → Within q s post) :
    Within (if b then p else q) s post := by
  split
  · exact hp ‹b›
  · exact hq ‹¬ b›

/-- A parser that does not know the bound. -/
theorem within_of_eq {p : Parser α} (h : ∀ limit c, p { s with limit } c = p s c) :
    Within p s (fun _ => True) :=
  fun c => Or.inr ⟨fun limit _ => h limit c, fun _ _ _ => trivial⟩

theorem within_step {p : Parser α} {f : α → Parser β} {post : β → Prop}
    (hp : ∀ limit c, p { s with limit } c = p s c) (hf : ∀ a, Within (f a) s post) :
    Within (p >>= f) s post :=
  (within_of_eq hp).bind fun a _ => hf a

section Steps

variable {post : β → Prop}

theorem within_next {f : Token → Parser β} (h : ∀ t, Within (f t) s post) :
    Within (next >>= f) s post := within_step (fun _ _ => rfl) h

theorem within_peek {f : Token → Parser β} (h : ∀ t, Within (f t) s post) :
    Within (peek >>= f) s post := within_step (fun _ _ => rfl) h

theorem within_peekAt {n : Nat} {f : Token → Parser β} (h : ∀ t, Within (f t) s post) :
    Within (peekAt n >>= f) s post := within_step (fun _ _ => rfl) h

theorem within_lookahead {f : List Token → Parser β} (h : ∀ ts, Within (f ts) s post) :
    Within (lookahead >>= f) s post := within_step (fun _ _ => rfl) h

theorem within_lastStop {f : Nat → Parser β} (h : ∀ n, Within (f n) s post) :
    Within (lastStop >>= f) s post := within_step (fun _ _ => rfl) h

theorem within_skip {n : Nat} {f : Unit → Parser β} (h : Within (f ()) s post) :
    Within (Parser.skip n >>= f) s post :=
  within_step (fun _ _ => by rw [skip_eq, skip_eq]) fun _ => h

theorem within_skipLimits {f : Unit → Parser β} (h : Within (f ()) s post) :
    Within (skipLimits >>= f) s post := by
  refine within_step (fun limit c => ?_) fun _ => h
  show Parser.skip _ _ c = Parser.skip _ _ c
  rw [skip_eq, skip_eq]

theorem within_failAt {start stop : Nat} {found detail suggestion : Text} :
    Within (failAt start stop found detail suggestion) s post :=
  fun _ => Or.inr ⟨fun _ _ => rfl, fun _ _ h => absurd h (by simp [failAt, fail])⟩

theorem within_unexpected {t : Token} {expected : List Text} :
    Within (unexpected t expected) s post :=
  fun _ => Or.inr ⟨fun _ _ => rfl, fun _ _ h => absurd h (by simp [unexpected, fail])⟩

theorem within_expect {kind : TokenKind} {f : Token → Parser β} (h : ∀ t, Within (f t) s post) :
    Within (expect kind >>= f) s post := by
  refine Within.bind (P := fun _ => True) ?_ fun t _ => h t
  refine within_peek fun t => within_ite (fun _ => ?_) fun _ => within_unexpected
  exact within_of_eq fun _ _ => rfl

theorem within_spent : Within spent s post :=
  fun _ => Or.inr ⟨fun _ _ => rfl, fun _ _ h => absurd h (by simp [spent])⟩

end Steps

/-- Another wording is given to syntax errors only, and reaching the bound is none. -/
theorem Within.rewordAtEnd {p : Parser α} {post : α → Prop} {detail : Text}
    (h : Within p s post) : Within (rewordAtEnd detail p) s post := by
  intro c
  rcases h c with ⟨atEnd, hdeep⟩ | ⟨hsame, hvalue⟩
  · refine Or.inl ⟨atEnd, ?_⟩
    unfold Parser.rewordAtEnd
    rw [hdeep]
    rfl
  · refine Or.inr ⟨fun limit hl => ?_, fun a c' ha => hvalue a c' ?_⟩
    · unfold Parser.rewordAtEnd
      rw [hsame limit hl]
    · unfold Parser.rewordAtEnd at ha
      split at ha
      · exact absurd ha (by simp)
      · exact ha

/-- What the bound leaves to the trees of a scope: two levels for each sequence that may still be
nested. -/
def Scope.room (s : Scope) : Nat := 2 * (s.limit - s.depth)

/-- Here the bound is looked at: the sequence reaches it, or has two levels less. -/
theorem within_nested {p : Parser α} {post : α → Prop}
    (h : ∀ s' : Scope, s'.room + 2 = s.room → Within p s' post) : Within (nested p) s post := by
  intro c
  unfold nested
  by_cases hdeep : s.depth + 1 > s.limit
  · exact Or.inl ⟨c.rest.isEmpty, by rw [if_pos hdeep]; rfl⟩
  · have hroom : ({ s with depth := s.depth + 1 } : Scope).room + 2 = s.room := by
      simp only [Scope.room]
      omega
    rw [if_neg hdeep]
    rcases h _ hroom c with hinner | ⟨hsame, hvalue⟩
    · exact Or.inl hinner
    · refine Or.inr ⟨fun limit hl => ?_, hvalue⟩
      rw [if_neg (by simp only at hl ⊢; omega)]
      exact hsame limit hl

/-! ## The contract of the productions -/

/-- Rules that keep to the bound. A sequence takes its two levels from the room of its scope, so
what is read in it has two more than the room it is given, and an argument, which may be a construct
in brackets, has three. -/
structure Rules.Limited (rules : Rules) : Prop where
  sequence : ∀ (stop : Stop) (definable : Bool) (s : Scope),
    Within (rules.sequence stop definable) s (LowAll s.room)
  items : ∀ (stop : Stop) {b : Builder} {s : Scope}, LowAll (s.room + 2) b.nodes →
    Within (rules.items stop b) s (LowAll (s.room + 2))
  command : ∀ s : Scope, Within rules.command s (LowOption (s.room + 2))
  operand : ∀ s : Scope, Within rules.operand s (Low (s.room + 3))
  scriptArg : ∀ s : Scope, Within rules.scriptArg s (Low (s.room + 3))
  rows : ∀ (matrix : Bool) (name : Text) {row before : List Node} {s : Scope},
    LowAll (s.room + 1) row → LowAll (s.room + 1) before →
    Within (rules.rows matrix name row before) s (LowAll (s.room + 1))

variable {rules : Rules}

/-! ## Groups, carets and definitions -/

theorem groupContents_within {kind : Bracket} (h : rules.Limited) :
    Within (groupContents rules kind) s (fun r => LowAll s.room r.1) := by
  unfold groupContents
  refine within_next fun _ => Within.bind (h.sequence _ _ s) fun nodes hnodes => ?_
  exact within_expect fun _ => within_pure hnodes

theorem group_within {kind : Bracket} (h : rules.Limited) :
    Within (group rules kind) s (Low (s.room + 1)) := by
  unfold group
  refine Within.bind (groupContents_within h) fun r hr => ?_
  exact within_pure (hr.expression _ _)

theorem absolute_within (h : rules.Limited) : Within (absolute rules) s (Low s.room) := by
  unfold absolute
  refine within_next fun _ => Within.bind (h.sequence _ _ s) fun nodes hnodes => ?_
  refine within_expect fun _ => within_pure ?_
  exact (hnodes.expression _ _).single.function lowOption_none _ _

/-- A degree sign makes the operand before it the argument of a function, at any bound. -/
theorem caret_within {k : Nat} {b : Builder} (hb : LowAll (k + 2) b.nodes) :
    Within (caret b) s (fun b' => LowAll (k + 2) b'.nodes) := by
  unfold caret
  refine within_peek fun sign => within_lookahead fun ts => ?_
  split
  · exact within_next fun _ => within_pure hb
  · refine within_peekAt fun last => ?_
    split
    · exact within_failAt
    · rename_i operand before hpop
      obtain ⟨hop, hbefore⟩ := Builder.popOperand_low hb hpop
      refine within_skip (within_pure (Builder.add_low hbefore ?_))
      -- the function is a level above its argument, and makes up for two
      exact (hop.mono (Nat.le_succ _)).single.function lowOption_none _ _

theorem definition_within {stop : Stop} (h : rules.Limited) :
    Within (definition rules stop) s (LowOption (s.room + 2)) := by
  unfold definition
  refine within_lookahead fun ts => ?_
  split
  · exact within_pure lowOption_none
  · refine within_peek fun letter => within_skip ?_
    refine Within.bind (group_within h) fun inner hinner => within_next fun sign => ?_
    refine Within.bind (h.sequence stop false s) fun body hbody => ?_
    refine within_peek fun last => within_pure (lowOption_some ?_)
    have hinner : Low (s.room + 3) inner := hinner.mono (by omega)
    exact LowAll.function ((unitAt_low _ _).cons (hinner.cons (argument_low hbody _).single))
      lowOption_none _ _

/-! ## Sequences -/

theorem items_within {stop : Stop} {b : Builder} (h : rules.Limited)
    (hb : LowAll (s.room + 2) b.nodes) :
    Within (items rules stop b) s (LowAll (s.room + 2)) := by
  unfold items
  refine within_lookahead fun ts => ?_
  split
  · exact within_pure (Builder.finish_low hb)
  · refine within_peek fun t => ?_
    split
    · exact within_next fun _ => h.items stop (b := b.addToken t) hb
    · exact within_next fun _ => h.items stop (b := b.addToken t) hb
    · refine Within.bind (group_within h) fun n hn => h.items stop ?_
      exact Builder.add_low hb (hn.mono (by omega))
    · refine Within.bind (absolute_within h) fun n hn => h.items stop ?_
      exact Builder.add_low hb (hn.mono (by omega))
    · exact Within.bind (caret_within hb) fun b' hb' => h.items stop hb'
    · refine Within.bind (h.command s) fun o ho => ?_
      cases o with
      | some n => exact h.items stop (Builder.add_low hb (ho n rfl))
      | none => exact h.items stop hb
    all_goals exact within_unexpected

theorem itemsAfter_within {stop : Stop} (first : Option Node) (h : rules.Limited)
    (hfirst : LowOption (s.room + 2) first) :
    Within (match first with
      | some n => items rules stop (Builder.add {} n)
      | none => items rules stop {}) s (LowAll (s.room + 2)) := by
  cases first with
  | some n => exact items_within h (Builder.add_low lowAll_nil (hfirst n rfl))
  | none => exact items_within h lowAll_nil

theorem sequence_within {stop : Stop} {definable : Bool} (h : rules.Limited) :
    Within (sequence rules stop definable) s (LowAll s.room) := by
  unfold sequence
  refine within_nested fun s' hroom => ?_
  rw [← hroom]
  cases definable with
  | true => exact Within.bind (definition_within h) fun first => itemsAfter_within first h
  | false => exact itemsAfter_within none h lowOption_none

/-! ## Arguments -/

theorem operand_within (h : rules.Limited) : Within (operand rules) s (Low (s.room + 3)) := by
  unfold operand
  refine within_peek fun t => ?_
  split
  · refine Within.bind (groupContents_within h) fun r hr => ?_
    exact within_pure ((hr.expression _ _).mono (by omega))
  · exact (group_within h).mono fun n hn => hn.mono (by omega)
  · exact (absolute_within h).mono fun n hn => hn.mono (by omega)
  · refine Within.bind (h.command s) fun o ho => ?_
    cases o with
    | some n => exact within_pure (wrapCurly_low (ho n rfl))
    | none => exact h.operand s
  · refine within_ite (fun _ => ?_) fun _ => within_unexpected
    exact within_lookahead fun ts => within_skip (within_pure (unitAt_low _ _))
  · exact within_unexpected

theorem scriptArg_within (h : rules.Limited) : Within (scriptArg rules) s (Low (s.room + 3)) := by
  unfold scriptArg
  refine within_peek fun t => ?_
  split
  · exact (group_within h).mono fun n hn => hn.mono (by omega)
  · exact within_next fun _ => within_pure (unitAt_low _ _)
  · refine Within.bind (h.command s) fun o ho => ?_
    cases o with
    | some n => exact within_pure (wrapCurly_low (ho n rfl))
    | none => exact h.scriptArg s
  · exact within_unexpected

/-! ## Commands -/

theorem unary_within {name : FunctionName} (h : rules.Limited) :
    Within (unary rules name) s (Low (s.room + 2)) := by
  unfold unary
  refine within_next fun _ => Within.bind (scriptArg_within h) fun arg harg => ?_
  refine within_lastStop fun _ => within_pure ?_
  exact harg.single.function lowOption_none _ _

/-- Two arguments behind the token of a command. -/
theorem pair_within {name : FunctionName} {start : Nat} (h : rules.Limited) :
    Within (do
        let first ← scriptArg rules
        let second ← scriptArg rules
        pure (.function name [first, second] none ⟨start, ← lastStop⟩)) s (Low (s.room + 2)) := by
  refine Within.bind (scriptArg_within h) fun first hfirst => ?_
  refine Within.bind (scriptArg_within h) fun second hsecond => ?_
  refine within_lastStop fun _ => within_pure ?_
  exact (hfirst.cons hsecond.single).function lowOption_none _ _

theorem named_within {name : Text} (h : rules.Limited) :
    Within (named rules name) s (Low (s.room + 2)) := by
  -- the argument behind the name, with or without an exponent
  have rest : ∀ (exponent : Option Node) (head : Token), LowOption (s.room + 3) exponent →
      Within (do
        let arg ← operand rules
        pure (.function .regular [unitAt name head.span, arg] exponent
          ⟨head.start, ← lastStop⟩)) s (Low (s.room + 2)) := by
    intro exponent head hexp
    refine Within.bind (operand_within h) fun arg harg => within_lastStop fun _ => within_pure ?_
    exact LowAll.function ((unitAt_low _ _).cons harg.single) hexp _ _
  unfold named
  refine within_next fun head => within_peek fun t => ?_
  dsimp only
  split
  · refine within_next fun _ => Within.bind (P := LowOption (s.room + 3))
      ((scriptArg_within h).map fun _ => lowOption_some) fun e he => ?_
    exact rest e head he
  · exact rest none head lowOption_none

theorem fraction_within (h : rules.Limited) : Within (fraction rules) s (Low (s.room + 2)) := by
  unfold fraction
  refine within_next fun head => within_lookahead fun ts => ?_
  split
  · refine within_skip (Within.bind (operand_within h) fun arg harg => ?_)
    refine within_lastStop fun _ => within_pure ?_
    exact LowAll.function ((unitAt_low _ _).cons ((unitAt_low _ _).cons harg.single))
      lowOption_none _ _
  · exact pair_within h

theorem root_within (h : rules.Limited) : Within (root rules) s (Low (s.room + 2)) := by
  have rest : ∀ (degree : Option Node) (start : Nat), LowOption (s.room + 3) degree →
      Within (do
        let radicand ← scriptArg rules
        pure (.function .sqrt (degree.toList ++ [radicand]) none ⟨start, ← lastStop⟩)) s
        (Low (s.room + 2)) := by
    intro degree start hdegree
    refine Within.bind (scriptArg_within h) fun radicand hrad => ?_
    refine within_lastStop fun _ => within_pure (LowAll.function ?_ lowOption_none _ _)
    refine lowAll_append.mpr ⟨fun n hn => ?_, hrad.single⟩
    exact hdegree n (Option.mem_toList.mp hn)
  unfold root
  refine within_next fun head => within_peek fun t => ?_
  dsimp only
  split
  · refine Within.bind (P := LowOption (s.room + 3))
      ((group_within h).map fun n hn => lowOption_some (hn.mono (by omega))) fun d hd => ?_
    exact rest d head.start hd
  · exact rest none head.start lowOption_none

/-- Scripts that are low. -/
structure Scripts.Low (k : Nat) (r : Scripts) : Prop where
  sub : LowOption k r.sub
  super : LowOption k r.super

theorem script_within {subAllowed : Bool} {r : Scripts} (h : rules.Limited)
    (hr : r.Low (s.room + 3)) :
    Within (script rules subAllowed r) s (Scripts.Low (s.room + 3)) := by
  unfold script
  refine within_peek fun t => ?_
  refine within_ite (fun _ => ?_) fun _ => within_ite (fun _ => ?_) fun _ => within_pure hr
  · refine within_next fun _ => Within.bind (scriptArg_within h) fun arg harg => ?_
    exact within_pure ⟨lowOption_some harg, hr.super⟩
  · refine within_next fun _ => Within.bind (scriptArg_within h) fun arg harg => ?_
    exact within_pure ⟨hr.sub, lowOption_some harg⟩

theorem scripts_low {k : Nat} : Scripts.Low k {} := ⟨lowOption_none, lowOption_none⟩

theorem integralBody_within (h : rules.Limited) :
    Within (integralBody rules) s (Low (s.room + 1)) := by
  unfold integralBody
  refine within_peek fun t => within_ite (fun _ => group_within h) fun _ => ?_
  refine Within.bind (h.sequence _ _ s) fun nodes hnodes => ?_
  exact within_peek fun _ => within_pure (hnodes.expression _ _)

theorem integral_within (h : rules.Limited) : Within (integral rules) s (Low (s.room + 2)) := by
  unfold integral
  refine within_next fun head => within_skipLimits ?_
  refine Within.bind (script_within h scripts_low) fun one hone => within_skipLimits ?_
  refine Within.bind (script_within h hone) fun both hboth => within_skipLimits ?_
  refine within_ite (fun _ => within_peek fun _ => within_failAt) fun _ => ?_
  refine Within.bind (integralBody_within h) fun body hbody => ?_
  refine within_peek fun d => within_peekAt fun letter => ?_
  refine within_ite (fun _ => within_skip (within_pure ?_)) fun _ => within_unexpected
  have hbody : Low (s.room + 3) body := hbody.mono (by omega)
  refine LowAll.function (lowAll_append.mpr ⟨lowAll_append.mpr ⟨fun n hn => ?_, fun n hn => ?_⟩,
    hbody.cons (unitAt_low _ _).single⟩) lowOption_none _ _
  · exact hboth.sub n (Option.mem_toList.mp hn)
  · exact hboth.super n (Option.mem_toList.mp hn)

theorem limit_within (h : rules.Limited) : Within (limit rules) s (Low (s.room + 2)) := by
  unfold limit
  refine within_next fun head => within_expect fun _ => within_expect fun first => ?_
  refine Within.bind (h.sequence _ _ s) fun name hname => within_peek fun arrow => ?_
  refine within_ite (fun _ => within_next fun _ => ?_) fun _ => within_unexpected
  refine Within.bind (h.sequence _ _ s) fun target htarget => within_expect fun last => ?_
  refine Within.bind (operand_within h) fun arg harg => ?_
  refine within_lastStop fun _ => within_pure ?_
  exact LowAll.function ((argument_low hname _).cons ((argument_low htarget _).cons harg.single))
    lowOption_none _ _

theorem logarithm_within (h : rules.Limited) :
    Within (logarithm rules) s (Low (s.room + 2)) := by
  unfold logarithm
  refine within_next fun head => Within.bind (script_within h scripts_low) fun one hone => ?_
  refine Within.bind (script_within h hone) fun both hboth => ?_
  refine Within.bind (operand_within h) fun arg harg => within_lastStop fun _ => ?_
  split
  · rename_i base hbase
    exact within_pure (((hboth.sub base hbase).cons harg.single).function hboth.super _ _)
  · refine within_ite (fun _ => within_pure ?_) fun _ => within_pure ?_
    · exact harg.single.function hboth.super _ _
    · exact harg.single.function hboth.super _ _

/-! ## Environments -/

theorem within_environmentName {f : Text × Nat → Parser β} {post : β → Prop}
    (h : ∀ r, Within (f r) s post) : Within (environmentName >>= f) s post := by
  refine Within.bind (P := fun _ => True) ?_ fun r _ => h r
  unfold environmentName
  refine within_expect fun _ => within_peek fun _ => within_lookahead fun _ => within_skip ?_
  exact within_expect fun _ => within_pure trivial

theorem rows_within {matrix : Bool} {name : Text} {row before : List Node} (h : rules.Limited)
    (hrow : LowAll (s.room + 1) row) (hbefore : LowAll (s.room + 1) before) :
    Within (rows rules matrix name row before) s (LowAll (s.room + 1)) := by
  unfold rows
  refine within_peek fun start => Within.bind (h.sequence _ _ s).rewordAtEnd fun nodes hnodes => ?_
  refine within_peek fun stop => within_next fun separator => ?_
  have hcell : ∀ span, LowAll (s.room + 1) (Node.expression .none nodes span :: row) :=
    fun span => (hnodes.expression _ span).cons hrow
  refine within_ite (fun _ => h.rows _ _ (hcell _) hbefore) fun _ => ?_
  have hkept : ∀ span, LowAll (s.room + 1)
      (if isEmptyRow (Node.expression .none nodes span :: row) then before
        else (Node.expression .none nodes span :: row) ++ before) := by
    intro span
    split
    · exact hbefore
    · exact lowAll_append.mpr ⟨hcell span, hbefore⟩
  refine within_ite (fun _ => within_pure fun n hn => ?_) fun _ => ?_
  · exact hkept _ n (List.mem_reverse.mp hn)
  · exact h.rows _ _ lowAll_nil (hkept _)

theorem environment_within (h : rules.Limited) :
    Within (environment rules) s (Low (s.room + 2)) := by
  unfold environment
  refine within_next fun head => within_environmentName fun r => ?_
  dsimp only
  split
  · exact within_lastStop fun _ => within_failAt
  · refine within_peek fun t => ?_
    refine within_ite (fun _ => Within.bind (group_within h) fun _ _ => ?_) fun _ => ?_
    -- with the columns of an array before them or without, the rows are read alike
    all_goals
      refine Within.bind (h.rows _ _ lowAll_nil lowAll_nil) fun cells hcells => ?_
      refine within_environmentName fun last => within_ite (fun _ => ?_) fun _ => ?_
      · exact within_lastStop fun _ => within_pure (hcells.environment _ _)
      · exact within_lastStop fun _ => within_failAt

/-! ## The grammar -/

theorem command_within (h : rules.Limited) :
    Within (command rules) s (LowOption (s.room + 2)) := by
  have made : ∀ {p : Parser Node}, Within p s (Low (s.room + 2)) →
      Within (some <$> p) s (LowOption (s.room + 2)) :=
    fun hp => hp.map fun _ => lowOption_some
  unfold command
  refine within_peek fun t => within_ite (fun _ => ?_) fun _ => within_ite (fun _ => ?_) fun _ => ?_
  · exact within_next fun _ => within_pure lowOption_none
  · exact within_next fun _ => within_pure (lowOption_some (unitAt_low _ _))
  split
  · exact made (named_within h)
  · refine within_ite (fun _ => made (fraction_within h)) fun _ => ?_
    refine within_ite (fun _ => made (root_within h)) fun _ => ?_
    refine within_ite (fun _ => made (integral_within h)) fun _ => ?_
    refine within_ite (fun _ => made (limit_within h)) fun _ => ?_
    refine within_ite (fun _ => made (logarithm_within h)) fun _ => ?_
    refine within_ite (fun _ => made (within_next fun _ => pair_within h)) fun _ => ?_
    refine within_ite (fun _ => made (unary_within h)) fun _ => ?_
    exact within_ite (fun _ => made (environment_within h)) fun _ => within_failAt

theorem none_limited : Rules.none.Limited where
  sequence _ _ _ := within_spent
  items _ _ _ _ := within_spent
  command _ := within_spent
  operand _ := within_spent
  scriptArg _ := within_spent
  rows _ _ _ _ _ _ _ := within_spent

/-- **One unfolding keeps to the bound.** -/
theorem Rules.Limited.unfold (h : rules.Limited) : rules.unfold.Limited where
  sequence _ _ _ := sequence_within h
  items _ _ _ hb := items_within h hb
  command _ := command_within h
  operand _ := operand_within h
  scriptArg _ := scriptArg_within h
  rows _ _ _ _ _ hrow hbefore := rows_within h hrow hbefore

/-- **The grammar keeps to the bound**, however often it is unfolded. -/
theorem rulesTo_limited (n : Nat) : (rulesTo n).Limited := by
  induction n with
  | zero => exact none_limited
  | succ n ih => exact ih.unfold

/--
**A text is nested too deeply for a bound, or the bound does not matter to it**: it is read in the
same way under every higher bound, and the height of its tree is bounded but for its functions.
-/
theorem parse_within (limit : Nat) (t : Text) :
    parse limit t = .error (tooDeep limit)
      ∨ ((∀ limit', limit ≤ limit' → parse limit' t = parse limit t)
        ∧ ∀ tree, parse limit t = .ok tree → Low (2 * limit + 2) tree) := by
  cases htok : tokens t with
  | error e =>
      refine Or.inr ⟨fun limit' _ => ?_, fun tree h => absurd h ?_⟩
      · unfold parse
        rw [htok]
      · unfold parse
        rw [htok]
        simp
  | ok ts =>
      simp only [parse_of_tokens _ htok, parseTokens]
      rcases (rulesTo_limited (unfoldings ts)).sequence .finish true ⟨t, limit, 0⟩ ⟨ts, 0⟩ with
        ⟨atEnd, hdeep⟩ | ⟨hsame, hvalue⟩
      · refine Or.inl ?_
        rw [hdeep]
        rfl
      · refine Or.inr ⟨fun limit' hl => by rw [← hsame limit' hl], fun tree htree => ?_⟩
        cases hrun : (rulesTo (unfoldings ts)).sequence .finish true ⟨t, limit, 0⟩ ⟨ts, 0⟩ with
        | error halt =>
            rw [hrun] at htree
            cases halt <;> exact absurd htree (by simp [bind, Except.bind])
        | ok r =>
            rw [hrun] at htree
            cases htree
            have hlow := hvalue r.1 r.2 hrun
            -- the expression and the root are two levels more
            exact (hlow.expression _ _).single.root _

end MathMarkup.Grammar
