import MathMarkup.Proofs.Places
import MathMarkup.Proofs.Reading
import MathMarkup.Grammar.Parse

/-!
# Two runs over the same tokens

A parser is run twice, from cursors whose tokens differ in their places only. `Mirrors f` says that
the two runs end alike: with values that `f` maps to the same, before the same tokens, or with
failures that differ in their places only. Each production keeps this if the rules it refers to do
(`Rules.Blind`), so unfolding the grammar keeps it as well (`rulesTo_blind`).

Nothing is asked of the places themselves. They go into spans and errors, where `f` and `bare` take
them out again, and into no decision.
-/

namespace MathMarkup.Grammar

open MathMarkup.Grammar.Parser

variable {α β γ δ : Type}

/-- Two runs end alike. -/
inductive Alike (f : α → γ) :
    Except Halt (α × Cursor) → Except Halt (α × Cursor) → Prop where
  | ok {a a' : α} {c c' : Cursor} : f a = f a' → bareTokens c.rest = bareTokens c'.rest →
      Alike f (.ok (a, c)) (.ok (a', c'))
  | failed {e e' : StageError} {atEnd : Bool} : e.bare = e'.bare →
      Alike f (.error (.failed e atEnd)) (.error (.failed e' atEnd))
  | spent : Alike f (.error .spent) (.error .spent)

/-- Two parsers end alike over tokens that differ in their places only, whatever the two texts. -/
def Mirrors (f : α → γ) (p p' : Parser α) : Prop :=
  ∀ (s s' : Scope) (c c' : Cursor), s.limit = s'.limit → s.depth = s'.depth →
    bareTokens c.rest = bareTokens c'.rest → Alike f (p s c) (p' s' c')

section Steps

variable {f : α → γ} {g : β → δ} {p p' : Parser α} {q q' : α → Parser β}

theorem Mirrors.bind (hp : Mirrors f p p')
    (hq : ∀ a a', f a = f a' → Mirrors g (q a) (q' a')) : Mirrors g (p >>= q) (p' >>= q') := by
  intro s s' c c' hlimit hdepth hc
  rw [run_bind, run_bind]
  cases hrun : p s c with
  | ok r =>
      have h := hp s s' c c' hlimit hdepth hc
      rw [hrun] at h
      generalize p' s' c' = run' at h ⊢
      cases h with
      | ok ha hrest => exact hq _ _ ha s s' _ _ hlimit hdepth hrest
  | error halt =>
      have h := hp s s' c c' hlimit hdepth hc
      rw [hrun] at h
      generalize p' s' c' = run' at h ⊢
      cases h with
      | failed he => exact .failed he
      | spent => exact .spent

theorem mirrors_pure {a a' : α} (h : f a = f a') : Mirrors f (pure a) (pure a') :=
  fun _ _ _ _ _ _ hc => .ok h hc

theorem Mirrors.map {k : α → β} (hp : Mirrors f p p')
    (hk : ∀ a a', f a = f a' → g (k a) = g (k a')) : Mirrors g (k <$> p) (k <$> p') := by
  show Mirrors g (p >>= fun a => pure (k a)) (p' >>= fun a => pure (k a))
  exact hp.bind fun a a' ha => mirrors_pure (hk a a' ha)

theorem mirrors_ite {b b' : Prop} [Decidable b] [Decidable b'] {r r' : Parser α} (hb : b ↔ b')
    (hp : b → Mirrors f p p') (hr : ¬ b → Mirrors f r r') :
    Mirrors f (if b then p else r) (if b' then p' else r') := by
  by_cases h : b
  · rw [if_pos h, if_pos (hb.mp h)]
    exact hp h
  · rw [if_neg h, if_neg (mt hb.mpr h)]
    exact hr h

end Steps

/-! ## Steps over tokens -/

section Tokens

variable {c c' : Cursor} {m n : Nat}

theorem bareTokens_token (h : bareTokens c.rest = bareTokens c'.rest) (i : Nat) :
    (c.token m i).bare = (c'.token n i).bare := by
  have hi := congrArg (·[i]?) h
  simp only [bareTokens, List.getElem?_map] at hi
  unfold Cursor.token
  cases ht : c.rest[i]? <;> cases hu : c'.rest[i]? <;> simp_all [Token.bare, Token.finish]

theorem bareTokens_tail (h : bareTokens c.rest = bareTokens c'.rest) :
    bareTokens c.tail.rest = bareTokens c'.tail.rest := by
  obtain ⟨rest, stop⟩ := c
  obtain ⟨rest', stop'⟩ := c'
  cases rest <;> cases rest' <;> simp_all [bareTokens, Cursor.tail]

theorem bareTokens_skip (h : bareTokens c.rest = bareTokens c'.rest) (i : Nat) :
    bareTokens (c.skip i).rest = bareTokens (c'.skip i).rest := by
  induction i generalizing c c' with
  | zero => exact h
  | succ i ih => exact ih (bareTokens_tail h)

theorem isEmpty_of_bareTokens (h : bareTokens c.rest = bareTokens c'.rest) :
    c.rest.isEmpty = c'.rest.isEmpty := by
  have := congrArg List.isEmpty h
  simpa using this

theorem mirrors_peekAt (i : Nat) : Mirrors Token.bare (peekAt i) (peekAt i) := by
  intro s s' c c' _ _ hc
  rw [peekAt_eq, peekAt_eq]
  exact .ok (bareTokens_token hc i) hc

theorem mirrors_peek : Mirrors Token.bare peek peek := mirrors_peekAt 0

theorem mirrors_lookahead : Mirrors bareTokens lookahead lookahead :=
  fun _ _ _ _ _ _ hc => .ok hc hc

theorem mirrors_next : Mirrors Token.bare next next := by
  intro s s' c c' _ _ hc
  rw [next_eq, next_eq]
  exact .ok (bareTokens_token hc 0) (bareTokens_tail hc)

theorem mirrors_skip (i : Nat) : Mirrors id (Parser.skip i) (Parser.skip i) := by
  intro s s' c c' _ _ hc
  rw [skip_eq, skip_eq]
  exact .ok rfl (bareTokens_skip hc i)

/-- Where the last token ended is a place, of which nothing is kept. -/
theorem mirrors_lastStop : Mirrors (fun _ => ()) lastStop lastStop :=
  fun _ _ _ _ _ _ hc => .ok rfl hc

/-- Failures that differ in their places only. -/
theorem mirrors_fail {f : α → γ} {e e' : Scope → StageError}
    (h : ∀ s s' : Scope, s.limit = s'.limit → (e s).bare = (e' s').bare) :
    Mirrors f (fun s c => Parser.fail (e s) s c) (fun s c => Parser.fail (e' s) s c) := by
  intro s s' c c' hlimit _ hc
  unfold Parser.fail
  dsimp only
  rw [isEmpty_of_bareTokens hc]
  exact .failed (h s s' hlimit)

theorem mirrors_failAt {f : α → γ} {start stop start' stop' : Nat}
    {found detail suggestion : Text} :
    Mirrors f (failAt start stop found detail suggestion)
      (failAt start' stop' found detail suggestion) :=
  mirrors_fail fun _ _ _ => rfl

theorem mirrors_unexpected {f : α → γ} {t t' : Token} {expected : List Text}
    (h : t.bare = t'.bare) : Mirrors f (unexpected t expected) (unexpected t' expected) := by
  obtain ⟨hkind, htext⟩ := Token.bare_eq_iff.mp h
  refine mirrors_fail fun s s' _ => ?_
  simp only [StageError.bare, SyntaxError.bare, syntaxError, Token.display, hkind, htext]

theorem mirrors_expect (kind : TokenKind) : Mirrors Token.bare (expect kind) (expect kind) := by
  unfold expect
  refine mirrors_peek.bind fun t t' ht => ?_
  have hkind := (Token.bare_eq_iff.mp ht).1
  refine mirrors_ite (by rw [hkind]) (fun _ => mirrors_next) fun _ => mirrors_unexpected ht

theorem mirrors_nested {f : α → γ} {p p' : Parser α} (h : Mirrors f p p') :
    Mirrors f (nested p) (nested p') := by
  intro s s' c c' hlimit hdepth hc
  unfold nested
  rw [hlimit, hdepth]
  split
  · exact mirrors_fail (fun _ _ _ => rfl) s s' c c' hlimit hdepth hc
  · exact h _ _ c c' rfl rfl hc

theorem Mirrors.rewordAtEnd {f : α → γ} {p p' : Parser α} {detail : Text} (h : Mirrors f p p') :
    Mirrors f (rewordAtEnd detail p) (rewordAtEnd detail p') := by
  intro s s' c c' hlimit hdepth hc
  have hrun := h s s' c c' hlimit hdepth hc
  unfold Parser.rewordAtEnd
  generalize p s c = run at hrun ⊢
  generalize p' s' c' = run' at hrun ⊢
  cases hrun with
  | ok ha hrest => exact .ok ha hrest
  | spent => exact .spent
  | @failed e e' atEnd he =>
      -- the wording is that of both errors, and places are left as they are
      cases e with
      | markup e =>
          cases e' with
          | markup e' =>
              have hbare := StageError.markup.inj he
              cases atEnd with
              | false => exact .failed he
              | true =>
                  refine .failed (congrArg StageError.markup ?_)
                  exact congrArg (fun x : SyntaxError => { x with detail }) hbare
          | _ => cases he
      | _ =>
          cases e' with
          | markup e' => cases he
          | _ => cases atEnd <;> exact .failed he

end Tokens

/-- A node that is there. -/
theorem Mirrors.some {p p' : Parser Node} (h : Mirrors Node.bare p p') :
    Mirrors (Option.map Node.bare) (Option.some <$> p) (Option.some <$> p') :=
  h.map fun _ _ hn => congrArg Option.some hn

/-! ## The contract of the productions -/

/-- Rules that end alike over tokens that differ in their places only. -/
structure Rules.Blind (rules : Rules) : Prop where
  sequence : ∀ {stop : Stop} {definable : Bool},
    Mirrors (List.map Node.bare) (rules.sequence stop definable) (rules.sequence stop definable)
  items : ∀ {stop : Stop} {b b' : Builder}, b.bare = b'.bare →
    Mirrors (List.map Node.bare) (rules.items stop b) (rules.items stop b')
  command : Mirrors (Option.map Node.bare) rules.command rules.command
  operand : Mirrors Node.bare rules.operand rules.operand
  scriptArg : Mirrors Node.bare rules.scriptArg rules.scriptArg
  rows : ∀ {matrix : Bool} {name : Text} {row row' before before' : List Node},
    row.map Node.bare = row'.map Node.bare → before.map Node.bare = before'.map Node.bare →
    Mirrors (List.map Node.bare) (rules.rows matrix name row before)
      (rules.rows matrix name row' before')

variable {rules : Rules}

/-! ## Groups, carets and definitions -/

theorem groupContents_mirrors {kind : Bracket} (h : rules.Blind) :
    Mirrors (fun r => r.1.map Node.bare) (groupContents rules kind) (groupContents rules kind) := by
  unfold groupContents
  refine mirrors_next.bind fun first first' _ => ?_
  refine h.sequence.bind fun nodes nodes' hnodes => ?_
  refine (mirrors_expect _).bind fun last last' _ => ?_
  exact mirrors_pure hnodes

theorem group_mirrors {kind : Bracket} (h : rules.Blind) :
    Mirrors Node.bare (group rules kind) (group rules kind) := by
  unfold group
  refine (groupContents_mirrors h).bind ?_
  rintro ⟨nodes, span⟩ ⟨nodes', span'⟩ hnodes
  refine mirrors_pure ?_
  simp only [Node.bare, Node.bareList_eq]
  exact congrArg (Node.expression _ · _) hnodes

theorem absolute_mirrors (h : rules.Blind) :
    Mirrors Node.bare (absolute rules) (absolute rules) := by
  unfold absolute
  refine mirrors_next.bind fun first first' _ => ?_
  refine h.sequence.bind fun nodes nodes' hnodes => ?_
  refine (mirrors_expect _).bind fun last last' _ => ?_
  refine mirrors_pure ?_
  simp only [Node.bare, argument, Node.bareList_eq, List.map_cons, hnodes, List.map_nil]

theorem caret_mirrors {b b' : Builder} (hb : b.bare = b'.bare) :
    Mirrors Builder.bare (caret b) (caret b') := by
  unfold caret
  refine mirrors_peek.bind fun sign sign' hsign => ?_
  refine mirrors_lookahead.bind fun ts ts' hts => ?_
  rw [← degreeWidth?_bare ts, ← degreeWidth?_bare ts', hts]
  split
  · refine mirrors_next.bind fun _ _ _ => mirrors_pure ?_
    unfold Builder.addToken
    rw [(Token.bare_eq_iff.mp hsign).2]
    exact Builder.addText_bare hb _ _ _
  · refine (mirrors_peekAt _).bind fun last last' _ => ?_
    have hpop := Builder.popOperand_bare hb
    cases hp : b.popOperand <;> cases hp' : b'.popOperand <;> rw [hp, hp'] at hpop
    · exact mirrors_failAt
    · cases hpop
    · cases hpop
    · obtain ⟨hoperand, hbefore⟩ := Prod.mk.inj (Option.some.inj hpop)
      refine (mirrors_skip _).bind fun _ _ _ => mirrors_pure ?_
      refine Builder.add_bare hbefore ?_
      simp only [Node.bare, Node.bareList_eq, List.map_cons, hoperand, List.map_nil]

theorem definition_mirrors {stop : Stop} (h : rules.Blind) :
    Mirrors (Option.map Node.bare) (definition rules stop) (definition rules stop) := by
  unfold definition
  refine mirrors_lookahead.bind fun ts ts' hts => ?_
  rw [← definitionHead?_bare ts, ← definitionHead?_bare ts', hts]
  split
  · exact mirrors_pure rfl
  · refine mirrors_peek.bind fun letter letter' hletter => ?_
    refine (mirrors_skip _).bind fun _ _ _ => ?_
    refine (group_mirrors h).bind fun inner inner' hinner => ?_
    refine mirrors_next.bind fun sign sign' _ => ?_
    refine h.sequence.bind fun body body' hbody => ?_
    refine mirrors_peek.bind fun last last' _ => mirrors_pure ?_
    rw [(Token.bare_eq_iff.mp hletter).2]
    simp only [Option.map_some, Node.bare, argument, Node.bareList_eq, List.map_cons, hinner, hbody,
      List.map_nil, unitAt_bare _ letter.span letter'.span]

/-! ## Sequences -/

theorem items_mirrors {stop : Stop} {b b' : Builder} (h : rules.Blind) (hb : b.bare = b'.bare) :
    Mirrors (List.map Node.bare) (items rules stop b) (items rules stop b') := by
  unfold items
  refine mirrors_lookahead.bind fun ts ts' hts => ?_
  rw [← stop.holds_bare ts, ← stop.holds_bare ts', hts]
  refine mirrors_ite Iff.rfl (fun _ => mirrors_pure (Builder.finish_bare hb)) fun _ => ?_
  refine mirrors_peek.bind fun t t' ht => ?_
  have hunexpected : Mirrors (List.map Node.bare) (unexpected t []) (unexpected t' []) :=
    mirrors_unexpected ht
  have hadded : (b.addToken t).bare = (b'.addToken t').bare := by
    unfold Builder.addToken
    rw [(Token.bare_eq_iff.mp ht).2]
    exact Builder.addText_bare hb _ _ _
  have hkind := (Token.bare_eq_iff.mp ht).1
  rw [hkind]
  split
  · exact mirrors_next.bind fun _ _ _ => h.items hadded
  · exact mirrors_next.bind fun _ _ _ => h.items hadded
  · exact (group_mirrors h).bind fun n n' hn => h.items (Builder.add_bare hb hn)
  · exact (absolute_mirrors h).bind fun n n' hn => h.items (Builder.add_bare hb hn)
  · exact (caret_mirrors hb).bind fun b1 b1' hb1 => h.items hb1
  · refine h.command.bind fun o o' ho => ?_
    obtain ⟨rfl, rfl⟩ | ⟨n, n', rfl, rfl, hn⟩ := Node.bareOption_cases ho
    · exact h.items hb
    · exact h.items (Builder.add_bare hb hn)
  all_goals exact hunexpected

theorem sequence_mirrors {stop : Stop} {definable : Bool} (h : rules.Blind) :
    Mirrors (List.map Node.bare) (sequence rules stop definable)
      (sequence rules stop definable) := by
  unfold sequence
  refine mirrors_nested ?_
  cases definable with
  | false => exact items_mirrors h rfl
  | true =>
      refine (definition_mirrors h).bind fun first first' hfirst => ?_
      obtain ⟨rfl, rfl⟩ | ⟨n, n', rfl, rfl, hn⟩ := Node.bareOption_cases hfirst
      · exact items_mirrors h rfl
      · exact items_mirrors h (Builder.add_bare rfl hn)

/-! ## Arguments -/

theorem wrapCurly_bare {m n : Node} (h : m.bare = n.bare) :
    (wrapCurly m).bare = (wrapCurly n).bare := by
  simp only [wrapCurly, Node.bare, Node.bareList_eq, List.map_cons, h, List.map_nil]

theorem argument_bare {ms ns : List Node} (h : ms.map Node.bare = ns.map Node.bare)
    (s s' : Span) : (argument ms s).bare = (argument ns s').bare := by
  simp only [argument, Node.bare, Node.bareList_eq, h]

theorem operand_mirrors (h : rules.Blind) : Mirrors Node.bare (operand rules) (operand rules) := by
  unfold operand
  refine mirrors_peek.bind fun t t' ht => ?_
  have hunexpected : Mirrors Node.bare (unexpected t ["operand"]) (unexpected t' ["operand"]) :=
    mirrors_unexpected ht
  have hoperand : t.isOperand = t'.isOperand := Token.eq_of_bare Token.bare_isOperand ht
  have hkind := (Token.bare_eq_iff.mp ht).1
  rw [hkind]
  split
  · refine (groupContents_mirrors h).bind ?_
    rintro ⟨nodes, span⟩ ⟨nodes', span'⟩ hnodes
    exact mirrors_pure (argument_bare hnodes span span')
  · exact group_mirrors h
  · exact absolute_mirrors h
  · refine h.command.bind fun o o' ho => ?_
    obtain ⟨rfl, rfl⟩ | ⟨n, n', rfl, rfl, hn⟩ := Node.bareOption_cases ho
    · exact h.operand
    · exact mirrors_pure (wrapCurly_bare hn)
  · refine mirrors_ite (by rw [hoperand]) (fun _ => ?_) fun _ => hunexpected
    refine mirrors_lookahead.bind fun ts ts' hts => ?_
    -- the two runs of operand characters are the same tokens but for their places
    have hrun : bareTokens (ts.takeWhile Token.isOperand)
        = bareTokens (ts'.takeWhile Token.isOperand) := by
      rw [takeWhile_bare _ Token.bare_isOperand, takeWhile_bare _ Token.bare_isOperand, hts]
    have hlength := congrArg List.length hrun
    rw [List.length_map, List.length_map] at hlength
    have htext := congrArg (List.flatMap Token.text) hrun
    rw [flatMap_text_bare, flatMap_text_bare] at htext
    dsimp only
    rw [hlength, htext]
    refine (mirrors_skip _).bind fun _ _ _ => mirrors_pure (unitAt_bare _ _ _)
  · exact hunexpected

theorem scriptArg_mirrors (h : rules.Blind) :
    Mirrors Node.bare (scriptArg rules) (scriptArg rules) := by
  unfold scriptArg
  refine mirrors_peek.bind fun t t' ht => ?_
  have hunexpected : Mirrors Node.bare (unexpected t ["\x7b", "character"])
      (unexpected t' ["\x7b", "character"]) := mirrors_unexpected ht
  obtain ⟨hkind, htext⟩ := Token.bare_eq_iff.mp ht
  rw [hkind, htext]
  split
  · exact group_mirrors h
  · exact mirrors_next.bind fun _ _ _ => mirrors_pure (unitAt_bare _ _ _)
  · refine h.command.bind fun o o' ho => ?_
    obtain ⟨rfl, rfl⟩ | ⟨n, n', rfl, rfl, hn⟩ := Node.bareOption_cases ho
    · exact h.scriptArg
    · exact mirrors_pure (wrapCurly_bare hn)
  · exact hunexpected

/-! ## Commands -/

/-- Functions of the same arguments, wherever they stand. -/
theorem function_bare {name : FunctionName} {args args' : List Node} {e e' : Option Node}
    (hargs : args.map Node.bare = args'.map Node.bare) (he : e.map Node.bare = e'.map Node.bare)
    (s s' : Span) : (Node.function name args e s).bare = (Node.function name args' e' s').bare := by
  simp only [Node.bare, Node.bareList_eq, Node.bareOption_eq, hargs, he]

theorem unary_mirrors {name : FunctionName} (h : rules.Blind) :
    Mirrors Node.bare (unary rules name) (unary rules name) := by
  unfold unary
  refine mirrors_next.bind fun head head' _ => ?_
  refine (scriptArg_mirrors h).bind fun arg arg' harg => ?_
  refine mirrors_lastStop.bind fun _ _ _ => mirrors_pure (function_bare ?_ rfl _ _)
  simp only [List.map_cons, harg, List.map_nil]

theorem binary_mirrors {name : FunctionName} (h : rules.Blind) :
    Mirrors Node.bare (binary rules name) (binary rules name) := by
  unfold binary
  refine mirrors_next.bind fun head head' _ => ?_
  refine (scriptArg_mirrors h).bind fun one one' hone => ?_
  refine (scriptArg_mirrors h).bind fun two two' htwo => ?_
  refine mirrors_lastStop.bind fun _ _ _ => mirrors_pure (function_bare ?_ rfl _ _)
  simp only [List.map_cons, hone, htwo, List.map_nil]

theorem named_mirrors {name : Text} (h : rules.Blind) :
    Mirrors Node.bare (named rules name) (named rules name) := by
  -- the argument behind the name, with or without an exponent
  have rest : ∀ (head head' : Token) (e e' : Option Node), e.map Node.bare = e'.map Node.bare →
      Mirrors Node.bare
        (do
          let arg ← operand rules
          pure (Node.function .regular [unitAt name head.span, arg] e ⟨head.start, ← lastStop⟩))
        (do
          let arg ← operand rules
          pure (Node.function .regular [unitAt name head'.span, arg] e'
            ⟨head'.start, ← lastStop⟩)) := by
    intro head head' e e' he
    refine (operand_mirrors h).bind fun arg arg' harg => ?_
    refine mirrors_lastStop.bind fun _ _ _ => mirrors_pure (function_bare ?_ he _ _)
    simp only [List.map_cons, harg, List.map_nil, unitAt_bare name head.span head'.span]
  unfold named
  refine mirrors_next.bind fun head head' _ => ?_
  refine mirrors_peek.bind fun t t' ht => ?_
  dsimp only
  refine mirrors_ite (by rw [(Token.bare_eq_iff.mp ht).1]) (fun _ => ?_) fun _ => ?_
  · refine mirrors_next.bind fun _ _ _ => ?_
    exact (scriptArg_mirrors h).some.bind (rest head head')
  · exact (mirrors_pure rfl).bind (rest head head')

theorem fraction_mirrors (h : rules.Blind) :
    Mirrors Node.bare (fraction rules) (fraction rules) := by
  unfold fraction
  refine mirrors_next.bind fun head head' _ => ?_
  refine mirrors_lookahead.bind fun ts ts' hts => ?_
  have hhead : (derivativeHead? ts).map (fun p => (p.1.bare, p.2.bare))
      = (derivativeHead? ts').map fun p => (p.1.bare, p.2.bare) := by
    rw [← derivativeHead?_bare, ← derivativeHead?_bare, hts]
  cases hd : derivativeHead? ts with
  | none =>
      rw [hd] at hhead
      rw [Option.map_eq_none_iff.mp hhead.symm]
      refine (scriptArg_mirrors h).bind fun one one' hone => ?_
      refine (scriptArg_mirrors h).bind fun two two' htwo => ?_
      refine mirrors_lastStop.bind fun _ _ _ => mirrors_pure (function_bare ?_ rfl _ _)
      simp only [List.map_cons, hone, htwo, List.map_nil]
  | some p =>
      rw [hd] at hhead
      obtain ⟨p', hd', hp⟩ := Option.map_eq_some_iff.mp hhead.symm
      rw [hd']
      obtain ⟨hone, htwo⟩ := Prod.mk.inj hp
      refine (mirrors_skip 7).bind fun _ _ _ => ?_
      refine (operand_mirrors h).bind fun arg arg' harg => ?_
      refine mirrors_lastStop.bind fun _ _ _ => mirrors_pure (function_bare ?_ rfl _ _)
      simp only [List.map_cons, harg, List.map_nil, (Token.bare_eq_iff.mp hone).2,
        (Token.bare_eq_iff.mp htwo).2, unitAt_bare _ p.1.span p'.1.span,
        unitAt_bare _ p.2.span p'.2.span]

theorem root_mirrors (h : rules.Blind) : Mirrors Node.bare (root rules) (root rules) := by
  have rest : ∀ (start start' : Nat) (degree degree' : Option Node),
      degree.map Node.bare = degree'.map Node.bare →
      Mirrors Node.bare
        (do
          let radicand ← scriptArg rules
          pure (Node.function .sqrt (degree.toList ++ [radicand]) none ⟨start, ← lastStop⟩))
        (do
          let radicand ← scriptArg rules
          pure (Node.function .sqrt (degree'.toList ++ [radicand]) none
            ⟨start', ← lastStop⟩)) := by
    intro start start' degree degree' hdegree
    refine (scriptArg_mirrors h).bind fun arg arg' harg => ?_
    refine mirrors_lastStop.bind fun _ _ _ => mirrors_pure (function_bare ?_ rfl _ _)
    simp only [List.map_append, ← Option.toList_map, hdegree, List.map_cons, harg, List.map_nil]
  unfold root
  refine mirrors_next.bind fun head head' _ => ?_
  refine mirrors_peek.bind fun t t' ht => ?_
  dsimp only
  refine mirrors_ite (by rw [(Token.bare_eq_iff.mp ht).1]) (fun _ => ?_) fun _ => ?_
  · exact (group_mirrors h).some.bind (rest head.start head'.start)
  · exact (mirrors_pure rfl).bind (rest head.start head'.start)

/-- The scripts after a command without their places. -/
def Scripts.bare (s : Scripts) : Scripts := ⟨s.sub.map Node.bare, s.super.map Node.bare⟩

theorem script_mirrors {subAllowed : Bool} {r r' : Scripts} (h : rules.Blind)
    (hr : r.bare = r'.bare) :
    Mirrors Scripts.bare (script rules subAllowed r) (script rules subAllowed r') := by
  obtain ⟨hsub, hsuper⟩ := Scripts.mk.inj hr
  have hsub' := congrArg Option.isNone hsub
  have hsuper' := congrArg Option.isNone hsuper
  simp only [Option.isNone_map] at hsub' hsuper'
  unfold script
  refine mirrors_peek.bind fun t t' ht => ?_
  have hkind := (Token.bare_eq_iff.mp ht).1
  refine mirrors_ite (by rw [hkind, hsub']) (fun _ => ?_) fun _ =>
    mirrors_ite (by rw [hkind, hsuper']) (fun _ => ?_) fun _ => mirrors_pure hr
  · refine mirrors_next.bind fun _ _ _ => (scriptArg_mirrors h).bind fun arg arg' harg => ?_
    exact mirrors_pure (by simp only [Scripts.bare, Option.map_some, harg, hsuper])
  · refine mirrors_next.bind fun _ _ _ => (scriptArg_mirrors h).bind fun arg arg' harg => ?_
    exact mirrors_pure (by simp only [Scripts.bare, Option.map_some, harg, hsub])

theorem skipLimits_mirrors : Mirrors id skipLimits skipLimits := by
  unfold skipLimits
  refine mirrors_lookahead.bind fun ts ts' hts => ?_
  have hrun : bareTokens (ts.takeWhile (·.isCommand ["limits"]))
      = bareTokens (ts'.takeWhile (·.isCommand ["limits"])) := by
    rw [takeWhile_bare _ fun t => t.bare_isCommand _, takeWhile_bare _ fun t => t.bare_isCommand _,
      hts]
  have hlength := congrArg List.length hrun
  rw [List.length_map, List.length_map] at hlength
  rw [hlength]
  exact mirrors_skip _

theorem integralBody_mirrors (h : rules.Blind) :
    Mirrors Node.bare (integralBody rules) (integralBody rules) := by
  unfold integralBody
  refine mirrors_peek.bind fun t t' ht => ?_
  refine mirrors_ite (by rw [(Token.bare_eq_iff.mp ht).1]) (fun _ => group_mirrors h) fun _ => ?_
  refine h.sequence.bind fun nodes nodes' hnodes => ?_
  exact mirrors_peek.bind fun _ _ _ => mirrors_pure (argument_bare hnodes _ _)

theorem integral_mirrors (h : rules.Blind) :
    Mirrors Node.bare (integral rules) (integral rules) := by
  unfold integral
  refine mirrors_next.bind fun head head' hhead => ?_
  refine skipLimits_mirrors.bind fun _ _ _ => ?_
  refine (script_mirrors h rfl).bind fun one one' hone => ?_
  refine skipLimits_mirrors.bind fun _ _ _ => ?_
  refine (script_mirrors h hone).bind fun both both' hboth => ?_
  refine skipLimits_mirrors.bind fun _ _ _ => ?_
  obtain ⟨hsub, hsuper⟩ := Scripts.mk.inj hboth
  have hsub' := congrArg Option.isSome hsub
  have hsuper' := congrArg Option.isSome hsuper
  simp only [Option.isSome_map] at hsub' hsuper'
  refine mirrors_ite (by rw [hsub', hsuper']) (fun _ => ?_) fun _ => ?_
  · refine mirrors_peek.bind fun _ _ _ => ?_
    rw [show head.display = head'.display from Token.eq_of_bare Token.bare_display hhead]
    exact mirrors_failAt
  · refine (integralBody_mirrors h).bind fun body body' hbody => ?_
    refine mirrors_peek.bind fun d d' hd => ?_
    refine (mirrors_peekAt 1).bind fun letter letter' hletter => ?_
    have hd' : d.isChar "d" = d'.isChar "d" :=
      Token.eq_of_bare (p := (·.isChar "d")) (fun _ => rfl) hd
    have hletter' : letter.isLetter = letter'.isLetter :=
      Token.eq_of_bare Token.bare_isLetter hletter
    refine mirrors_ite (by rw [hd', hletter']) (fun _ => ?_) fun _ => mirrors_unexpected hd
    refine (mirrors_skip 2).bind fun _ _ _ => mirrors_pure (function_bare ?_ rfl _ _)
    simp only [List.map_append, ← Option.toList_map, hsub, hsuper, List.map_cons, hbody,
      List.map_nil, (Token.bare_eq_iff.mp hletter).2, unitAt_bare _ letter.span letter'.span]

theorem limit_mirrors (h : rules.Blind) : Mirrors Node.bare (limit rules) (limit rules) := by
  unfold limit
  refine mirrors_next.bind fun head head' _ => ?_
  refine (mirrors_expect _).bind fun _ _ _ => (mirrors_expect _).bind fun first first' _ => ?_
  refine h.sequence.bind fun name name' hname => ?_
  refine mirrors_peek.bind fun arrow arrow' harrow => ?_
  have hisArrow : arrow.isCommand arrows = arrow'.isCommand arrows :=
    Token.eq_of_bare (p := (·.isCommand arrows)) (fun _ => rfl) harrow
  refine mirrors_ite (by rw [hisArrow]) (fun _ => ?_) fun _ => mirrors_unexpected harrow
  refine mirrors_next.bind fun _ _ _ => ?_
  refine h.sequence.bind fun target target' htarget => ?_
  refine (mirrors_expect _).bind fun last last' _ => ?_
  refine (operand_mirrors h).bind fun arg arg' harg => ?_
  refine mirrors_lastStop.bind fun _ _ _ => mirrors_pure (function_bare ?_ rfl _ _)
  simp only [List.map_cons, harg, List.map_nil,
    argument_bare hname ⟨first.stop, arrow.start⟩ ⟨first'.stop, arrow'.start⟩,
    argument_bare htarget ⟨arrow.stop, last.start⟩ ⟨arrow'.stop, last'.start⟩]

theorem logarithm_mirrors (h : rules.Blind) :
    Mirrors Node.bare (logarithm rules) (logarithm rules) := by
  unfold logarithm
  refine mirrors_next.bind fun head head' hhead => ?_
  rw [(Token.bare_eq_iff.mp hhead).2]
  refine (script_mirrors h rfl).bind fun one one' hone => ?_
  refine (script_mirrors h hone).bind fun both both' hboth => ?_
  obtain ⟨hsub, hsuper⟩ := Scripts.mk.inj hboth
  refine (operand_mirrors h).bind fun arg arg' harg => ?_
  refine mirrors_lastStop.bind fun _ _ _ => ?_
  dsimp only
  obtain ⟨hs, hs'⟩ | ⟨base, base', hs, hs', hbase⟩ := Node.bareOption_cases hsub
  · rw [hs, hs']
    refine mirrors_ite Iff.rfl (fun _ => mirrors_pure ?_) fun _ => mirrors_pure ?_
    all_goals
      refine function_bare ?_ hsuper _ _
      simp only [List.map_cons, harg, List.map_nil]
  · rw [hs, hs']
    refine mirrors_pure (function_bare ?_ hsuper _ _)
    simp only [List.map_cons, hbase, harg, List.map_nil]

theorem unsupported_mirrors {f : α → γ} {t t' : Token} (ht : t.bare = t'.bare) :
    Mirrors f (unsupported t) (unsupported t') := by
  unfold unsupported
  rw [show t.display = t'.display from Token.eq_of_bare Token.bare_display ht,
    (Token.bare_eq_iff.mp ht).2]
  exact mirrors_failAt

/-! ## Environments -/

theorem environmentName_mirrors : Mirrors Prod.fst environmentName environmentName := by
  unfold environmentName
  refine (mirrors_expect _).bind fun _ _ _ => mirrors_peek.bind fun _ _ _ => ?_
  refine mirrors_lookahead.bind fun ts ts' hts => ?_
  have hrun : bareTokens (ts.takeWhile (·.kind == .char))
      = bareTokens (ts'.takeWhile (·.kind == .char)) := by
    rw [takeWhile_bare _ fun t => by rw [t.bare_kind],
      takeWhile_bare _ fun t => by rw [t.bare_kind], hts]
  have hlength := congrArg List.length hrun
  rw [List.length_map, List.length_map] at hlength
  have htext := congrArg (List.flatMap Token.text) hrun
  rw [flatMap_text_bare, flatMap_text_bare] at htext
  dsimp only
  rw [hlength, htext]
  refine (mirrors_skip _).bind fun _ _ _ => (mirrors_expect _).bind fun _ _ _ => ?_
  exact mirrors_pure rfl

theorem isEmptyRow_bare (row : List Node) : isEmptyRow (row.map Node.bare) = isEmptyRow row := by
  rcases row with _ | ⟨n, row⟩
  · rfl
  · cases n with
    | expression w ns s => cases ns <;> cases row <;> rfl
    | _ => rfl

theorem rows_mirrors {matrix : Bool} {name : Text} {row row' before before' : List Node}
    (h : rules.Blind) (hrow : row.map Node.bare = row'.map Node.bare)
    (hbefore : before.map Node.bare = before'.map Node.bare) :
    Mirrors (List.map Node.bare) (rows rules matrix name row before)
      (rows rules matrix name row' before') := by
  unfold rows
  refine mirrors_peek.bind fun first first' _ => ?_
  refine h.sequence.rewordAtEnd.bind fun nodes nodes' hnodes => ?_
  refine mirrors_peek.bind fun last last' _ => ?_
  refine mirrors_next.bind fun separator separator' hseparator => ?_
  -- the row with the cell that has just been read, and the rows when it is complete
  have hcell : (Node.expression .none nodes ⟨first.start, last.start⟩ :: row).map Node.bare
      = (Node.expression .none nodes' ⟨first'.start, last'.start⟩ :: row').map Node.bare := by
    simp only [List.map_cons, Node.bare, Node.bareList_eq, hnodes, hrow]
  have hdone : ∀ {r r' : List Node}, r.map Node.bare = r'.map Node.bare →
      (if isEmptyRow r then before else r ++ before).map Node.bare
        = (if isEmptyRow r' then before' else r' ++ before').map Node.bare := by
    intro r r' hr
    rw [← isEmptyRow_bare r, ← isEmptyRow_bare r', hr]
    split
    · exact hbefore
    · rw [List.map_append, List.map_append, hr, hbefore]
  have hkind := (Token.bare_eq_iff.mp hseparator).1
  refine mirrors_ite (by rw [hkind]) (fun _ => h.rows hcell hbefore) fun _ => ?_
  refine mirrors_ite (by rw [hkind]) (fun _ => mirrors_pure ?_) fun _ => h.rows rfl (hdone hcell)
  rw [List.map_reverse, List.map_reverse, hdone hcell]

theorem environment_mirrors (h : rules.Blind) :
    Mirrors Node.bare (environment rules) (environment rules) := by
  -- the rows and the end, with or without the columns of an array before them
  have rest : ∀ (type : EnvironmentType) (name : Text) (start start' : Nat),
      Mirrors Node.bare
        (do
          let cells ← rules.rows (type == .determinant) name [] []
          let last ← environmentName
          if last.1 = name then pure (Node.environment type cells ⟨start, ← lastStop⟩)
          else
            failAt last.2 (← lastStop) last.1
              ("\\begin\x7b" ++ name ++ "\x7d ended by \\end\x7b" ++ last.1 ++ "\x7d"))
        (do
          let cells ← rules.rows (type == .determinant) name [] []
          let last ← environmentName
          if last.1 = name then pure (Node.environment type cells ⟨start', ← lastStop⟩)
          else
            failAt last.2 (← lastStop) last.1
              ("\\begin\x7b" ++ name ++ "\x7d ended by \\end\x7b" ++ last.1 ++ "\x7d")) := by
    intro type name start start'
    refine (h.rows rfl rfl).bind fun cells cells' hcells => ?_
    refine environmentName_mirrors.bind ?_
    rintro ⟨last, lastStart⟩ ⟨last', lastStart'⟩ rfl
    refine mirrors_ite Iff.rfl (fun _ => ?_) fun _ => ?_
    · refine mirrors_lastStop.bind fun _ _ _ => mirrors_pure ?_
      simp only [Node.bare, Node.bareList_eq, hcells]
    · exact mirrors_lastStop.bind fun _ _ _ => mirrors_failAt
  unfold environment
  refine mirrors_next.bind fun head head' _ => ?_
  refine environmentName_mirrors.bind ?_
  rintro ⟨name, start⟩ ⟨name', start'⟩ rfl
  dsimp only
  split
  · exact mirrors_lastStop.bind fun _ _ _ => mirrors_failAt
  · refine mirrors_peek.bind fun t t' ht => ?_
    refine mirrors_ite (by rw [(Token.bare_eq_iff.mp ht).1]) (fun _ => ?_) fun _ => rest _ _ _ _
    exact (group_mirrors h).bind fun _ _ _ => rest _ _ _ _

/-! ## The grammar -/

theorem command_mirrors (h : rules.Blind) :
    Mirrors (Option.map Node.bare) (command rules) (command rules) := by
  unfold command
  refine mirrors_peek.bind fun t t' ht => ?_
  have hcommand : ∀ names, t.isCommand names = t'.isCommand names := fun names =>
    Token.eq_of_bare (p := (·.isCommand names)) (fun _ => rfl) ht
  have hunsupported : Mirrors (Option.map Node.bare) (unsupported t) (unsupported t') :=
    unsupported_mirrors ht
  simp only [(Token.bare_eq_iff.mp ht).2, hcommand]
  refine mirrors_ite Iff.rfl (fun _ => mirrors_next.bind fun _ _ _ => mirrors_pure rfl) fun _ => ?_
  refine mirrors_ite Iff.rfl (fun _ => ?_) fun _ => ?_
  · refine mirrors_next.bind fun _ _ _ => mirrors_pure (congrArg some ?_)
    exact unitAt_bare _ _ _
  split
  · exact (named_mirrors h).some
  refine mirrors_ite Iff.rfl (fun _ => (fraction_mirrors h).some) fun _ => ?_
  refine mirrors_ite Iff.rfl (fun _ => (root_mirrors h).some) fun _ => ?_
  refine mirrors_ite Iff.rfl (fun _ => (integral_mirrors h).some) fun _ => ?_
  refine mirrors_ite Iff.rfl (fun _ => (limit_mirrors h).some) fun _ => ?_
  refine mirrors_ite Iff.rfl (fun _ => (logarithm_mirrors h).some) fun _ => ?_
  refine mirrors_ite Iff.rfl (fun _ => (binary_mirrors h).some) fun _ => ?_
  refine mirrors_ite Iff.rfl (fun _ => (unary_mirrors h).some) fun _ => ?_
  exact mirrors_ite Iff.rfl (fun _ => (environment_mirrors h).some) fun _ => hunsupported

/-- **Unfolding the rules once more keeps them blind to places.** -/
theorem Rules.Blind.unfold (h : rules.Blind) : rules.unfold.Blind where
  sequence := sequence_mirrors h
  items hb := items_mirrors h hb
  command := command_mirrors h
  operand := operand_mirrors h
  scriptArg := scriptArg_mirrors h
  rows hrow hbefore := rows_mirrors h hrow hbefore

theorem spent_mirrors {f : α → γ} : Mirrors f Parser.spent Parser.spent :=
  fun _ _ _ _ _ _ _ => .spent

theorem rulesTo_blind (n : Nat) : (rulesTo n).Blind := by
  induction n with
  | zero =>
      exact
        { sequence := spent_mirrors
          items := fun _ => spent_mirrors
          command := spent_mirrors
          operand := spent_mirrors
          scriptArg := spent_mirrors
          rows := fun _ _ => spent_mirrors }
  | succ n ih => exact ih.unfold

end MathMarkup.Grammar
