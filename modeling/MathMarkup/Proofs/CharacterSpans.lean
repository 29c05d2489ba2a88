import MathMarkup.Proofs.UnitSources

/-!
# Spans of characters

However a tree is put together, its units come from where `Sited` says: each production keeps this
if the rules it refers to do (`Rules.Siting`), and so does the grammar, however often it is unfolded
(`rulesTo_siting`). From the source of a unit it can be told whether its characters are exact.

They are not in two cases. A byte that encodes nothing is read as U+FFFD, which is wider than a
byte. And the letters and digits of an operand are laid out without the blanks between them, so
behind a blank they stand too far to the left (`characters_exact_iff`).
-/

namespace MathMarkup.Grammar

open MathMarkup.Grammar.Parser
open MathMarkup.Text (byte)
open MathMarkup.Node (Occurs HasOperand)

variable {rules : Rules} {s : Scope} {c : Cursor} {t : Text}

/-- A value with a property, before tokens of the text. -/
def Sites {α : Type} (t : Text) (P : Text → α → Prop) (a : α) (c : Cursor) : Prop :=
  c.Cuts t ∧ P t a

/-- What a command introduces, if anything, is sited. -/
def SitedOption (t : Text) (o : Option Node) : Prop := ∀ n ∈ o, Sited t n

theorem sitedOption_none : SitedOption t none := fun _ hn => absurd hn (by simp)

theorem sitedOption_some {n : Node} (hn : Sited t n) : SitedOption t (some n) := by
  intro m hm
  rw [← Option.some.inj hm]
  exact hn

/-- Rules whose trees are sited. -/
structure Rules.Siting (rules : Rules) : Prop where
  sequence : ∀ {stop : Stop} {definable : Bool} {s : Scope} {c : Cursor}, c.Cuts s.text →
    Yields (rules.sequence stop definable) s c (Sites s.text SitedAll)
  items : ∀ {stop : Stop} {b : Builder} {s : Scope} {c : Cursor}, c.Cuts s.text → b.Sited s.text →
    Yields (rules.items stop b) s c (Sites s.text SitedAll)
  command : ∀ {s : Scope} {c : Cursor}, c.Cuts s.text → (c.token s.text.length 0).kind = .command →
    Yields rules.command s c (Sites s.text SitedOption)
  operand : ∀ {s : Scope} {c : Cursor}, c.Cuts s.text →
    Yields rules.operand s c (Sites s.text SitedOperand)
  scriptArg : ∀ {s : Scope} {c : Cursor}, c.Cuts s.text →
    Yields rules.scriptArg s c (Sites s.text Sited)
  rows : ∀ {matrix : Bool} {name : Text} {row before : List Node} {s : Scope} {c : Cursor},
    c.Cuts s.text → SitedAll s.text row → SitedAll s.text before →
    Yields (rules.rows matrix name row before) s c (Sites s.text SitedAll)

/-! ## Groups -/

theorem groupContents_sites {k : Bracket} (h : rules.Siting) (hc : c.Cuts s.text) :
    Yields (groupContents rules k) s c fun r c' => c'.Cuts s.text ∧ SitedAll s.text r.1 := by
  unfold groupContents
  rw [yields_next]
  refine Yields.bind (h.sequence hc.tail) fun nodes c1 ⟨hc1, hnodes⟩ => ?_
  exact yields_expect fun _ => yields_pure.mpr ⟨hc1.tail, hnodes⟩

theorem group_sites {k : Bracket} (h : rules.Siting) (hc : c.Cuts s.text) :
    Yields (group rules k) s c fun n c' => c'.Cuts s.text ∧ n.isUnit = false ∧ Sited s.text n := by
  unfold group
  refine Yields.bind (groupContents_sites h hc) fun r c1 ⟨hc1, hnodes⟩ => ?_
  exact yields_pure.mpr ⟨hc1, rfl, sited_expression hnodes⟩

theorem absolute_sites (h : rules.Siting) (hc : c.Cuts s.text) :
    Yields (absolute rules) s c fun n c' =>
      c'.Cuts s.text ∧ n.isUnit = false ∧ Sited s.text n := by
  unfold absolute
  rw [yields_next]
  refine Yields.bind (h.sequence hc.tail) fun nodes c1 ⟨hc1, hnodes⟩ => ?_
  refine yields_expect fun _ => yields_pure.mpr ⟨hc1.tail, rfl, ?_⟩
  exact sited_function rfl (SitedAll.cons (sited_expression hnodes) sitedAll_nil) sitedOption_none

/-! ## Sequences -/

theorem caret_sites {b : Builder} (hc : c.Cuts s.text) (hb : b.Sited s.text)
    (hk : (c.token s.text.length 0).kind = .caret) :
    Yields (caret b) s c (Sites s.text Builder.Sited) := by
  unfold caret
  rw [yields_peek, yields_lookahead]
  split
  · rw [yields_next]
    exact yields_pure.mpr ⟨hc.tail, hb.addToken (hc.token (by simp [hk])) (by rw [hk]; rfl)⟩
  · rw [yields_peekAt]
    split
    · exact yields_failAt
    · rename_i operand before hpop
      rw [yields_skip]
      obtain ⟨hoperand, hbefore⟩ := hb.popOperand hpop
      refine yields_pure.mpr ⟨hc.skip _, hbefore.add ?_⟩
      exact sited_function rfl (SitedAll.cons hoperand sitedAll_nil) sitedOption_none

theorem definition_sites {stop : Stop} (h : rules.Siting) (hc : c.Cuts s.text) :
    Yields (definition rules stop) s c (Sites s.text SitedOption) := by
  unfold definition
  rw [yields_lookahead]
  split
  · exact yields_pure.mpr ⟨hc, sitedOption_none⟩
  rename_i name width hd
  have hname : name.takesOperand = false := by
    obtain ⟨f, mid, rest, -, -, -, -, hmid⟩ := definitionHead?_split hd
    rcases hmid with ⟨rfl, -⟩ | ⟨rfl, -⟩ <;> rfl
  have hletter : (c.token s.text.length 0).kind = .char := by
    obtain ⟨f, xs, ys, hxs, -, hf, -⟩ := definitionHead?_tame hd
    rw [Cursor.token, hxs]
    exact hf
  rw [yields_peek, yields_skip]
  refine Yields.bind (group_sites h (hc.skip width)) ?_
  intro inner c1 hinner
  obtain ⟨hc1, -, hinner⟩ := hinner
  rw [yields_next]
  refine Yields.bind (h.sequence hc1.tail) ?_
  intro body c2 hbody
  obtain ⟨hc2, hbody⟩ := hbody
  rw [yields_peek]
  refine yields_pure.mpr ⟨hc2, sitedOption_some (sited_function hname ?_ sitedOption_none)⟩
  exact SitedAll.cons (hc.sited_char hletter) (SitedAll.cons hinner
    (SitedAll.cons (sited_expression hbody) sitedAll_nil))

theorem items_sites {stop : Stop} {b : Builder} (h : rules.Siting) (hc : c.Cuts s.text)
    (hb : b.Sited s.text) : Yields (items rules stop b) s c (Sites s.text SitedAll) := by
  have literal : ∀ {kind : TokenKind}, (c.token s.text.length 0).kind = kind →
      kind.isLiteral = true →
      Yields (rules.items stop (b.addToken (c.token s.text.length 0))) s c.tail
        (Sites s.text SitedAll) := by
    rintro kind rfl hkind
    refine h.items hc.tail (hb.addToken (hc.token fun hfinish => ?_) hkind)
    rw [hfinish] at hkind
    exact absurd hkind (by decide)
  unfold items
  rw [yields_lookahead]
  refine yields_ite (fun _ => yields_pure.mpr ⟨hc, hb.finish⟩) fun _ => ?_
  rw [yields_peek]
  split
  · rename_i hk
    rw [yields_next]
    exact literal hk rfl
  · rename_i hk
    rw [yields_next]
    exact literal hk rfl
  · exact Yields.bind (group_sites h hc) fun n c1 ⟨hc1, _, hn⟩ => h.items hc1 (hb.flush.add hn)
  · exact Yields.bind (absolute_sites h hc) fun n c1 ⟨hc1, _, hn⟩ => h.items hc1 (hb.flush.add hn)
  · rename_i hk
    exact Yields.bind (caret_sites hc hb hk) fun b' c1 ⟨hc1, hb'⟩ => h.items hc1 hb'
  · rename_i hk
    refine Yields.bind (h.command hc hk) fun o c1 ⟨hc1, hn⟩ => ?_
    cases o with
    | some n => exact h.items hc1 (hb.flush.add (hn n rfl))
    | none => exact h.items hc1 hb
  all_goals exact yields_unexpected

theorem sequence_sites {stop : Stop} {definable : Bool} (h : rules.Siting) (hc : c.Cuts s.text) :
    Yields (sequence rules stop definable) s c (Sites s.text SitedAll) := by
  unfold sequence
  refine yields_nested ?_
  cases definable with
  | false => exact items_sites (s := { s with depth := s.depth + 1 }) h hc Builder.sited_empty
  | true =>
      refine Yields.bind (definition_sites (s := { s with depth := s.depth + 1 }) h hc) ?_
      intro first c1 ⟨hc1, hn⟩
      cases first with
      | some n => exact items_sites h hc1 (Builder.sited_empty.flush.add (hn n rfl))
      | none => exact items_sites h hc1 Builder.sited_empty

/-! ## Arguments -/

/-- What is no unit may be an operand. -/
theorem Yields.sites_operand {p : Parser Node}
    (h : Yields p s c fun n c' => c'.Cuts t ∧ n.isUnit = false ∧ Sited t n) :
    Yields p s c (Sites t SitedOperand) :=
  h.mono fun _ _ ⟨hc, hn⟩ => ⟨hc, Or.inr hn⟩

theorem operand_sites (h : rules.Siting) (hc : c.Cuts s.text) :
    Yields (operand rules) s c (Sites s.text SitedOperand) := by
  unfold operand
  rw [yields_peek]
  split
  · refine Yields.bind (groupContents_sites h hc) fun r c1 ⟨hc1, hnodes⟩ => ?_
    exact yields_pure.mpr ⟨hc1, Or.inr ⟨rfl, sited_expression hnodes⟩⟩
  · exact (group_sites h hc).sites_operand
  · exact (absolute_sites h hc).sites_operand
  · rename_i hk
    refine Yields.bind (h.command hc hk) fun o c1 ⟨hc1, hn⟩ => ?_
    cases o with
    | some n => exact yields_pure.mpr ⟨hc1, Or.inr ⟨rfl, sited_wrapCurly (hn n rfl)⟩⟩
    | none => exact h.operand hc1
  · refine yields_ite (fun hk => ?_) fun _ => yields_unexpected
    rw [yields_lookahead, yields_skip]
    exact yields_pure.mpr ⟨hc.skip _, hc.sited_run hk⟩
  · exact yields_unexpected

theorem scriptArg_sites (h : rules.Siting) (hc : c.Cuts s.text) :
    Yields (scriptArg rules) s c (Sites s.text Sited) := by
  unfold scriptArg
  rw [yields_peek]
  split
  · exact (group_sites h hc).mono fun _ _ ⟨hc1, _, hn⟩ => ⟨hc1, hn⟩
  · rename_i hk
    rw [yields_next]
    exact yields_pure.mpr ⟨hc.tail, hc.sited_char hk⟩
  · rename_i hk
    refine Yields.bind (h.command hc hk) fun o c1 ⟨hc1, hn⟩ => ?_
    cases o with
    | some n => exact yields_pure.mpr ⟨hc1, sited_wrapCurly (hn n rfl)⟩
    | none => exact h.scriptArg hc1
  · exact yields_unexpected

/-! ## Commands -/

theorem unary_sites {name : FunctionName} (h : rules.Siting) (hc : c.Cuts s.text)
    (hname : name.takesOperand = false) : Yields (unary rules name) s c (Sites s.text Sited) := by
  unfold unary
  rw [yields_next]
  refine Yields.bind (scriptArg_sites h hc.tail) fun arg c1 ⟨hc1, harg⟩ => ?_
  rw [yields_lastStop]
  exact yields_pure.mpr
    ⟨hc1, sited_function hname (SitedAll.cons harg sitedAll_nil) sitedOption_none⟩

/-- Two arguments behind the token of a command. -/
theorem pair_sites {name : FunctionName} {start : Int} (h : rules.Siting) (hc : c.Cuts s.text)
    (hname : name.takesOperand = false) :
    Yields (do
        let first ← scriptArg rules
        let second ← scriptArg rules
        pure (Node.function name [first, second] none ⟨start, ← lastStop⟩)) s c
      (Sites s.text Sited) := by
  refine Yields.bind (scriptArg_sites h hc) fun first c1 ⟨hc1, hfirst⟩ => ?_
  refine Yields.bind (scriptArg_sites h hc1) fun second c2 ⟨hc2, hsecond⟩ => ?_
  rw [yields_lastStop]
  exact yields_pure.mpr ⟨hc2, sited_function hname
    (SitedAll.cons hfirst (SitedAll.cons hsecond sitedAll_nil)) sitedOption_none⟩

theorem named_sites {name : Text} (h : rules.Siting) (hc : c.Cuts s.text)
    (hk : (c.token s.text.length 0).kind = .command) (hname : name ∈ unitNames) :
    Yields (named rules name) s c (Sites s.text Sited) := by
  -- the argument behind the name, with or without an exponent
  have rest : ∀ (exponent : Option Node) (c1 : Cursor), Sites s.text SitedOption exponent c1 →
      Yields (do
          let arg ← operand rules
          pure (Node.function .regular [unitAt name (c.token s.text.length 0).span, arg] exponent
            ⟨(c.token s.text.length 0).start, ← lastStop⟩)) s c1 (Sites s.text Sited) := by
    intro exponent c1 ⟨hc1, hexponent⟩
    refine Yields.bind (operand_sites h hc1) fun arg c2 ⟨hc2, harg⟩ => ?_
    rw [yields_lastStop]
    exact yields_pure.mpr ⟨hc2, sited_applied [_] rfl
      (SitedAll.cons (hc.sited_name hk hname) sitedAll_nil) harg hexponent⟩
  unfold named
  rw [yields_next, yields_peek]
  dsimp only
  split
  · rw [yields_next]
    refine Yields.bind ((scriptArg_sites h hc.tail.tail).map fun n c1 ⟨hc1, hn⟩ => ?_) rest
    exact ⟨hc1, sitedOption_some hn⟩
  · exact yields_pure_bind.mpr (rest none c.tail ⟨hc.tail, sitedOption_none⟩)

theorem fraction_sites (h : rules.Siting) (hc : c.Cuts s.text) :
    Yields (fraction rules) s c (Sites s.text Sited) := by
  unfold fraction
  rw [yields_next, yields_lookahead]
  split
  · rename_i d x hd
    obtain ⟨a, b, o, e, z, ts, hrest, -, hd, -, -, -, hx, -⟩ := derivativeHead?_split hd
    have spelled : ∀ k ∈ c.tail.rest, k.kind = .char → Sited s.text (unitAt k.text k.span) :=
      fun k hk hchar => sited_unit (Or.inl ((hc.tail.stands hk).spelled (by rw [hchar]; rfl)))
    have hsign := spelled d (by rw [hrest]; simp) (Token.isChar_char hd)
    have hletter := spelled x (by rw [hrest]; simp) (Token.isLetter_char hx)
    rw [yields_skip]
    refine Yields.bind (operand_sites h (hc.tail.skip 7)) fun arg c1 ⟨hc1, harg⟩ => ?_
    rw [yields_lastStop]
    exact yields_pure.mpr ⟨hc1, sited_applied [_, _] rfl
      (SitedAll.cons hsign (SitedAll.cons hletter sitedAll_nil)) harg sitedOption_none⟩
  · exact pair_sites h hc.tail rfl

theorem root_sites (h : rules.Siting) (hc : c.Cuts s.text) :
    Yields (root rules) s c (Sites s.text Sited) := by
  have rest : ∀ (degree : Option Node) (c1 : Cursor), Sites s.text SitedOption degree c1 →
      Yields (do
          let radicand ← scriptArg rules
          pure (Node.function .sqrt (degree.toList ++ [radicand]) none
            ⟨(c.token s.text.length 0).start, ← lastStop⟩)) s c1 (Sites s.text Sited) := by
    intro degree c1 ⟨hc1, hdegree⟩
    refine Yields.bind (scriptArg_sites h hc1) fun radicand c2 ⟨hc2, hradicand⟩ => ?_
    rw [yields_lastStop]
    exact yields_pure.mpr ⟨hc2, sited_function rfl
      ((sitedAll_option hdegree).append (SitedAll.cons hradicand sitedAll_nil)) sitedOption_none⟩
  unfold root
  rw [yields_next, yields_peek]
  dsimp only
  split
  · refine Yields.bind ((group_sites h hc.tail).map fun n c1 ⟨hc1, _, hn⟩ => ?_) rest
    exact ⟨hc1, sitedOption_some hn⟩
  · exact yields_pure_bind.mpr (rest none c.tail ⟨hc.tail, sitedOption_none⟩)

/-! ## Scripts -/

/-- Scripts that are sited. -/
structure Scripts.Sited (t : Text) (r : Scripts) : Prop where
  sub : SitedOption t r.sub
  super : SitedOption t r.super

theorem Scripts.sited_empty : Scripts.Sited t {} := ⟨sitedOption_none, sitedOption_none⟩

theorem script_sites {subAllowed : Bool} {r : Scripts} (h : rules.Siting) (hc : c.Cuts s.text)
    (hr : r.Sited s.text) :
    Yields (script rules subAllowed r) s c (Sites s.text Scripts.Sited) := by
  unfold script
  rw [yields_peek]
  refine yields_ite (fun _ => ?_) fun _ => yields_ite (fun _ => ?_) fun _ => ?_
  · rw [yields_next]
    refine Yields.bind (scriptArg_sites h hc.tail) fun n c1 ⟨hc1, hn⟩ => ?_
    exact yields_pure.mpr ⟨hc1, sitedOption_some hn, hr.super⟩
  · rw [yields_next]
    refine Yields.bind (scriptArg_sites h hc.tail) fun n c1 ⟨hc1, hn⟩ => ?_
    exact yields_pure.mpr ⟨hc1, hr.sub, sitedOption_some hn⟩
  · exact yields_pure.mpr ⟨hc, hr⟩

theorem integralBody_sites (h : rules.Siting) (hc : c.Cuts s.text) :
    Yields (integralBody rules) s c (Sites s.text Sited) := by
  unfold integralBody
  rw [yields_peek]
  refine yields_ite (fun _ => (group_sites h hc).mono fun n c1 ⟨hc1, _, hn⟩ => ⟨hc1, hn⟩)
    fun _ => ?_
  refine Yields.bind (h.sequence hc) fun nodes c1 ⟨hc1, hnodes⟩ => ?_
  rw [yields_peek]
  exact yields_pure.mpr ⟨hc1, sited_expression hnodes⟩

theorem yields_skipLimits_cuts {β : Type} {f : Unit → Parser β} {post : β → Cursor → Prop}
    (hc : c.Cuts t) (h : ∀ c', c'.Cuts t → Yields (f ()) s c' post) :
    Yields (skipLimits >>= f) s c post := by
  have hrun : skipLimits s c
      = .ok ((), c.skip (c.rest.takeWhile (·.isCommand ["limits"])).length) := skip_eq _
  rw [yields_of_ok hrun]
  exact h _ (hc.skip _)

theorem integral_sites (h : rules.Siting) (hc : c.Cuts s.text) :
    Yields (integral rules) s c (Sites s.text Sited) := by
  unfold integral
  rw [yields_next]
  refine yields_skipLimits_cuts hc.tail fun c1 hc1 => ?_
  refine Yields.bind (script_sites h hc1 Scripts.sited_empty) fun one c2 ⟨hc2, hone⟩ => ?_
  refine yields_skipLimits_cuts hc2 fun c3 hc3 => ?_
  refine Yields.bind (script_sites h hc3 hone) fun both c4 ⟨hc4, hboth⟩ => ?_
  refine yields_skipLimits_cuts hc4 fun c5 hc5 => ?_
  refine yields_ite (fun _ => ?_) fun _ => ?_
  · rw [yields_peek]
    exact yields_failAt
  refine Yields.bind (integralBody_sites h hc5) fun body c6 ⟨hc6, hbody⟩ => ?_
  rw [yields_peek, yields_peekAt]
  refine yields_ite (fun hd => ?_) fun _ => yields_unexpected
  rw [Bool.and_eq_true] at hd
  rw [yields_skip]
  have hbounds := (sitedAll_option hboth.sub).append (sitedAll_option hboth.super)
  have hletter := hc6.sited_char (Token.isLetter_char hd.2)
  exact yields_pure.mpr ⟨hc6.skip 2, sited_function rfl
    (hbounds.append (SitedAll.cons hbody (SitedAll.cons hletter sitedAll_nil))) sitedOption_none⟩

theorem limit_sites (h : rules.Siting) (hc : c.Cuts s.text) :
    Yields (limit rules) s c (Sites s.text Sited) := by
  unfold limit
  rw [yields_next]
  refine yields_expect fun _ => yields_expect fun _ => ?_
  refine Yields.bind (h.sequence hc.tail.tail.tail) fun name c1 ⟨hc1, hname⟩ => ?_
  rw [yields_peek]
  refine yields_ite (fun _ => ?_) fun _ => yields_unexpected
  rw [yields_next]
  refine Yields.bind (h.sequence hc1.tail) fun target c2 ⟨hc2, htarget⟩ => ?_
  refine yields_expect fun _ => ?_
  refine Yields.bind (operand_sites h hc2.tail) fun arg c3 ⟨hc3, harg⟩ => ?_
  rw [yields_lastStop]
  exact yields_pure.mpr ⟨hc3, sited_applied [_, _] rfl (SitedAll.cons (sited_expression hname)
    (SitedAll.cons (sited_expression htarget) sitedAll_nil)) harg sitedOption_none⟩

theorem logarithm_sites (h : rules.Siting) (hc : c.Cuts s.text) :
    Yields (logarithm rules) s c (Sites s.text Sited) := by
  unfold logarithm
  rw [yields_next]
  refine Yields.bind (script_sites h hc.tail Scripts.sited_empty) fun one c1 ⟨hc1, hone⟩ => ?_
  refine Yields.bind (script_sites h hc1 hone) fun both c2 ⟨hc2, hboth⟩ => ?_
  refine Yields.bind (operand_sites h hc2) fun arg c3 ⟨hc3, harg⟩ => ?_
  rw [yields_lastStop]
  split
  · rename_i base hbase
    exact yields_pure.mpr ⟨hc3, sited_applied [_] rfl
      (SitedAll.cons (hboth.sub base hbase) sitedAll_nil) harg hboth.super⟩
  · refine yields_ite (fun _ => ?_) fun _ => ?_
    · exact yields_pure.mpr ⟨hc3, sited_applied [] rfl sitedAll_nil harg hboth.super⟩
    · exact yields_pure.mpr ⟨hc3, sited_applied [] rfl sitedAll_nil harg hboth.super⟩

/-! ## Environments -/

theorem environmentName_cuts (hc : c.Cuts t) :
    Yields environmentName s c fun _ c' => c'.Cuts t := by
  unfold environmentName
  refine yields_expect fun _ => ?_
  rw [yields_peek, yields_lookahead, yields_skip]
  exact yields_expect fun _ => yields_pure.mpr (hc.tail.skip _).tail

theorem rows_sites {matrix : Bool} {name : Text} {row before : List Node} (h : rules.Siting)
    (hc : c.Cuts s.text) (hrow : SitedAll s.text row) (hbefore : SitedAll s.text before) :
    Yields (rows rules matrix name row before) s c (Sites s.text SitedAll) := by
  unfold rows
  rw [yields_peek]
  refine Yields.bind (h.sequence hc).rewordAtEnd fun nodes c1 ⟨hc1, hnodes⟩ => ?_
  rw [yields_peek, yields_next]
  have hcells : SitedAll s.text (.expression .none nodes
      ⟨(c.token s.text.length 0).start, (c1.token s.text.length 0).start⟩ :: row) :=
    SitedAll.cons (sited_expression hnodes) hrow
  generalize Node.expression .none nodes
    ⟨(c.token s.text.length 0).start, (c1.token s.text.length 0).start⟩ :: row = cells at hcells ⊢
  refine yields_ite (fun _ => h.rows hc1.tail hcells hbefore) fun _ => ?_
  have hkept : SitedAll s.text (if isEmptyRow cells then before else cells ++ before) := by
    split
    · exact hbefore
    · exact hcells.append hbefore
  refine yields_ite (fun _ => yields_pure.mpr ⟨hc1.tail, hkept.reverse⟩) fun _ => ?_
  exact h.rows hc1.tail sitedAll_nil hkept

theorem environment_sites (h : rules.Siting) (hc : c.Cuts s.text) :
    Yields (environment rules) s c (Sites s.text Sited) := by
  unfold environment
  rw [yields_next]
  refine Yields.bind (environmentName_cuts hc.tail) ?_
  rintro ⟨name, nameStart⟩ c1 hc1
  dsimp only
  split
  · rw [yields_lastStop]
    exact yields_failAt
  rename_i type _
  -- the rows and the end, with or without the columns of an array before them
  have rest : ∀ (c2 : Cursor), c2.Cuts s.text →
      Yields (do
          let cells ← rules.rows (type == .determinant) name [] []
          let last ← environmentName
          if last.1 = name then
            pure (Node.environment type cells ⟨(c.token s.text.length 0).start, ← lastStop⟩)
          else
            failAt last.2 (← lastStop) last.1
              ("\\begin\x7b" ++ name ++ "\x7d ended by \\end\x7b" ++ last.1 ++ "\x7d")) s c2
        (Sites s.text Sited) := by
    intro c2 hc2
    refine Yields.bind (h.rows hc2 sitedAll_nil sitedAll_nil) fun cells c3 ⟨hc3, hcells⟩ => ?_
    refine Yields.bind (environmentName_cuts hc3) ?_
    rintro ⟨last, lastStart⟩ c4 hc4
    dsimp only
    refine yields_ite (fun _ => ?_) fun _ => ?_
    · rw [yields_lastStop]
      exact yields_pure.mpr ⟨hc4, sited_plain rfl rfl hcells⟩
    · rw [yields_lastStop]
      exact yields_failAt
  rw [yields_peek]
  split
  · exact Yields.bind (group_sites h hc1) fun _ c2 ⟨hc2, _⟩ => rest c2 hc2
  · exact rest c1 hc1

/-! ## The grammar -/

theorem command_sites (h : rules.Siting) (hc : c.Cuts s.text)
    (hk : (c.token s.text.length 0).kind = .command) :
    Yields (command rules) s c (Sites s.text SitedOption) := by
  have made : ∀ {p : Parser Node}, Yields p s c (Sites s.text Sited) →
      Yields (some <$> p) s c (Sites s.text SitedOption) := fun hp =>
    hp.map fun n c' ⟨hc', hn⟩ => ⟨hc', sitedOption_some hn⟩
  unfold command
  rw [yields_peek]
  refine yields_ite (fun _ => ?_) fun _ => yields_ite (fun ht => ?_) fun _ => ?_
  · rw [yields_next]
    exact yields_pure.mpr ⟨hc.tail, sitedOption_none⟩
  · rw [yields_next]
    have hname := List.mem_append_left (namedFunctions.map (·.2)) (List.contains_iff_mem.mp ht)
    exact yields_pure.mpr ⟨hc.tail, sitedOption_some (hc.sited_name hk hname)⟩
  split
  · rename_i name hname
    obtain ⟨l₁, l₂, hl, _⟩ := List.lookup_eq_some_iff.mp hname
    have hmem : name ∈ namedFunctions.map (·.2) := by
      rw [hl]
      simp
    exact made (named_sites h hc hk (List.mem_append_right _ hmem))
  · refine yields_ite (fun _ => made (fraction_sites h hc)) fun _ => ?_
    refine yields_ite (fun _ => made (root_sites h hc)) fun _ => ?_
    refine yields_ite (fun _ => made (integral_sites h hc)) fun _ => ?_
    refine yields_ite (fun _ => made (limit_sites h hc)) fun _ => ?_
    refine yields_ite (fun _ => made (logarithm_sites h hc)) fun _ => ?_
    refine yields_ite (fun _ => made ?_) fun _ => ?_
    · unfold binary
      rw [yields_next]
      exact pair_sites h hc.tail rfl
    refine yields_ite (fun _ => made (unary_sites h hc rfl)) fun _ => ?_
    refine yields_ite (fun _ => made (environment_sites h hc)) fun _ => ?_
    exact yields_failAt

/-- One more unfolding keeps trees sited. -/
theorem Rules.Siting.unfold (h : rules.Siting) : rules.unfold.Siting where
  sequence hc := sequence_sites h hc
  items hc hb := items_sites h hc hb
  command hc hk := command_sites h hc hk
  operand hc := operand_sites h hc
  scriptArg hc := scriptArg_sites h hc
  rows hc hrow hbefore := rows_sites h hc hrow hbefore

theorem rulesTo_siting (n : Nat) : (rulesTo n).Siting := by
  induction n with
  | zero =>
      exact ⟨fun _ => yields_spent, fun _ _ => yields_spent, fun _ _ => yields_spent,
        fun _ => yields_spent, fun _ => yields_spent, fun _ _ _ => yields_spent⟩
  | succ n ih => exact ih.unfold

/-- **Every accepted text has a tree that is sited.** -/
theorem parse_sited {limit : Nat} {tree : Node} (h : parse limit t = .ok tree) : Sited t tree := by
  cases htokens : tokens t with
  | error e =>
      unfold parse at h
      rw [htokens] at h
      exact absurd h (by simp)
  | ok ts =>
      rcases parse_grammar htokens limit with ⟨nodes, c, hrun, -, hparse⟩ | ⟨e, atEnd, -, hparse⟩
      · obtain rfl := Except.ok.inj (h.symm.trans hparse)
        have hc : Cursor.Cuts t ⟨ts, 0⟩ := ⟨0, tokens_cut htokens⟩
        have hnodes := ((rulesTo_siting (unfoldings ts)).sequence hc nodes c hrun).2
        exact sited_plain rfl rfl (SitedAll.cons (sited_expression hnodes) sitedAll_nil)
      · rw [h] at hparse
        exact absurd hparse (by simp)

/-! ## Exact characters -/

section Exact

variable {cs : List Character} {span : Span}

theorem FromTokens.not_slash (h : FromTokens t cs span) :
    t[span.start.toNat]? ≠ some (byte '\\') := by
  obtain ⟨hread, c, hc, hstart⟩ := h
  obtain ⟨pos, b, r, hdrop, hb, rfl⟩ := hread c (List.mem_of_head? hc)
  have hpos : span.start.toNat = pos := by
    rw [← hstart]
    exact Int.toNat_natCast pos
  rw [hpos, ← List.head?_drop, hdrop]
  exact fun heq => hb (Option.some.inj heq)

theorem RunsOver.not_slash (h : RunsOver t cs span) : t[span.start.toNat]? ≠ some (byte '\\') := by
  obtain ⟨pos, run, ys, hcut, hne, hrun, -, rfl⟩ := h
  obtain ⟨hle, hbytes⟩ := hcut.run_bytes hrun
  rw [Int.toNat_natCast, ← List.head?_drop]
  intro hhead
  have hpos := List.length_pos_iff.mpr hne
  refine (hbytes (byte '\\') ?_).2 rfl
  obtain ⟨r, hr⟩ := List.head?_eq_some_iff.mp hhead
  obtain ⟨m, hm⟩ : ∃ m, run.length = m + 1 := ⟨run.length - 1, by omega⟩
  rw [hr, hm, List.take_succ_cons]
  exact List.mem_cons_self

/-- The characters of a run are exact if there are no blanks in the bytes of its span. -/
theorem RunsOver.exact_iff (h : RunsOver t cs span) :
    (∀ c ∈ cs, c.IsExact t) ↔ ∀ x ∈ span.bytes? t, ∀ b ∈ x, Text.isBlank b = false := by
  obtain ⟨pos, run, ys, hcut, hne, hrun, rfl, rfl⟩ := h
  have hpos := List.length_pos_iff.mpr hne
  have hwidth : ((pos + run.length : Int) - pos).toNat = run.length := by omega
  have hbytes : Span.bytes? ⟨pos, pos + run.length⟩ t = some ((t.drop pos).take run.length) := by
    have hle := (hcut.run_bytes hrun).1
    rw [List.length_drop] at hle
    unfold Span.bytes?
    dsimp only
    rw [if_pos (by omega), Int.toNat_natCast, hwidth]
  rw [layOut_exact_iff, ofChars_run hrun, hcut.run_prefix_iff hrun, hbytes]
  simp

/-- Whatever the characters of a run are laid out over is ASCII. -/
theorem RunsOver.encodes (h : RunsOver t cs span) :
    ∀ c ∈ cs, t.encodesAt c.span.start.toNat = true := by
  obtain ⟨pos, run, ys, hcut, -, hrun, rfl, -⟩ := h
  obtain ⟨hle, hbytes⟩ := hcut.run_bytes hrun
  intro c hc
  obtain ⟨i, hi, hstart⟩ := start_mem_layOut hc
  rw [ofChars_run hrun, run_length hrun] at hi
  have hlt : i < (t.drop pos).length := by omega
  have hdrop : t.drop (pos + i) = (t.drop pos)[i] :: (t.drop pos).drop (i + 1) := by
    rw [← List.drop_drop, List.drop_eq_getElem_cons hlt]
  have hascii : (t.drop pos)[i] < 0x80 :=
    (hbytes _ (List.mem_take_iff_getElem.mpr ⟨i, by omega, rfl⟩)).1
  rw [hstart, Int.toNat_natCast, Text.encodesAt, hdrop]
  dsimp only
  rw [Text.headRune_ascii_valid hascii]
  rfl

end Exact

/--
**When characters are exact.** A unit of the tree of an accepted text that starts at a backslash is
the name of a constant or of a function, and stands for its command. The characters of any other
unit have the bytes that encode them in their spans, if and only if none of them was read from a
byte that encodes nothing and, where the unit is the operand of a function, there is no blank in the
bytes of its span.
-/
theorem characters_exact_iff {limit : Nat} {tree : Node} {cs : List Character} {span : Span}
    (hparse : parse limit t = .ok tree) (hocc : Occurs (.unit cs span) tree) :
    (t[span.start.toNat]? = some (byte '\\') →
        ∃ name ∈ unitNames, Node.unit cs span = unitAt name span)
      ∧ (t[span.start.toNat]? ≠ some (byte '\\') →
        ((∀ c ∈ cs, c.IsExact t) ↔ (∀ c ∈ cs, t.encodesAt c.span.start.toNat = true)
          ∧ (HasOperand tree (.unit cs span) →
            ∀ x ∈ span.bytes? t, ∀ b ∈ x, Text.isBlank b = false))) := by
  have hsited := parse_sited hparse
  constructor
  · intro hslash
    rcases hsited.units hocc with hspelled | ⟨name, hname, pos, -, hstart, hlaid⟩ | hoperand
    · exact absurd hslash hspelled.not_slash
    · refine ⟨name, hname, ?_⟩
      rw [unitAt, hstart, hlaid]
    · exact absurd hslash (hsited.operands hoperand).not_slash
  · intro hslash
    by_cases hoperand : HasOperand tree (.unit cs span)
    · have hrun := hsited.operands hoperand
      rw [hrun.exact_iff]
      exact ⟨fun hblank => ⟨hrun.encodes, fun _ => hblank⟩, fun h => h.2 hoperand⟩
    · have hspelled : FromTokens t cs span := by
        rcases hsited.units hocc with hspelled | ⟨name, -, pos, hname, hstart, -⟩ | hop
        · exact hspelled
        · rw [hstart, Int.toNat_natCast] at hslash
          exact absurd hname hslash
        · exact absurd hop hoperand
      refine ⟨fun hexact => ⟨fun c hc => ?_, fun hop => absurd hop hoperand⟩, fun h c hc => ?_⟩
      · exact (hspelled.read c hc).exact_iff.mp (hexact c hc)
      · exact (hspelled.read c hc).exact_iff.mpr (h.1 c hc)

/-- The characters of `ab` as the operand of the sine in `π\sin a b`. -/
def gappedOperand : List Character := [⟨0x61, ⟨7, 8⟩⟩, ⟨0x62, ⟨8, 9⟩⟩]

/-- The sine in `π\sin a b`. -/
def gappedSine : Node :=
  .function .regular [unitAt "sin" ⟨2, 6⟩, .unit gappedOperand ⟨7, 9⟩] none ⟨2, 10⟩

/-- In `π\sin a b` the first character is exact, but the second one of the operand is placed on the
blank before it. -/
theorem gappedOperand_not_exact :
    ∃ tree, parse 256 "π\\sin a b" = .ok tree
      ∧ Occurs (.unit [⟨0x3C0, ⟨0, 2⟩⟩] ⟨0, 2⟩) tree ∧ Occurs (.unit gappedOperand ⟨7, 9⟩) tree
      ∧ (∀ c ∈ [Character.mk 0x3C0 ⟨0, 2⟩], c.IsExact "π\\sin a b")
      ∧ ¬ ∀ c ∈ gappedOperand, c.IsExact "π\\sin a b" := by
  let tree : Node :=
    .root [.expression .none [.unit [⟨0x3C0, ⟨0, 2⟩⟩] ⟨0, 2⟩, gappedSine] ⟨0, 10⟩] ⟨0, 10⟩
  have hparse : parse 256 "π\\sin a b" = .ok tree := rfl
  have hfirst : Occurs (.unit [⟨0x3C0, ⟨0, 2⟩⟩] ⟨0, 2⟩) tree :=
    .child (List.mem_singleton_self _) (.child List.mem_cons_self .here)
  have hsine : ∀ {n : Node}, Occurs n gappedSine → Occurs n tree := fun hn =>
    .child (List.mem_singleton_self _) (.child (List.mem_cons_of_mem _ List.mem_cons_self) hn)
  have hsecond : Occurs (.unit gappedOperand ⟨7, 9⟩) tree :=
    hsine (.child (List.mem_cons_of_mem _ List.mem_cons_self) .here)
  refine ⟨tree, hparse, hfirst, hsecond, ?_, fun hexact => ?_⟩
  · refine ((characters_exact_iff hparse hfirst).2 (by decide)).mpr ⟨by decide, fun _ x hx => ?_⟩
    have hbytes : Span.bytes? ⟨0, 2⟩ "π\\sin a b" = some [0xCF, 0x80] := rfl
    obtain rfl := Option.some.inj (hbytes.symm.trans hx)
    exact List.forall_mem_cons.mpr ⟨by decide, List.forall_mem_singleton.mpr (by decide)⟩
  · have hblank := (((characters_exact_iff hparse hsecond).2 (by decide)).mp hexact).2
      ⟨gappedSine, hsine .here, rfl⟩ [0x61, 0x20] rfl 0x20 (by simp)
    exact absurd hblank (by decide)

end MathMarkup.Grammar
