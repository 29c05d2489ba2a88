import MathMarkup.Grammar.Command
import MathMarkup.Proofs.Sequences

/-!
# Commands

The second half of the contract `Rules.Sound`: every command builds a function with the arguments it
takes. A command reads its own token first, so whatever it refers to has one token less.
-/

namespace MathMarkup.Grammar

open MathMarkup.Grammar.Parser
open MathMarkup.Node (Built BuiltAll)

variable {commas : Bool} {level : Nat} {rules : Rules} {short : Prop} {s : Scope} {c : Cursor}

/-- What the production of a command owes. -/
def Constructed (commas : Bool) (size : Nat) (c : Cursor) (n : Node) (c' : Cursor) : Prop :=
  c.Past c' ∧ Built commas size n

/-- The unfoldings that are left for a command are enough for whatever stands behind it. -/
theorem short_behind {c' : Cursor} (hshort : level ≤ 2 * (c.rest.length - 1) → short)
    (hr : c.tail.Reads c') (hl : level ≤ 2 * c'.rest.length) : short := by
  have := hr.length_le
  rw [c.tail_length] at this
  exact hshort (by omega)

/-! ## Functions of one or two arguments -/

theorem unary_meets {name : FunctionName} (h : rules.Sound commas level)
    (hc : c.Sound commas s.text.length) (hk : (c.token s.text.length 0).kind = .command)
    (hname : 1 ∈ Solver.arities name) (hshort : level ≤ 2 * (c.rest.length - 1) → short) :
    Meets short (unary rules name) s c (Constructed commas s.text.length c) := by
  have hp := c.past_tail hk (by simp)
  unfold unary
  rw [meets_next]
  refine Meets.bind (scriptArg_meets h hc.tail fun hl =>
    short_behind hshort (.refl _) (Nat.le_of_lt hl)) ?_
  rintro arg c1 ⟨hp1, harg⟩
  rw [meets_lastStop, meets_pure]
  refine ⟨hp.reads hp1.1, function_built hname ?_ ?_ ?_ (by simp)⟩
  · rintro rfl; exact absurd hname (by decide)
  · rintro (rfl | rfl) <;> exact absurd hname (by decide)
  · intro a ha
    rw [List.mem_singleton.mp ha]
    exact harg

/-- Two arguments behind the token of a command; binomials and fractions are read this way. -/
theorem pair_meets {name : FunctionName} (h : rules.Sound commas level)
    (hc : c.Sound commas s.text.length) (hk : (c.token s.text.length 0).kind = .command)
    (hname : 2 ∈ Solver.arities name) (hreg : name ≠ .regular)
    (hshort : level ≤ 2 * (c.rest.length - 1) → short) :
    Meets short (do
        let first ← scriptArg rules
        let second ← scriptArg rules
        pure (.function name [first, second] none
          ⟨(c.token s.text.length 0).start, ← lastStop⟩)) s c.tail
      (Constructed commas s.text.length c) := by
  have hp := c.past_tail hk (by simp)
  refine Meets.bind (scriptArg_meets h hc.tail fun hl =>
    short_behind hshort (.refl _) (Nat.le_of_lt hl)) ?_
  rintro first c1 ⟨hp1, hfirst⟩
  refine Meets.bind (scriptArg_meets h (hp1.1.sound hc.tail) fun hl =>
    short_behind hshort hp1.1 (Nat.le_of_lt hl)) ?_
  rintro second c2 ⟨hp2, hsecond⟩
  rw [meets_lastStop, meets_pure]
  refine ⟨hp.reads (hp1.1.trans hp2.1), function_built hname ?_ ?_ ?_ (by simp)⟩
  · exact fun he => absurd he hreg
  · -- a definition takes three arguments
    rintro (rfl | rfl) <;> exact absurd hname (by decide)
  · intro a ha
    simp only [List.mem_cons, List.not_mem_nil, or_false] at ha
    rcases ha with rfl | rfl
    · exact hfirst
    · exact hsecond

theorem binary_meets {name : FunctionName} (h : rules.Sound commas level)
    (hc : c.Sound commas s.text.length) (hk : (c.token s.text.length 0).kind = .command)
    (hname : 2 ∈ Solver.arities name) (hreg : name ≠ .regular)
    (hshort : level ≤ 2 * (c.rest.length - 1) → short) :
    Meets short (binary rules name) s c (Constructed commas s.text.length c) := by
  unfold binary
  rw [meets_next]
  exact pair_meets h hc hk hname hreg hshort

theorem named_meets {name : Text} (h : rules.Sound commas level)
    (hc : c.Sound commas s.text.length) (hk : (c.token s.text.length 0).kind = .command)
    (hname : LiteralText commas name) (hshort : level ≤ 2 * (c.rest.length - 1) → short) :
    Meets short (named rules name) s c (Constructed commas s.text.length c) := by
  have hp := c.past_tail hk (by simp)
  -- the argument behind the name, with or without an exponent
  have rest : ∀ (exponent : Option Node) (c' : Cursor), c.tail.Reads c' →
      (∀ e ∈ exponent, Built commas s.text.length e) →
      Meets short (do
        let arg ← operand rules
        pure (.function .regular [unitAt name (c.token s.text.length 0).span, arg] exponent
          ⟨(c.token s.text.length 0).start, ← lastStop⟩)) s c'
        (Constructed commas s.text.length c) := by
    intro exponent c' hr hexp
    refine Meets.bind (operand_meets h (hr.sound hc.tail) fun hl =>
      short_behind hshort hr (Nat.le_of_lt hl)) ?_
    rintro arg c1 ⟨hp1, harg⟩
    rw [meets_lastStop, meets_pure]
    refine ⟨hp.reads (hr.trans hp1.1), function_built (by simp [Solver.arities])
      (fun _ => ⟨_, _, arg, rfl⟩) (by simp) ?_ hexp⟩
    intro a ha
    simp only [List.mem_cons, List.not_mem_nil, or_false] at ha
    rcases ha with rfl | rfl
    · exact unitAt_plain hname _
    · exact harg
  unfold named
  rw [meets_next, meets_peek]
  dsimp only
  split
  · rw [meets_next]
    refine Meets.bind (P := fun e c' => c.tail.Reads c' ∧ ∀ n ∈ e, Built commas s.text.length n)
      (Meets.map (scriptArg_meets h hc.tail.tail fun hl =>
        short_behind hshort c.tail.reads_tail (Nat.le_of_lt hl)) ?_) ?_
    · rintro e c1 ⟨hp1, he⟩
      refine ⟨c.tail.reads_tail.trans hp1.1, fun n hn => ?_⟩
      rw [← Option.some.inj hn]
      exact he.built
    · rintro e c1 ⟨hr, he⟩
      exact rest e c1 hr he
  · exact meets_pure_bind.mpr (rest none c.tail (.refl _) (by simp))

/-- The differentials of a derivative are letters. -/
theorem derivativeHead?_some {ts : List Token} {d x : Token}
    (h : derivativeHead? ts = some (d, x)) :
    d ∈ ts ∧ d.kind = .char ∧ x ∈ ts ∧ x.kind = .char := by
  unfold derivativeHead? at h
  split at h
  · rename_i a d' b e' e x' f rest
    split at h
    · rename_i hcond
      obtain ⟨rfl, rfl⟩ := Prod.mk.inj (Option.some.inj h)
      simp only [Bool.and_eq_true] at hcond
      obtain ⟨⟨⟨⟨⟨⟨_, hd⟩, _⟩, _⟩, _⟩, hx⟩, _⟩ := hcond
      exact ⟨by simp, Token.isChar_char hd, by simp, Token.isLetter_char hx⟩
    · exact absurd h (by simp)
  · exact absurd h (by simp)

theorem fraction_meets (h : rules.Sound commas level)
    (hc : c.Sound commas s.text.length) (hk : (c.token s.text.length 0).kind = .command)
    (hshort : level ≤ 2 * (c.rest.length - 1) → short) :
    Meets short (fraction rules) s c (Constructed commas s.text.length c) := by
  have hp := c.past_tail hk (by simp)
  unfold fraction
  rw [meets_next, meets_lookahead]
  split
  · rename_i d x hd
    obtain ⟨hdm, hdk, hxm, hxk⟩ := derivativeHead?_some hd
    have hr := c.tail.reads_skip 7
    rw [meets_skip]
    refine Meets.bind (operand_meets h (hr.sound hc.tail) fun hl =>
      short_behind hshort hr (Nat.le_of_lt hl)) ?_
    rintro arg c1 ⟨hp1, harg⟩
    rw [meets_lastStop, meets_pure]
    refine ⟨hp.reads (hr.trans hp1.1), function_built (by simp [Solver.arities]) (by simp)
      (by simp) ?_ (by simp)⟩
    intro a ha
    simp only [List.mem_cons, List.not_mem_nil, or_false] at ha
    rcases ha with rfl | rfl | rfl
    · exact unitAt_plain (hc.tail.literal d hdm (Or.inl hdk)) _
    · exact unitAt_plain (hc.tail.literal x hxm (Or.inl hxk)) _
    · exact harg
  · exact pair_meets h hc hk (by decide) (by decide) hshort

theorem root_meets (h : rules.Sound commas level)
    (hc : c.Sound commas s.text.length) (hk : (c.token s.text.length 0).kind = .command)
    (hshort : level ≤ 2 * (c.rest.length - 1) → short) :
    Meets short (root rules) s c (Constructed commas s.text.length c) := by
  have hp := c.past_tail hk (by simp)
  have rest : ∀ (degree : Option Node) (c' : Cursor), c.tail.Reads c' →
      (∀ n ∈ degree, Plain commas s.text.length n) →
      Meets short (do
        let radicand ← scriptArg rules
        pure (.function .sqrt (degree.toList ++ [radicand]) none
          ⟨(c.token s.text.length 0).start, ← lastStop⟩)) s c'
        (Constructed commas s.text.length c) := by
    intro degree c' hr hdeg
    refine Meets.bind (scriptArg_meets h (hr.sound hc.tail) fun hl =>
      short_behind hshort hr (Nat.le_of_lt hl)) ?_
    rintro radicand c1 ⟨hp1, hrad⟩
    rw [meets_lastStop, meets_pure]
    refine ⟨hp.reads (hr.trans hp1.1), function_built ?_ (by simp) (by simp) ?_ (by simp)⟩
    · -- one argument or two, with the degree in front
      cases degree <;> simp [Solver.arities]
    · intro a ha
      rcases List.mem_append.mp ha with ha | ha
      · exact hdeg a (Option.mem_toList.mp ha)
      · rw [List.mem_singleton.mp ha]
        exact hrad
  unfold root
  rw [meets_next, meets_peek]
  dsimp only
  split
  · refine Meets.bind (P := fun d c' => c.tail.Reads c' ∧ ∀ n ∈ d, Plain commas s.text.length n)
      (Meets.map (group_argued h hc.tail fun hl => hshort ?_) ?_) ?_
    · rw [c.tail_length] at hl; omega
    · rintro n c1 ⟨hp1, hn⟩
      exact ⟨hp1.1, fun m hm => by rw [← Option.some.inj hm]; exact hn⟩
    · rintro d c1 ⟨hr, hd⟩
      exact rest d c1 hr hd
  · exact meets_pure_bind.mpr (rest none c.tail (.refl _) (by simp))

/-! ## Scripts, integrals, limits and logarithms -/

/-- Scripts that can be given to a function. -/
structure Scripts.Sound (commas : Bool) (size : Nat) (r : Scripts) : Prop where
  sub : ∀ n ∈ r.sub, Plain commas size n
  super : ∀ n ∈ r.super, Plain commas size n

theorem Scripts.sound_empty {size : Nat} : Scripts.Sound commas size {} :=
  ⟨fun _ hn => absurd hn (by simp), fun _ hn => absurd hn (by simp)⟩

theorem script_meets {subAllowed : Bool} {r : Scripts} (h : rules.Sound commas level)
    (hc : c.Sound commas s.text.length) (hr : r.Sound commas s.text.length)
    (hshort : level < 2 * c.rest.length → short) :
    Meets short (script rules subAllowed r) s c
      (fun r' c' => c.Reads c' ∧ r'.Sound commas s.text.length) := by
  -- a script is read behind its sign, so one token less is left
  have inner : level < 2 * c.tail.rest.length → short := by
    intro hl
    rw [c.tail_length] at hl
    exact hshort (by omega)
  unfold script
  rw [meets_peek]
  split
  · rw [meets_next]
    refine Meets.bind (scriptArg_meets h hc.tail inner) ?_
    rintro arg c1 ⟨hp, harg⟩
    rw [meets_pure]
    refine ⟨c.reads_tail.trans hp.1, ?_, hr.super⟩
    rintro n hn
    rw [← Option.some.inj hn]
    exact harg
  · split
    · rw [meets_next]
      refine Meets.bind (scriptArg_meets h hc.tail inner) ?_
      rintro arg c1 ⟨hp, harg⟩
      rw [meets_pure]
      refine ⟨c.reads_tail.trans hp.1, hr.sub, ?_⟩
      rintro n hn
      rw [← Option.some.inj hn]
      exact harg
    · rw [meets_pure]
      exact ⟨.refl c, hr⟩

/-- Reading over `\limits` only moves the cursor. -/
theorem meets_skipLimits {β : Type} {f : Unit → Parser β} {post : β → Cursor → Prop}
    (h : ∀ c', c.Reads c' → Meets short (f ()) s c' post) :
    Meets short (skipLimits >>= f) s c post := by
  refine Meets.bind (P := fun _ c' => c.Reads c') ?_ fun _ c' hr => h c' hr
  unfold skipLimits
  rw [meets_lookahead]
  unfold Meets
  rw [skip_eq]
  exact c.reads_skip _

theorem integralBody_meets (h : rules.Sound commas level) (hc : c.Sound commas s.text.length)
    (hshort : level ≤ 2 * c.rest.length → short) :
    Meets short (integralBody rules) s c
      (fun n c' => c.Reads c' ∧ Plain commas s.text.length n) := by
  unfold integralBody
  rw [meets_peek]
  split
  · refine (group_argued h hc fun hl => hshort (by omega)).mono id ?_
    rintro n c' ⟨hp, hn⟩
    exact ⟨hp.1, hn⟩
  · refine Meets.bind ((h.sequence hc).mono hshort fun _ _ => id) ?_
    rintro ns c1 ⟨hr, -, hns⟩
    rw [meets_peek, meets_pure]
    exact ⟨hr, argument_plain hns _⟩

/-- The bounds of an integral that has both or neither. -/
theorem bounds_length {r : Scripts} (h : ¬ r.sub.isSome ≠ r.super.isSome) :
    r.sub.toList.length + r.super.toList.length ∈ [0, 2] := by
  obtain ⟨sub, super⟩ := r
  cases sub <;> cases super <;> simp_all

theorem integral_meets (h : rules.Sound commas level)
    (hc : c.Sound commas s.text.length) (hk : (c.token s.text.length 0).kind = .command)
    (hshort : level ≤ 2 * (c.rest.length - 1) → short) :
    Meets short (integral rules) s c (Constructed commas s.text.length c) := by
  have hp := c.past_tail hk (by simp)
  unfold integral
  rw [meets_next]
  refine meets_skipLimits fun c1 hr1 => ?_
  refine Meets.bind (script_meets h (hr1.sound hc.tail) Scripts.sound_empty fun hl =>
    short_behind hshort hr1 (Nat.le_of_lt hl)) ?_
  rintro one c2 ⟨hr2, hone⟩
  refine meets_skipLimits fun c3 hr3 => ?_
  have hr3 := (hr1.trans hr2).trans hr3
  refine Meets.bind (script_meets h (hr3.sound hc.tail) hone fun hl =>
    short_behind hshort hr3 (Nat.le_of_lt hl)) ?_
  rintro both c4 ⟨hr4, hboth⟩
  refine meets_skipLimits fun c5 hr5 => ?_
  have hr5 := (hr3.trans hr4).trans hr5
  have hc5 := hr5.sound hc.tail
  split
  · -- one bound is missing: the command up to what follows it is refused
    rw [meets_peek]
    refine meets_failAt ?_ (Nat.le_trans (hc5.token_place 0).2.1 (hc5.token_place 0).2.2)
    exact Nat.le_of_lt (Nat.lt_of_lt_of_le (hc.token_lt (hp.reads hr5)) (hc5.token_place 0).1)
  · rename_i hbounds
    refine Meets.bind (integralBody_meets h hc5 (short_behind hshort hr5)) ?_
    rintro body c6 ⟨hr6, hbody⟩
    have hc6 := hr6.sound hc5
    rw [meets_peek, meets_peekAt]
    split
    · rename_i hd
      rw [Bool.and_eq_true] at hd
      rw [meets_skip, meets_pure]
      refine ⟨hp.reads ((hr5.trans hr6).trans (c6.reads_skip 2)), ?_⟩
      refine function_built ?_ (by simp) (by simp) ?_ (by simp)
      · have := bounds_length hbounds
        simp only [List.mem_cons, List.not_mem_nil, or_false] at this
        simp only [List.length_append, List.length_cons, List.length_nil, Solver.arities,
          List.mem_cons, List.not_mem_nil, or_false]
        omega
      · intro a ha
        simp only [List.mem_append, Option.mem_toList, List.mem_cons, List.not_mem_nil,
          or_false] at ha
        rcases ha with (ha | ha) | rfl | rfl
        · exact hboth.sub a ha
        · exact hboth.super a ha
        · exact hbody
        · exact unitAt_plain (hc6.token_literal 1 (Or.inl (Token.isLetter_char hd.2))) _
    · exact meets_unexpected_token hc6

theorem limit_meets (h : rules.Sound commas level)
    (hc : c.Sound commas s.text.length) (hk : (c.token s.text.length 0).kind = .command)
    (hshort : level ≤ 2 * (c.rest.length - 1) → short) :
    Meets short (limit rules) s c (Constructed commas s.text.length c) := by
  have hp := c.past_tail hk (by simp)
  unfold limit
  rw [meets_next]
  refine meets_expect hc.tail fun _ => meets_expect hc.tail.tail fun _ => ?_
  have hr1 := c.tail.reads_tail.trans c.tail.tail.reads_tail
  refine Meets.bind ((h.sequence (hr1.sound hc.tail)).mono (short_behind hshort hr1)
    fun _ _ => id) ?_
  rintro name c2 ⟨hr2, -, hname⟩
  have hr2 := hr1.trans hr2
  have hc2 := hr2.sound hc.tail
  rw [meets_peek]
  split
  · rw [meets_next]
    have hr3 := hr2.trans c2.reads_tail
    refine Meets.bind ((h.sequence hc2.tail).mono (short_behind hshort hr3) fun _ _ => id) ?_
    rintro target c4 ⟨hr4, -, htarget⟩
    have hr4 := hr3.trans hr4
    refine meets_expect (hr4.sound hc.tail) fun _ => ?_
    have hr5 := hr4.trans c4.reads_tail
    refine Meets.bind (operand_meets h (hr5.sound hc.tail) fun hl =>
      short_behind hshort hr5 (Nat.le_of_lt hl)) ?_
    rintro arg c6 ⟨hp6, harg⟩
    rw [meets_lastStop, meets_pure]
    refine ⟨hp.reads (hr5.trans hp6.1), function_built (by simp [Solver.arities]) (by simp)
      (by simp) ?_ (by simp)⟩
    intro a ha
    simp only [List.mem_cons, List.not_mem_nil, or_false] at ha
    rcases ha with rfl | rfl | rfl
    · exact argument_plain hname _
    · exact argument_plain htarget _
    · exact harg
  · exact meets_unexpected_token hc2

theorem logarithm_meets (h : rules.Sound commas level)
    (hc : c.Sound commas s.text.length) (hk : (c.token s.text.length 0).kind = .command)
    (hshort : level ≤ 2 * (c.rest.length - 1) → short) :
    Meets short (logarithm rules) s c (Constructed commas s.text.length c) := by
  have hp := c.past_tail hk (by simp)
  have inner : ∀ {c' : Cursor}, c.tail.Reads c' → level < 2 * c'.rest.length → short :=
    fun hr hl => short_behind hshort hr (Nat.le_of_lt hl)
  unfold logarithm
  rw [meets_next]
  refine Meets.bind (script_meets h hc.tail Scripts.sound_empty (inner (.refl _))) ?_
  rintro one c1 ⟨hr1, hone⟩
  refine Meets.bind (script_meets h (hr1.sound hc.tail) hone (inner hr1)) ?_
  rintro both c2 ⟨hr2, hboth⟩
  have hr2 := hr1.trans hr2
  refine Meets.bind (operand_meets h (hr2.sound hc.tail) (inner hr2)) ?_
  rintro arg c3 ⟨hp3, harg⟩
  have hp3 := hp.reads (hr2.trans hp3.1)
  have hsuper : ∀ e ∈ both.super, Built commas s.text.length e := fun e he => (hboth.super e he).1
  have one_arg : ∀ a ∈ [arg], Plain commas s.text.length a := by
    intro a ha
    rw [List.mem_singleton.mp ha]
    exact harg
  rw [meets_lastStop]
  split
  · rename_i base hbase
    rw [meets_pure]
    refine ⟨hp3, function_built (by simp [Solver.arities]) (by simp) (by simp) ?_ hsuper⟩
    intro a ha
    rcases List.mem_cons.mp ha with rfl | ha
    · exact hboth.sub _ hbase
    · exact one_arg a ha
  · split
    · rw [meets_pure]
      exact ⟨hp3, function_built (by simp [Solver.arities]) (by simp) (by simp) one_arg hsuper⟩
    · rw [meets_pure]
      exact ⟨hp3, function_built (by simp [Solver.arities]) (by simp) (by simp) one_arg hsuper⟩

end MathMarkup.Grammar
