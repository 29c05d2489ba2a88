import MathMarkup.Grammar.Parse
import MathMarkup.Proofs.Commands

/-!
# Reading a whole text

Environments, and the choice between the commands, complete the contract of the productions.
Unfolding the grammar keeps it, one level further (`rulesTo_sound`).

For a whole text that settles what comes out of `parse`: a tree that is built, or an error with a
place in the text (`parse_outcome`). That the grammar is unfolded often enough is part of it: no
text is refused because the unfoldings ran out.
-/

namespace MathMarkup.Grammar

open MathMarkup.Cleaning (removeCommas)
open MathMarkup.Grammar.Parser
open MathMarkup.Node (Built BuiltAll)

variable {commas : Bool} {level : Nat} {rules : Rules} {short : Prop} {s : Scope} {c : Cursor}

/-! ## Environments -/

/-- The name of an environment is at least two braces, and starts before their end. -/
theorem environmentName_meets (hc : c.Sound commas s.text.length) :
    Meets short environmentName s c
      (fun r c' => c.Past c' ∧ c'.rest.length + 2 ≤ c.rest.length ∧ r.2 ≤ c'.lastStop) := by
  unfold environmentName
  refine meets_expect hc fun hopen => ?_
  have hp := c.past_tail hopen (by simp)
  rw [meets_peek, meets_lookahead, meets_skip]
  have hr := c.tail.reads_skip ((c.tail.rest.takeWhile (·.kind == .char)).length)
  refine meets_expect (hr.sound hc.tail) fun hclose => ?_
  have hp' := hr.past (Cursor.past_tail hclose (by simp))
  rw [meets_pure]
  refine ⟨hp.reads hp'.1, ?_, Nat.le_of_lt (hc.tail.token_lt hp')⟩
  have := hp.2
  have := hp'.2
  omega

theorem rows_nil {size : Nat} : Rows commas size [] := ⟨[], rfl, by simp⟩

theorem Rows.cons {size : Nat} {ns es : List Node} {span : Span} (hns : BuiltAll commas size ns)
    (h : Rows commas size es) : Rows commas size (.expression .none ns span :: es) := by
  obtain ⟨rs, rfl, hrs⟩ := h
  refine ⟨(ns, span) :: rs, rfl, ?_⟩
  intro r hr
  rcases List.mem_cons.mp hr with rfl | hr
  · exact hns
  · exact hrs r hr

theorem Rows.append {size : Nat} {es es' : List Node} (h : Rows commas size es)
    (h' : Rows commas size es') : Rows commas size (es ++ es') := by
  obtain ⟨rs, rfl, hrs⟩ := h
  obtain ⟨rs', rfl, hrs'⟩ := h'
  refine ⟨rs ++ rs', List.map_append.symm, ?_⟩
  intro r hr
  rcases List.mem_append.mp hr with hr | hr
  · exact hrs r hr
  · exact hrs' r hr

theorem Rows.reverse {size : Nat} {es : List Node} (h : Rows commas size es) :
    Rows commas size es.reverse := by
  obtain ⟨rs, rfl, hrs⟩ := h
  exact ⟨rs.reverse, by simp, fun r hr => hrs r (List.mem_reverse.mp hr)⟩

theorem rows_meets {matrix : Bool} {name : Text} {row before : List Node}
    (h : rules.Sound commas level) (hc : c.Sound commas s.text.length)
    (hrow : Rows commas s.text.length row) (hbefore : Rows commas s.text.length before) :
    Meets (level + 1 ≤ 2 * c.rest.length + 1) (rows rules matrix name row before) s c
      (fun es c' => c.Reads c' ∧ Rows commas s.text.length es) := by
  unfold rows
  rw [meets_peek]
  refine Meets.bind (((h.sequence hc).rewordAtEnd).mono (by omega) fun _ _ => id) ?_
  rintro ns c1 ⟨hr, hstop, hns⟩
  -- a cell ends at a token, which is read
  have hp : c.Past c1.tail := by
    refine hr.past (c1.past_skip (n := 1) (Nat.le_refl _) ?_)
    intro hnil
    rw [hnil] at hstop
    exact absurd hstop (by simp [Stop.holds])
  have more : ∀ {row' before' : List Node}, Rows commas s.text.length row' →
      Rows commas s.text.length before' →
      Meets (level + 1 ≤ 2 * c.rest.length + 1) (rules.rows matrix name row' before') s c1.tail
        (fun es c' => c.Reads c' ∧ Rows commas s.text.length es) := by
    intro row' before' hrow' hbefore'
    refine (h.rows (hp.1.sound hc) hrow' hbefore').mono (fun hl => ?_) ?_
    · have := hp.2
      omega
    · rintro es c' ⟨hr', hes⟩
      exact ⟨hp.1.trans hr', hes⟩
  rw [meets_peek, meets_next]
  dsimp only
  split
  · exact more (hrow.cons hns) hbefore
  · have hkept : Rows commas s.text.length
        (if isEmptyRow (Node.expression .none ns ⟨(c.token s.text.length 0).start,
          (c1.token s.text.length 0).start⟩ :: row) then before
        else (Node.expression .none ns ⟨(c.token s.text.length 0).start,
          (c1.token s.text.length 0).start⟩ :: row) ++ before) := by
      split
      · exact hbefore
      · exact (hrow.cons hns).append hbefore
    split
    · rw [meets_pure]
      exact ⟨hp.1, hkept.reverse⟩
    · exact more rows_nil hkept

theorem lookup_known {name : Text} {type : EnvironmentType}
    (h : environments.lookup name = some type) : type.isKnown = true := by
  obtain ⟨l₁, l₂, hl, _⟩ := List.lookup_eq_some_iff.mp h
  have all : ∀ e ∈ environments, e.2.isKnown = true := by decide
  exact all (name, type) (by rw [hl]; simp)

/-- The rows and the end of an environment that begins before the cursor `c'`. -/
theorem environmentRows_meets {type : EnvironmentType} {name : Text} {c' : Cursor}
    (h : rules.Sound commas level) (hc : c.Sound commas s.text.length)
    (htype : type.isKnown = true) (hp : c.Past c')
    (hshort : level ≤ 2 * c'.rest.length + 1 → short) :
    Meets short (do
        let cells ← rules.rows (type == .determinant) name [] []
        let (last, lastStart) ← environmentName
        if last = name then
          pure (.environment type cells ⟨(c.token s.text.length 0).start, ← lastStop⟩)
        else
          failAt lastStart (← lastStop) last
            ("\\begin\x7b" ++ name ++ "\x7d ended by \\end\x7b" ++ last ++ "\x7d")) s c'
      (Constructed commas s.text.length c) := by
  have hc' := hp.1.sound hc
  refine Meets.bind ((h.rows hc' rows_nil rows_nil).mono hshort fun _ _ => id) ?_
  rintro cells c1 ⟨hr1, hcells⟩
  have hc1 := hr1.sound hc'
  refine Meets.bind (environmentName_meets hc1) ?_
  rintro ⟨last, lastStart⟩ c2 ⟨hp2, -, hlast⟩
  have hc2 := hp2.1.sound hc1
  dsimp only
  split
  · rw [meets_lastStop, meets_pure]
    have hpast : c.Past c2 := hp.reads (hr1.trans hp2.1)
    refine ⟨hpast, ?_⟩
    obtain ⟨rs, rfl, hrs⟩ := hcells
    have hlt := hc.token_lt hpast
    have hle := hc2.lastStop_le
    exact .environment htype (Int.natCast_nonneg _) (Int.ofNat_lt.mpr hlt)
      (Int.ofNat_lt.mpr (Nat.lt_of_lt_of_le hlt hle)) hrs
  · rw [meets_lastStop]
    exact meets_failAt hlast hc2.lastStop_le

theorem environment_meets (h : rules.Sound commas level)
    (hc : c.Sound commas s.text.length) (hk : (c.token s.text.length 0).kind = .command)
    (hshort : level ≤ 2 * (c.rest.length - 1) → short) :
    Meets short (environment rules) s c (Constructed commas s.text.length c) := by
  have hp := c.past_tail hk (by simp)
  unfold environment
  rw [meets_next]
  refine Meets.bind (environmentName_meets hc.tail) ?_
  rintro ⟨name, nameStart⟩ c1 ⟨hp1, hlen, hstart⟩
  have hr1 := c.reads_tail.trans hp1.1
  have hc1 := hr1.sound hc
  rw [c.tail_length] at hlen
  dsimp only
  split
  · rw [meets_lastStop]
    exact meets_failAt hstart hc1.lastStop_le
  · rename_i type htype
    have hknown := lookup_known htype
    rw [meets_peek]
    split
    · -- the columns of an array are read over
      refine Meets.bind (group_meets h hc1 fun hl => hshort (by omega)) ?_
      rintro _ c2 ⟨hp2, -⟩
      refine environmentRows_meets h hc hknown (hp.reads (hp1.1.trans hp2.1)) fun hl => hshort ?_
      have := hp2.2
      omega
    · exact environmentRows_meets h hc hknown (hp.reads hp1.1) fun hl => hshort (by omega)

/-! ## The choice between commands -/

theorem constants_literal {t : Text} (h : constants.contains t = true) : LiteralText commas t := by
  have all : constants.all isPlain = true := by decide
  exact literalText_of_isPlain (List.all_eq_true.mp all t (List.contains_iff_mem.mp h))

theorem namedFunctions_literal {t name : Text} (h : namedFunctions.lookup t = some name) :
    LiteralText commas name := by
  obtain ⟨l₁, l₂, hl, _⟩ := List.lookup_eq_some_iff.mp h
  have all : namedFunctions.all (fun e => isPlain e.2) = true := by decide
  exact literalText_of_isPlain (List.all_eq_true.mp all (t, name) (by rw [hl]; simp))

theorem command_meets (h : rules.Sound commas level) (hc : c.Sound commas s.text.length)
    (hk : (c.token s.text.length 0).kind = .command)
    (hshort : level ≤ 2 * (c.rest.length - 1) → short) :
    Meets short (command rules) s c (Produced commas s.text.length c) := by
  have hp := c.past_tail hk (by simp)
  have made : ∀ {p : Parser Node}, Meets short p s c (Constructed commas s.text.length c) →
      Meets short (some <$> p) s c (Produced commas s.text.length c) := by
    intro p hmeets
    refine hmeets.map ?_
    rintro n c' ⟨hp', hn⟩
    exact ⟨hp', fun m hm => by rw [← Option.some.inj hm]; exact hn⟩
  unfold command
  rw [meets_peek]
  refine meets_ite (fun _ => ?_) fun _ => meets_ite (fun hconst => ?_) fun _ => ?_
  · rw [meets_next, meets_pure]
    exact ⟨hp, by simp⟩
  · rw [meets_next, meets_pure]
    refine ⟨hp, fun n hn => ?_⟩
    rw [← Option.some.inj hn]
    exact unitAt_built (constants_literal hconst) _
  cases hname : namedFunctions.lookup (c.token s.text.length 0).text with
  | some name => exact made (named_meets h hc hk (namedFunctions_literal hname) hshort)
  | none =>
      refine meets_ite (fun _ => made (fraction_meets h hc hk hshort)) fun _ => ?_
      refine meets_ite (fun _ => made (root_meets h hc hk hshort)) fun _ => ?_
      refine meets_ite (fun _ => made (integral_meets h hc hk hshort)) fun _ => ?_
      refine meets_ite (fun _ => made (limit_meets h hc hk hshort)) fun _ => ?_
      refine meets_ite (fun _ => made (logarithm_meets h hc hk hshort)) fun _ => ?_
      refine meets_ite (fun _ => made ?_) fun _ => meets_ite (fun _ => made ?_) fun _ => ?_
      · exact binary_meets h hc hk (by decide) (by decide) hshort
      · exact unary_meets h hc hk (by decide) hshort
      refine meets_ite (fun _ => made (environment_meets h hc hk hshort)) fun _ => ?_
      exact meets_failAt (hc.token_place 0).2.1 (hc.token_place 0).2.2

/-! ## The grammar -/

/-- No production of the empty grammar gives anything. -/
theorem none_sound : Rules.none.Sound commas 0 where
  sequence _ := Nat.zero_le _
  items _ _ := Nat.zero_le _
  command hc hk := by
    obtain ⟨ts, hts⟩ := Cursor.rest_of_kind hk (by simp)
    show 0 < _
    rw [hts, List.length_cons]
    omega
  operand _ := Nat.zero_le _
  scriptArg _ := Nat.zero_le _
  rows _ _ _ := Nat.zero_le _

/-- **One unfolding keeps the contract**, and can read half a token more. -/
theorem Rules.Sound.unfold (h : rules.Sound commas level) :
    rules.unfold.Sound commas (level + 1) where
  sequence hc := sequence_meets h hc
  items hc hb := items_meets h hc hb
  command {s c} hc hk := by
    refine command_meets h hc hk fun hl => ?_
    have := (c.past_tail hk (by simp)).2
    omega
  operand hc := operand_meets h hc fun hl => hl
  scriptArg hc := scriptArg_meets h hc fun hl => hl
  rows hc hrow hbefore := rows_meets h hc hrow hbefore

/-- **The grammar keeps the contract**, however often it is unfolded. -/
theorem rulesTo_sound (n : Nat) : (rulesTo n).Sound commas n := by
  induction n with
  | zero => exact none_sound
  | succ n ih => exact ih.unfold

/-- A dangling backslash is a byte of the text. -/
theorem tokensFrom_error {t : Text} {pos skip place : Nat}
    (h : tokensFrom pos skip t = .error place) :
    pos ≤ place ∧ place < pos + t.length := by
  induction t generalizing pos skip with
  | nil => cases skip <;> exact absurd h (by simp [tokensFrom])
  | cons b r ih =>
      have step : ∀ {skip' : Nat}, tokensFrom (pos + 1) skip' r = .error place →
          pos ≤ place ∧ place < pos + (b :: r).length := by
        intro skip' h'
        obtain ⟨h1, h2⟩ := ih h'
        simp only [List.length_cons]
        omega
      cases skip with
      | succ skip => exact step h
      | zero =>
          rw [tokensFrom] at h
          split at h
          · exact step h
          · cases h
            simp
          · rename_i kind text width _
            cases hmore : tokensFrom (pos + 1) (width - 1) r with
            | ok more => rw [hmore] at h; exact absurd h (by simp [bind, Except.bind])
            | error e => rw [hmore] at h; cases h; exact step hmore

theorem parse_of_tokens {t : Text} {ts : List Token} (limit : Nat) (h : tokens t = .ok ts) :
    parse limit t = match parseTokens limit t ts with
      | .ok nodes => .ok (.root [.expression .none nodes ⟨0, t.length⟩] ⟨0, t.length⟩)
      | .error (.failed e _) => .error e
      | .error .spent => .error unfinished := by
  unfold parse
  split
  · rename_i e he
    rw [h] at he
    exact absurd he (by simp)
  · rename_i ts' hts
    obtain rfl := Except.ok.inj (h.symm.trans hts)
    rfl

/--
**What comes out of reading a text.** Either a root with one expression whose nodes are built, or an
error with a place in the text, or the text is nested too deeply.

Commas stand in leaves unless cleaning has removed them all.
-/
theorem parse_outcome (commas : Bool) (limit : Nat) (t : Text)
    (he : commas = false → removeCommas t = t) :
    match parse limit t with
    | .ok n => ∃ ns, n = .root [.expression .none ns ⟨0, t.length⟩] ⟨0, t.length⟩
        ∧ BuiltAll commas t.length ns
    | .error e => e.Placed t := by
  cases htok : tokens t with
  | error e =>
      unfold parse
      rw [htok]
      unfold tokens at htok
      split at htok
      · exact absurd htok (by simp)
      · rename_i pos hpos
        cases htok
        obtain ⟨_, hlt⟩ := tokensFrom_error hpos
        exact ⟨pos, pos + 1, by omega, by omega, rfl, rfl, rfl, rfl⟩
  | ok ts =>
      have hcut := tokens_cut htok
      have hc : Cursor.Sound commas t.length ⟨ts, 0⟩ :=
        ⟨by simpa using hcut.tiled, hcut.literal he⟩
      have hrules : (rulesTo (unfoldings ts)).Sound commas (unfoldings ts) := rulesTo_sound _
      have hmeets := @hrules.sequence .finish true ⟨t, limit, 0⟩ ⟨ts, 0⟩ hc
      unfold Meets at hmeets
      rw [parse_of_tokens limit htok]
      unfold parseTokens
      cases hrun : (rulesTo (unfoldings ts)).sequence .finish true ⟨t, limit, 0⟩ ⟨ts, 0⟩ with
      | ok r =>
          rw [hrun] at hmeets
          exact ⟨r.1, rfl, hmeets.2.2⟩
      | error halt =>
          rw [hrun] at hmeets
          cases halt with
          | failed e atEnd => exact hmeets
          | spent =>
              -- two unfoldings for each token, and two more
              have hmeets : unfoldings ts ≤ 2 * ts.length := hmeets
              unfold unfoldings at hmeets
              omega

end MathMarkup.Grammar
