import MathMarkup.Proofs.Carrying

/-!
# Commands before a boundary

Arguments and the constructs of commands read before a boundary what they read at the end of the
text (`Rules.Carrying`). A construct that ends in an operand is the one case in which something
behind the text can be taken in, so each production says how its value ends.
-/

namespace MathMarkup.Grammar

open MathMarkup.Grammar.Parser

variable {halt : Stop} {tail : List Token} {ends : Bool} {rules : Rules} {s s' : Scope} {c : Cursor}

/-! ## Arguments -/

theorem operand_needs : Needs (operand rules) s := by
  rintro ⟨rest, stop⟩ hc
  cases hc
  exact yields_of_error rfl

theorem scriptArg_needs : Needs (scriptArg rules) s := by
  rintro ⟨rest, stop⟩ hc
  cases hc
  exact yields_of_error rfl

theorem drop_takeWhile (p : Token → Bool) (ts : List Token) :
    ts.drop (ts.takeWhile p).length = ts.dropWhile p := by
  have hcut : ts.takeWhile p ++ ts.dropWhile p = ts := List.takeWhile_append_dropWhile
  calc ts.drop (ts.takeWhile p).length
      = (ts.takeWhile p ++ ts.dropWhile p).drop (ts.takeWhile p).length := by rw [hcut]
    _ = ts.dropWhile p := List.drop_left

/-- A run of letters and digits goes on over the end of the text if the boundary does. -/
theorem run_carried (hb : Boundary halt tail) (hc : c.Apart tail ends) (hne : c.rest ≠ [])
    (start : Nat) :
    Follows tail
      (do let ts ← lookahead
          Parser.skip (ts.takeWhile Token.isOperand).length
          pure (unitAt ((ts.takeWhile Token.isOperand).flatMap (·.text))
            ⟨start, start + ((ts.takeWhile Token.isOperand).flatMap (·.text)).length⟩))
      (do let ts ← lookahead
          Parser.skip (ts.takeWhile Token.isOperand).length
          pure (unitAt ((ts.takeWhile Token.isOperand).flatMap (·.text))
            ⟨start, start + ((ts.takeWhile Token.isOperand).flatMap (·.text)).length⟩))
      s s' c (Carried tail ends (argumentLoose true)) := by
  refine follows_lookahead ?_
  obtain ⟨u, behind, htail, -⟩ := hb.head
  -- the last token of the text belongs to the run if the run comes to its end
  have hlast : c.rest.dropWhile Token.isOperand = [] → ends = u.isOperand := by
    intro hall
    have hwhole := List.takeWhile_append_dropWhile (p := Token.isOperand) (l := c.rest)
    rw [hall, List.append_nil] at hwhole
    obtain ⟨z, hz⟩ : ∃ z, c.rest.getLast? = some z := ⟨_, List.getLast?_eq_some_getLast hne⟩
    have hmem : z ∈ c.rest.takeWhile Token.isOperand := by
      rw [hwhole]
      exact List.mem_of_getLast? hz
    rw [hc.last z hz, List.all_eq_true.mp List.all_takeWhile z hmem, htail]
    rfl
  by_cases hall : c.rest.dropWhile Token.isOperand = [] ∧ u.isOperand = true
  · intro n c1 hrun
    rw [bind_of_ok (skip_eq _)] at hrun ⊢
    cases hrun
    refine .grown (hc.reads (c.reads_skip _)) ?_ ?_ rfl rfl ?_
    · rw [skip_drop, drop_takeWhile, hall.1]
    · rw [hlast hall.1, hall.2]
    · rw [skip_drop, Cursor.followed_rest, drop_takeWhile, List.dropWhile_append, hall.1]
      rfl
  · have hsame : (c.rest ++ tail).takeWhile Token.isOperand = c.rest.takeWhile Token.isOperand := by
      rw [List.takeWhile_append]
      split
      · rename_i hfull
        have hnil : c.rest.dropWhile Token.isOperand = [] := by
          rw [← drop_takeWhile, hfull, List.drop_length]
        have hu : ¬ u.isOperand = true := fun hu => hall ⟨hnil, hu⟩
        rw [htail, List.takeWhile_cons_of_neg hu, List.append_nil]
        exact ((List.takeWhile_prefix _).eq_of_length hfull).symm
      · rfl
    rw [hsame]
    refine follows_skip (List.takeWhile_prefix _).length_le (follows_pure (.same
      (hc.reads (c.reads_skip _)) fun hend hends => ?_))
    rw [skip_drop, drop_takeWhile] at hend
    exact absurd ⟨hend, by rw [← hlast hend]; exact hends⟩ hall

/-- The construct of a command as an argument; a command that produces nothing is read over. -/
theorem wrapped_carried {operand : Bool} {more more' : Parser Node}
    (h : rules.Carrying halt tail ends) (hs : s.Fits tail s') (hc : c.Apart tail ends)
    (hk : (c.token s.text.length 0).kind = .command)
    (hmore : ∀ {c1 : Cursor}, c1.Apart tail ends →
      Follows tail more more' s s' c1 (Carried tail ends (argumentLoose operand))) :
    Follows tail
      (do match ← rules.command with
          | some n => pure (wrapCurly n)
          | none => more)
      (do match ← grammar.command with
          | some n => pure (wrapCurly n)
          | none => more') s s' c (Carried tail ends (argumentLoose operand)) := by
  refine (h.command hk hs hc).bind_carried ?_ ?_
  · intro o c1 hc1 hloose
    cases o with
    | none => exact hmore hc1
    | some n => exact follows_pure (.same hc1 hloose)
  · intro o o' c1 c1' hc1 hend hends hloose hloose' hrest
    obtain ⟨n, rfl, hn⟩ := Option.map_eq_some_iff.mp hloose
    obtain ⟨n', rfl, hn'⟩ := Option.map_eq_some_iff.mp hloose'
    exact yields_pure.mpr (.grown hc1 hend hends (congrArg some hn) (congrArg some hn') hrest)

theorem operand_carried (hb : Boundary halt tail) (h : rules.Carrying halt tail ends)
    (hs : s.Fits tail s') (hc : c.Apart tail ends) :
    Follows tail (operand rules) (operand grammar) s s' c
      (Carried tail ends (argumentLoose true)) := by
  by_cases hne : c.rest = []
  · exact follows_of_yields (operand_needs c hne)
  unfold operand
  refine follows_peek hne ?_
  split
  · rename_i hk
    refine (groupContents_follows h hs hc hk).bind_steady ?_
    rintro ⟨nodes, span⟩ c1 hc1 hshut
    exact follows_pure (Steady.carried ⟨hc1, hshut, rfl⟩)
  · rename_i k _ hk
    exact (group_follows h hs hc hk).carried
  · rename_i hk
    exact (absolute_follows h hs hc hk).carried
  · rename_i hk
    exact wrapped_carried h hs hc hk fun hc1 => h.operand hs hc1
  · exact follows_ite (fun _ => run_carried hb hc hne _) fun _ =>
      follows_of_yields yields_unexpected
  · exact follows_of_yields yields_unexpected

theorem scriptArg_carried (h : rules.Carrying halt tail ends) (hs : s.Fits tail s')
    (hc : c.Apart tail ends) :
    Follows tail (scriptArg rules) (scriptArg grammar) s s' c
      (Carried tail ends (argumentLoose false)) := by
  by_cases hne : c.rest = []
  · exact follows_of_yields (scriptArg_needs c hne)
  unfold scriptArg
  refine follows_peek hne ?_
  split
  · rename_i hk
    exact (group_follows h hs hc hk).carried
  · exact follows_next hne (follows_pure (.same (hc.reads c.reads_tail) fun _ _ => rfl))
  · rename_i hk
    exact wrapped_carried h hs hc hk fun hc1 => h.scriptArg hs hc1
  · exact follows_of_yields yields_unexpected

/-! ## Functions -/

/-- How a construct ends. -/
def nodeLoose (n : Node) : Option Bool := some n.isLoose

/-- The last argument of a function. -/
theorem function_carried {p p' : Parser Node} {name : FunctionName} {operand : Bool}
    (hname : name.takesOperand = operand) (args : List Node) (exponent : Option Node) (start : Int)
    (hp : Follows tail p p' s s' c (Carried tail ends (argumentLoose operand))) :
    Follows tail
      (do let a ← p
          pure (Node.function name (args ++ [a]) exponent ⟨start, ← lastStop⟩))
      (do let a ← p'
          pure (Node.function name (args ++ [a]) exponent ⟨start, ← lastStop⟩))
      s s' c (Carried tail ends nodeLoose) := by
  refine hp.finish (k := fun a n => Node.function name (args ++ [a]) exponent ⟨start, n⟩)
    fun a n => ?_
  rw [nodeLoose, Node.isLoose, Node.lastLoose_append, hname]
  rfl

theorem unary_carried {name : FunctionName} (h : rules.Carrying halt tail ends)
    (hs : s.Fits tail s') (hc : c.Apart tail ends) (hne : c.rest ≠ [])
    (hname : name.takesOperand = false) :
    Follows tail (unary rules name) (unary grammar name) s s' c (Carried tail ends nodeLoose) := by
  unfold unary
  refine follows_next hne ?_
  exact function_carried hname [] none _ (scriptArg_carried h hs (hc.reads c.reads_tail))

/-- Two arguments behind the token of a command. -/
theorem pair_carried {name : FunctionName} {start : Nat} (h : rules.Carrying halt tail ends)
    (hs : s.Fits tail s') (hc : c.Apart tail ends) (hname : name.takesOperand = false) :
    Follows tail
      (do let first ← scriptArg rules
          let second ← scriptArg rules
          pure (Node.function name [first, second] none ⟨start, ← lastStop⟩))
      (do let first ← scriptArg grammar
          let second ← scriptArg grammar
          pure (Node.function name [first, second] none ⟨start, ← lastStop⟩))
      s s' c (Carried tail ends nodeLoose) := by
  refine (scriptArg_carried h hs hc).inside.bind_needs
    (fun _ => scriptArg_needs.bind) fun first c1 hc1 _ => ?_
  exact function_carried hname [first] none _ (scriptArg_carried h hs hc1)

theorem token_finish {size : Nat} (hc : c.rest = []) : c.token size 0 = Token.finish size := by
  rw [Cursor.token, hc]
  rfl

theorem named_carried {name : Text} (hb : Boundary halt tail) (h : rules.Carrying halt tail ends)
    (hs : s.Fits tail s') (hc : c.Apart tail ends) (hne : c.rest ≠ []) :
    Follows tail (named rules name) (named grammar name) s s' c (Carried tail ends nodeLoose) := by
  have hc1 := hc.reads c.reads_tail
  unfold named
  refine follows_next hne ?_
  by_cases hend : c.tail.rest = []
  · refine follows_of_yields ?_
    rw [yields_peek, token_finish hend]
    exact yields_pure_bind.mpr (operand_needs.bind _ hend)
  refine follows_peek hend ?_
  dsimp only
  split
  · refine follows_next hend ?_
    refine (scriptArg_carried h hs (hc1.reads c.tail.reads_tail)).inside.map_inside.bind_needs
      (fun _ => operand_needs.bind) fun exponent c2 hc2 _ => ?_
    exact function_carried rfl [_] exponent _ (operand_carried hb h hs hc2)
  · exact function_carried rfl [_] none _ (operand_carried hb h hs hc1)

theorem fraction_carried (hb : Boundary halt tail) (h : rules.Carrying halt tail ends)
    (hs : s.Fits tail s') (hc : c.Apart tail ends) (hne : c.rest ≠ []) :
    Follows tail (fraction rules) (fraction grammar) s s' c (Carried tail ends nodeLoose) := by
  have hc1 := hc.reads c.reads_tail
  unfold fraction
  refine follows_next hne (follows_lookahead ?_)
  rw [derivativeHead?_followed hb]
  split
  · rename_i d x hd
    refine follows_skip (derivativeHead?_kinds hd).1 ?_
    exact function_carried rfl [_, _] none _
      (operand_carried hb h hs (hc1.reads (c.tail.reads_skip 7)))
  · exact pair_carried h hs hc1 rfl

theorem root_carried (h : rules.Carrying halt tail ends) (hs : s.Fits tail s')
    (hc : c.Apart tail ends) (hne : c.rest ≠ []) :
    Follows tail (root rules) (root grammar) s s' c (Carried tail ends nodeLoose) := by
  have hc1 := hc.reads c.reads_tail
  unfold root
  refine follows_next hne ?_
  by_cases hend : c.tail.rest = []
  · refine follows_of_yields ?_
    rw [yields_peek, token_finish hend]
    exact yields_pure_bind.mpr (scriptArg_needs.bind _ hend)
  refine follows_peek hend ?_
  dsimp only
  split
  · rename_i hk
    refine (group_follows h hs hc1 hk).of_steady.map_inside.bind_needs
      (fun _ => scriptArg_needs.bind) fun degree c2 hc2 _ => ?_
    exact function_carried rfl degree.toList none _ (scriptArg_carried h hs hc2)
  · exact function_carried rfl [] none _ (scriptArg_carried h hs hc1)

/-! ## Scripts, integrals, limits and logarithms -/

theorem script_inside {subAllowed : Bool} {r : Scripts} (h : rules.Carrying halt tail ends)
    (hf : rules.Framing) (hs : s.Fits tail s') (hc : c.Apart tail ends) :
    Follows tail (script rules subAllowed r) (script grammar subAllowed r) s s' c
      (Inside tail ends) := by
  by_cases hne : c.rest = []
  · exact fun r' c1 hrun => inside_of_frames hne (script_frames hf r' c1 hrun) r' _
  have arg := (scriptArg_carried h hs (hc.reads c.reads_tail)).inside
  unfold script
  refine follows_peek hne (follows_ite (fun _ => ?_) fun _ => follows_ite (fun _ => ?_) fun _ => ?_)
  · exact follows_next hne arg.map_inside
  · exact follows_next hne arg.map_inside
  · exact follows_pure fun _ => ⟨hc, rfl⟩

theorem follows_skipLimits {β : Type} {f f' : Unit → Parser β}
    {post : β → Cursor → Except Halt (β × Cursor) → Prop} (hb : Boundary halt tail)
    (hc : c.Apart tail ends)
    (h : ∀ c1, c1.Apart tail ends → Follows tail (f ()) (f' ()) s s' c1 post) :
    Follows tail (skipLimits >>= f) (skipLimits >>= f') s s' c post := by
  obtain ⟨u, behind, rfl, hu⟩ := hb.head
  have hsame := takeWhile_followed (p := (·.isCommand ["limits"])) c.rest
    (hu.not_command (by simp)) behind
  have hrun : skipLimits s c
      = .ok ((), c.skip (c.rest.takeWhile (·.isCommand ["limits"])).length) := skip_eq _
  have hrun' : skipLimits s' (c.followed (u :: behind))
      = .ok ((), (c.followed (u :: behind)).skip
        ((c.rest ++ u :: behind).takeWhile (·.isCommand ["limits"])).length) := skip_eq _
  rw [hsame, Cursor.followed_skip (List.takeWhile_prefix _).length_le] at hrun'
  exact follows_of_ok hrun hrun' (h _ (hc.reads (c.reads_skip _)))

theorem integralBody_inside (h : rules.Carrying halt tail ends) (hf : rules.Framing)
    (hs : s.Fits tail s') (hc : c.Apart tail ends) :
    Follows tail (integralBody rules) (integralBody grammar) s s' c (Inside tail ends) := by
  by_cases hne : c.rest = []
  · exact fun n c1 hrun => inside_of_frames hne (integralBody_frames hf n c1 hrun) n _
  unfold integralBody
  refine follows_peek hne (follows_ite (fun hk => (group_follows h hs hc hk).of_steady) fun _ => ?_)
  refine (h.inner (by simp) (by simp) hs hc).bind_inside (fun nodes c1 hend => ?_)
    fun nodes c1 hc1 hne1 => follows_peek hne1 (follows_pure fun _ => ⟨hc1, rfl⟩)
  rw [yields_peek]
  exact yields_pure.mpr (inside_of_frames hend (.refl c1) _)

/-- The differential of an integral behind its body. -/
theorem differential_needs {k : Token → Node} :
    Needs (do
      let d ← peek
      let letter ← peekAt 1
      if d.isChar "d" && letter.isLetter then do
        Parser.skip 2
        pure (k letter)
      else unexpected d ["differential"]) s := by
  rintro ⟨rest, stop⟩ hc
  cases hc
  exact yields_of_error rfl

theorem differential_follows {k : Token → Node} (hc : c.Apart tail ends) (hne : c.rest ≠ [])
    (hk : ∀ letter, (k letter).isLoose = false) :
    Follows tail
      (do let d ← peek
          let letter ← peekAt 1
          if d.isChar "d" && letter.isLetter then do
            Parser.skip 2
            pure (k letter)
          else unexpected d ["differential"])
      (do let d ← peek
          let letter ← peekAt 1
          if d.isChar "d" && letter.isLetter then do
            Parser.skip 2
            pure (k letter)
          else unexpected d ["differential"]) s s' c (Carried tail ends nodeLoose) := by
  by_cases hlen : 1 < c.rest.length
  · refine follows_peek hne (follows_peekAt hlen (follows_ite (fun _ => ?_) fun _ =>
      follows_of_yields yields_unexpected))
    refine follows_skip hlen (follows_pure (.same (hc.reads (c.reads_skip 2)) fun _ _ => ?_))
    exact congrArg some (hk _)
  · -- the letter would have to stand behind the end of the text
    refine follows_of_yields ?_
    have hfinish : c.token s.text.length 1 = Token.finish s.text.length := by
      rw [Cursor.token, List.getElem?_eq_none (Nat.le_of_not_lt hlen)]
      rfl
    rw [yields_peek, yields_peekAt, hfinish]
    refine yields_ite (fun hd => ?_) fun _ => yields_unexpected
    exact absurd (Bool.and_eq_true_iff.mp hd).2 (by simp [Token.isLetter, Token.finish])

theorem skipLimits_frames : Yields skipLimits s c fun _ c' => c.Frames c' := by
  intro u c1 hrun
  rw [show skipLimits s c
    = .ok ((), c.skip (c.rest.takeWhile (·.isCommand ["limits"])).length) from skip_eq _] at hrun
  cases hrun
  exact Cursor.frames_takeWhile fun t ht => plain_of_isCommand ht (by decide)

theorem integral_carried (hb : Boundary halt tail) (h : rules.Carrying halt tail ends)
    (hf : rules.Framing) (hs : s.Fits tail s') (hc : c.Apart tail ends) (hne : c.rest ≠ []) :
    Follows tail (integral rules) (integral grammar) s s' c (Carried tail ends nodeLoose) := by
  have limits : ∀ c, Yields skipLimits s c fun _ c' => c.Frames c' := fun _ => skipLimits_frames
  have body : ∀ c, Yields (integralBody rules) s c fun _ c' => c.Frames c' := fun _ =>
    integralBody_frames hf
  unfold integral
  refine follows_next hne ?_
  refine follows_skipLimits hb (hc.reads c.reads_tail) fun c1 hc1 => ?_
  refine (script_inside h hf hs hc1).bind_needs (fun one => needs_bind limits fun _ =>
    needs_bind (fun _ => script_frames hf) fun both => needs_bind limits fun _ =>
      needs_ite (fun _ _ => yields_peek.mpr yields_failAt)
        (needs_bind body fun _ => differential_needs)) fun one c2 hc2 _ => ?_
  refine follows_skipLimits hb hc2 fun c3 hc3 => ?_
  refine (script_inside h hf hs hc3).bind_needs (fun both => needs_bind limits fun _ =>
      needs_ite (fun _ _ => yields_peek.mpr yields_failAt)
        (needs_bind body fun _ => differential_needs)) fun both c4 hc4 _ => ?_
  refine follows_skipLimits hb hc4 fun c5 hc5 => ?_
  refine follows_ite (fun _ => follows_of_yields (yields_peek.mpr yields_failAt)) fun _ => ?_
  refine (integralBody_inside h hf hs hc5).bind_needs (fun _ => differential_needs)
    fun body c6 hc6 hne6 => differential_follows hc6 hne6 fun letter => ?_
  -- the last argument of an integral is its variable
  rw [Node.isLoose, List.append_cons, Node.lastLoose_append]
  rfl

theorem limit_carried (hb : Boundary halt tail) (h : rules.Carrying halt tail ends)
    (hs : s.Fits tail s') (hc : c.Apart tail ends) (hne : c.rest ≠ []) :
    Follows tail (limit rules) (limit grammar) s s' c (Carried tail ends nodeLoose) := by
  have hc1 := hc.reads c.reads_tail
  have hc2 := hc1.reads c.tail.reads_tail
  have hc3 := hc2.reads c.tail.tail.reads_tail
  unfold limit
  refine follows_next hne (follows_expect (by simp) fun _ _ => ?_)
  refine follows_expect (by simp) fun _ _ => ?_
  refine (h.inner (by simp) (by simp) hs hc3).bind_needs (fun name => ?_) fun name c4 hc4 hne4 => ?_
  · rintro ⟨rest, stop⟩ hnil
    cases hnil
    exact yields_of_error rfl
  refine follows_peek hne4 (follows_ite (fun _ => ?_) fun _ => follows_of_yields yields_unexpected)
  refine follows_next hne4 ?_
  refine (h.inner (by simp) (by simp) hs (hc4.reads c4.reads_tail)).bind_needs
    (fun target => (needs_expect (by simp)).bind) fun target c5 hc5 _ => ?_
  refine follows_expect (by simp) fun _ _ => ?_
  exact function_carried rfl [_, _] none _ (operand_carried hb h hs (hc5.reads c5.reads_tail))

theorem logarithm_carried (hb : Boundary halt tail) (h : rules.Carrying halt tail ends)
    (hf : rules.Framing) (hs : s.Fits tail s') (hc : c.Apart tail ends) (hne : c.rest ≠ []) :
    Follows tail (logarithm rules) (logarithm grammar) s s' c (Carried tail ends nodeLoose) := by
  unfold logarithm
  refine follows_next hne ?_
  refine (script_inside h hf hs (hc.reads c.reads_tail)).bind_needs
    (fun one => needs_bind (fun _ => script_frames hf) fun both => operand_needs.bind)
    fun one c1 hc1 _ => ?_
  refine (script_inside h hf hs hc1).bind_needs (fun both => operand_needs.bind)
    fun both c2 hc2 _ => ?_
  have arg := operand_carried hb h hs hc2
  cases both.sub with
  | some base => exact function_carried rfl [base] both.super _ arg
  | none =>
      dsimp only
      split
      · exact function_carried rfl [] both.super _ arg
      · exact function_carried rfl [] both.super _ arg

/-! ## Environments -/

theorem environmentName_needs : Needs environmentName s := (needs_expect (by simp)).bind

theorem takeWhile_closed {p : Token → Bool} {xs rest : List Token} {z : Token}
    (hx : ∀ t ∈ xs, p t = true) (hz : p z = false) : (xs ++ z :: rest).takeWhile p = xs := by
  rw [List.takeWhile_append_of_pos hx, List.takeWhile_cons_of_neg (by simp [hz]), List.append_nil]

theorem environmentName_follows (hc : c.Apart tail ends) :
    Follows tail environmentName environmentName s s' c (Steady tail ends (Shut ends)) := by
  -- a name that is read has a closing brace in the text
  refine follows_of_success (P := ∃ o letters z rest, c.rest = o :: (letters ++ z :: rest)
    ∧ (∀ t ∈ letters, t.kind = .char) ∧ z.kind = .closing .curly) ?_ ?_
  · refine environmentName_named.mono ?_
    rintro r c1 ⟨xs, hxs, hnamed⟩
    cases hnamed with
    | @intro o z letters _ hletters _ hz =>
        refine ⟨o, letters, z, c1.rest, ?_, hletters, hz⟩
        rw [hxs]
        simp
  rintro ⟨o, letters, z, rest, hrest, hletters, hz⟩
  have htail : c.tail.rest = letters ++ z :: rest := by
    unfold Cursor.tail
    rw [hrest]
  have hrun : ∀ behind : List Token,
      (c.tail.rest ++ behind).takeWhile (·.kind == .char) = letters := by
    intro behind
    rw [htail, List.append_assoc, List.cons_append]
    exact takeWhile_closed (fun t ht => by rw [hletters t ht]; rfl) (by rw [hz]; rfl)
  have hrun' := hrun []
  rw [List.append_nil] at hrun'
  have hc1 := hc.reads c.reads_tail
  unfold environmentName
  refine follows_expect (by simp) fun _ _ => ?_
  refine follows_peek (by rw [htail]; simp) (follows_lookahead ?_)
  rw [hrun, hrun']
  refine follows_skip (by rw [htail, List.length_append]; omega) ?_
  refine follows_expect (by simp) fun hclose _ => follows_pure ?_
  have hc2 := hc1.reads (c.tail.reads_skip letters.length)
  exact ⟨hc2.reads (Cursor.reads_tail _), hc2.closed_tail hclose (by simp) (by simp), rfl⟩

theorem rows_needs {matrix : Bool} {name : Text} {row before : List Node} (hf : rules.Framing) :
    Needs (rules.rows matrix name row before) s := by
  intro c hc
  refine hf.rows.mono ?_
  rintro cells c1 ⟨xs, e, hrest, -, -⟩
  rw [hc] at hrest
  exact absurd hrest (by simp)

theorem rows_inside {matrix : Bool} {name : Text} {row before : List Node}
    (h : rules.Carrying halt tail ends) (hf : rules.Framing) (hs : s.Fits tail s')
    (hc : c.Apart tail ends) :
    Follows tail (rows rules matrix name row before) (rows grammar matrix name row before) s s' c
      (Inside tail ends) := by
  by_cases hne : c.rest = []
  · exact follows_of_yields (rows_needs hf.unfold c hne)
  unfold rows
  refine follows_peek hne ?_
  refine (h.inner (by simp) (by simp [Stop.Definable]) hs hc).rewordAtEnd.bind_needs
    (fun nodes c1 hend => ?_) fun nodes c1 hc1 hne1 => ?_
  · -- the end of the text separates nothing, and there are no rows behind it
    have hfinish : (c1.token s.text.length 0).kind = .finish := by rw [token_finish hend]; rfl
    rw [yields_peek, yields_next, hfinish]
    refine yields_ite (fun hk => absurd hk (by simp)) fun _ => ?_
    refine yields_ite (fun hk => absurd hk (by simp)) fun _ => ?_
    refine rows_needs hf c1.tail ?_
    rw [← List.length_eq_zero_iff, c1.tail_length, hend]
    rfl
  have hc2 := hc1.reads c1.reads_tail
  refine follows_peek hne1 (follows_next hne1 ?_)
  refine follows_ite (fun _ => h.rows hs hc2) fun _ => ?_
  exact follows_ite (fun _ => follows_pure fun _ => ⟨hc2, rfl⟩) fun _ => h.rows hs hc2

theorem environment_follows (h : rules.Carrying halt tail ends) (hf : rules.Framing)
    (hs : s.Fits tail s') (hc : c.Apart tail ends) (hne : c.rest ≠ []) :
    Follows tail (environment rules) (environment grammar) s s' c
      (Steady tail ends (Shut ends)) := by
  unfold environment
  refine follows_next hne ((environmentName_follows (hc.reads c.reads_tail)).bind_steady ?_)
  rintro ⟨name, nameStart⟩ c1 hc1 -
  dsimp only
  split
  · exact follows_of_yields (yields_lastStop.mpr yields_failAt)
  rename_i type htype
  -- the rows and the end, with or without the columns of an array before them
  have rest : ∀ (start : Nat) (c2 : Cursor), c2.Apart tail ends →
      Follows tail
        (do let cells ← rules.rows (type == .determinant) name [] []
            let last ← environmentName
            if last.1 = name then pure (Node.environment type cells ⟨start, ← lastStop⟩)
            else
              failAt last.2 (← lastStop) last.1
                ("\\begin\x7b" ++ name ++ "\x7d ended by \\end\x7b" ++ last.1 ++ "\x7d"))
        (do let cells ← grammar.rows (type == .determinant) name [] []
            let last ← environmentName
            if last.1 = name then pure (Node.environment type cells ⟨start, ← lastStop⟩)
            else
              failAt last.2 (← lastStop) last.1
                ("\\begin\x7b" ++ name ++ "\x7d ended by \\end\x7b" ++ last.1 ++ "\x7d"))
        s s' c2 (Steady tail ends (Shut ends)) := by
    intro start c2 hc2
    refine (h.rows hs hc2).bind_needs (fun cells => environmentName_needs.bind)
      fun cells c3 hc3 _ => ?_
    refine (environmentName_follows hc3).bind_steady fun last c4 hc4 hshut => ?_
    refine follows_ite (fun _ => follows_lastStop (follows_pure ⟨hc4, hshut, rfl⟩)) fun _ => ?_
    exact follows_of_yields (yields_lastStop.mpr yields_failAt)
  by_cases hend : c1.rest = []
  · refine follows_of_yields ?_
    rw [yields_peek, token_finish hend, if_neg (by simp [Token.finish])]
    exact (rows_needs hf).bind c1 hend
  refine follows_peek hend ?_
  split
  · rename_i hcolumns
    exact (group_follows h hs hc1 hcolumns.2).bind_steady fun _ c2 hc2 _ => rest _ c2 hc2
  · exact rest _ c1 hc1

/-! ## The grammar -/

theorem command_carried (hb : Boundary halt tail) (h : rules.Carrying halt tail ends)
    (hf : rules.Framing) (hs : s.Fits tail s') (hc : c.Apart tail ends)
    (hk : (c.token s.text.length 0).kind = .command) :
    Follows tail (command rules) (command grammar) s s' c (Carried tail ends constructLoose) := by
  have hne := c.rest_ne_nil hk (by simp)
  -- a command that is a construct of its own
  have alone : ∀ o : Option Node,
      Follows tail (do let _ ← next; pure o) (do let _ ← next; pure o) s s' c
        (Carried tail ends constructLoose) := by
    intro o
    refine Follows.carried (follows_next hne (follows_pure ?_))
    exact ⟨hc.reads c.reads_tail, hc.closed_tail hk (by simp) (by simp), rfl⟩
  have some_carried : ∀ {p p' : Parser Node},
      Follows tail p p' s s' c (Carried tail ends nodeLoose) →
      Follows tail (some <$> p) (some <$> p') s s' c (Carried tail ends constructLoose) :=
    fun hp => hp.map fun _ => rfl
  unfold command
  refine follows_peek hne ?_
  refine follows_ite (fun _ => alone none) fun _ => ?_
  refine follows_ite (fun _ => alone (some _)) fun _ => ?_
  split
  · exact some_carried (named_carried hb h hs hc hne)
  · refine follows_ite (fun _ => some_carried (fraction_carried hb h hs hc hne)) fun _ => ?_
    refine follows_ite (fun _ => some_carried (root_carried h hs hc hne)) fun _ => ?_
    refine follows_ite (fun _ => some_carried (integral_carried hb h hf hs hc hne)) fun _ => ?_
    refine follows_ite (fun _ => some_carried (limit_carried hb h hs hc hne)) fun _ => ?_
    refine follows_ite (fun _ => some_carried (logarithm_carried hb h hf hs hc hne)) fun _ => ?_
    refine follows_ite (fun _ => some_carried ?_) fun _ => ?_
    · exact follows_next hne (pair_carried h hs (hc.reads c.reads_tail) rfl)
    refine follows_ite (fun _ => some_carried (unary_carried h hs hc hne rfl)) fun _ => ?_
    refine follows_ite (fun _ => some_carried (environment_follows h hf hs hc hne).carried)
      fun _ => ?_
    exact follows_of_yields yields_failAt

theorem not_isCommand {t : Token} {name : Text} {names : List Text} (ht : t.text = name)
    (hname : name ∉ names) : ¬ t.isCommand names = true := by
  intro h
  have hmem := (isCommand_iff.mp h).2
  rw [ht] at hmem
  exact hname hmem

/-- The end of an environment is no construct. -/
theorem command_refused (hend : (c.token s.text.length 0).isCommand ["end"] = true) :
    Yields (command rules) s c fun _ _ => False := by
  have htext := List.mem_singleton.mp (isCommand_iff.mp hend).2
  have other : ∀ {names : List Text} {p : Parser (Option Node)}, Text.ofString "end" ∉ names →
      (c.token s.text.length 0).isCommand names = true → Yields p s c fun _ _ => False :=
    fun hnames hcommand => absurd hcommand (not_isCommand htext hnames)
  unfold command
  rw [yields_peek]
  simp only [htext]
  rw [if_neg (by decide), if_neg (by decide)]
  refine yields_ite (other (by decide)) fun _ => yields_ite (other (by decide)) fun _ => ?_
  refine yields_ite (other (by decide)) fun _ => yields_ite (other (by decide)) fun _ => ?_
  refine yields_ite (other (by decide)) fun _ => yields_ite (other (by decide)) fun _ => ?_
  refine yields_ite (other (by decide)) fun _ => yields_ite (other (by decide)) fun _ => ?_
  exact yields_failAt

/-- One more unfolding carries. -/
theorem Rules.Carrying.unfold (hb : Boundary halt tail) (h : rules.Carrying halt tail ends)
    (hf : rules.Framing) : rules.unfold.Carrying halt tail ends where
  inner hstop hdefinable hs hc := by
    rw [← grammar_unfold]
    exact sequence_inside hb h hf hs hc hstop hdefinable
  outer hdefinable hs hc := by
    rw [← grammar_unfold]
    exact sequence_carried hb h hf hs hc hdefinable
  innerItems hstop hs hc := by
    rw [← grammar_unfold]
    exact items_inside hb h hf hs hc hstop
  outerItems hs hc hshut := by
    rw [← grammar_unfold]
    exact items_carried hb h hs hc hshut
  finished hc := items_finished hc
  command hk hs hc := by
    rw [← grammar_unfold]
    exact command_carried hb h hf hs hc hk
  refused hend := command_refused hend
  operand hs hc := by
    rw [← grammar_unfold]
    exact operand_carried hb h hs hc
  scriptArg hs hc := by
    rw [← grammar_unfold]
    exact scriptArg_carried h hs hc
  rows hs hc := by
    rw [← grammar_unfold]
    exact rows_inside h hf hs hc

theorem rulesTo_carrying (hb : Boundary halt tail) (n : Nat) :
    (rulesTo n).Carrying halt tail ends := by
  induction n with
  | zero =>
      constructor
      all_goals intros; first
        | exact follows_of_yields yields_spent
        | exact yields_spent
  | succ n ih => exact ih.unfold hb (rulesTo_framing n)

end MathMarkup.Grammar
