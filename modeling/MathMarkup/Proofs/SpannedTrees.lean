import MathMarkup.Proofs.Arguments
import MathMarkup.Proofs.SpannedSequences

/-!
# Spans of a tree

A command is read together with its arguments, and the function it stands for spans all of them. A
function may have another name in the output than in the text, but never a wider one than the
command, so its characters fit where the command stood (`namedFunctions_extent`).

With commands and environments every production lies in what it read, however often the grammar is
unfolded (`rulesTo_spanning`), and so the spans of an accepted text nest (`spans_nest`).
-/

namespace MathMarkup

/-- Whatever stands in a tree lies between the bounds of the tree. -/
theorem Node.Occurs.spanned {m n : Node} {lo hi : Int} (ho : Occurs m n) (h : Spanned lo hi n) :
    Spanned lo hi m := by
  induction ho generalizing lo hi with
  | here => exact h
  | child hc _ ih =>
      obtain ⟨hlo, -, hhi, -, hchildren⟩ := h
      exact (ih (hchildren _ hc)).mono hlo hhi

namespace Grammar

open MathMarkup.Grammar.Parser
open MathMarkup.Node (Spanned SpannedAll spannedAll_nil Occurs)

variable {rules : Rules} {s : Scope} {c c' : Cursor} {size : Nat}

/-! ## The token of a command -/

/-- The cursor stands at a command whose name is ASCII. -/
structure Cursor.AtCommand (size : Nat) (c : Cursor) : Prop where
  placed : c.Placed size
  kind : (c.token size 0).kind = .command
  tame : (c.token size 0).Tame

theorem Cursor.AtCommand.past (hc : c.AtCommand size) : c.Past c.tail :=
  c.past_tail hc.kind (by simp)

theorem Cursor.AtCommand.tail (hc : c.AtCommand size) : c.tail.Placed size := hc.placed.tail hc.tame

theorem Cursor.AtCommand.front_le (hc : c.AtCommand size) (hr : c.tail.Reads c') :
    (c.front size : Int) ≤ c'.front size :=
  Int.ofNat_le.mpr ((c.reads_tail.trans hr).front_le hc.placed.sound)

/-- The token of a command ends before everything read behind it. -/
theorem Cursor.AtCommand.stop_le (hc : c.AtCommand size) (hr : c.tail.Reads c') :
    (c.token size 0).stop ≤ c'.lastStop := by
  rw [← Cursor.tail_lastStop hc.kind (by simp)]
  exact hr.lastStop_le hc.tail.sound

/-- What lies behind the command lies in everything read with it. -/
theorem Cursor.AtCommand.within {n : Node} {c1 c2 : Cursor} (hc : c.AtCommand size)
    (hn : Spanned c1.lastStop c2.lastStop n) (hc2 : c2.Placed size) (hbefore : c.tail.Reads c1)
    (hbehind : c2.Reads c') : Spanned (c.front size) c'.lastStop n := by
  have hstart := (hc.placed.sound.token_place 0).2.1
  have hstop := hc.stop_le hbefore
  have hend := hbehind.lastStop_le hc2.sound
  refine hn.mono ?_ (Int.ofNat_le.mpr hend)
  exact Int.ofNat_le.mpr (Nat.le_trans hstart hstop)

/-- A name that stands for the command lies in everything read with it. -/
theorem Cursor.AtCommand.spanned {name : Text} (hc : c.AtCommand size) (hr : c.tail.Reads c')
    (hname : extent name ≤ (c.token size 0).text.length + 1) :
    Spanned (c.front size) c'.lastStop (unitAt name (c.token size 0).span) := by
  have hwidth := (hc.placed.token_fits hc.tame).command hc.kind
  have hstop := hc.stop_le hr
  refine spanned_unitAt (Int.le_refl _) ?_ ?_
  · show ((c.token size 0).stop : Int) ≤ c'.lastStop
    omega
  · show ((c.token size 0).start : Int) + extent name ≤ (c.token size 0).stop
    omega

theorem unary_spans {name : FunctionName} (h : rules.Spanning) (hc : c.AtCommand s.text.length) :
    Yields (unary rules name) s c (Spans s.text.length c) := by
  unfold unary
  rw [yields_next]
  refine Yields.bind (scriptArg_spans h hc.tail) fun arg c1 h1 => ?_
  rw [yields_lastStop]
  have harg := h1.within hc.placed c.reads_tail (.refl _)
  exact yields_pure.mpr (spans_function hc.placed (hc.past.reads h1.past.1) h1.placed
    (Node.SpannedAll.cons harg spannedAll_nil) (by simp))

/-- Two arguments behind the token of a command. -/
theorem pair_spans {name : FunctionName} (h : rules.Spanning) (hc : c.AtCommand s.text.length) :
    Yields (do
        let first ← scriptArg rules
        let second ← scriptArg rules
        pure (Node.function name [first, second] none
          ⟨(c.token s.text.length 0).start, ← lastStop⟩)) s c.tail (Spans s.text.length c) := by
  refine Yields.bind (scriptArg_spans h hc.tail) fun first c1 h1 => ?_
  refine Yields.bind (scriptArg_spans h h1.placed) fun second c2 h2 => ?_
  rw [yields_lastStop]
  have hfirst := h1.within hc.placed c.reads_tail h2.past.1
  have hsecond := h2.within hc.placed (c.reads_tail.trans h1.past.1) (.refl _)
  exact yields_pure.mpr (spans_function hc.placed (hc.past.reads (h1.past.1.trans h2.past.1))
    h2.placed (Node.SpannedAll.cons hfirst (Node.SpannedAll.cons hsecond spannedAll_nil)) (by simp))

theorem named_spans {name : Text} (h : rules.Spanning) (hc : c.AtCommand s.text.length)
    (hname : extent name ≤ (c.token s.text.length 0).text.length + 1) :
    Yields (named rules name) s c (Spans s.text.length c) := by
  -- the argument behind the name, with or without an exponent
  have rest : ∀ (exponent : Option Node) (c1 : Cursor), c.tail.Reads c1 →
      c1.Placed s.text.length →
      (∀ e ∈ exponent, Spanned (c.front s.text.length) c1.lastStop e) →
      Yields (do
          let arg ← operand rules
          pure (Node.function .regular [unitAt name (c.token s.text.length 0).span, arg] exponent
            ⟨(c.token s.text.length 0).start, ← lastStop⟩)) s c1 (Spans s.text.length c) := by
    intro exponent c1 hr hc1 hexponent
    refine Yields.bind (operand_spans h hc1) fun arg c2 h2 => ?_
    rw [yields_lastStop]
    have hr2 := hr.trans h2.past.1
    have harg := h2.within hc.placed (c.reads_tail.trans hr) (.refl _)
    have hstop := h2.past.1.lastStop_le hc1.sound
    refine yields_pure.mpr (spans_function hc.placed (hc.past.reads hr2) h2.placed
      (Node.SpannedAll.cons (hc.spanned hr2 hname) (Node.SpannedAll.cons harg spannedAll_nil)) ?_)
    exact fun e he => (hexponent e he).mono (Int.le_refl _) (by omega)
  unfold named
  rw [yields_next, yields_peek]
  dsimp only
  split
  · rename_i hcaret
    rw [yields_next]
    have hc1 := hc.tail.tail (tame_of_kind hcaret (by simp))
    have hr1 := c.tail.reads_tail
    refine Yields.bind (P := fun e c' => c.tail.Reads c' ∧ c'.Placed s.text.length
      ∧ ∀ n ∈ e, Spanned (c.front s.text.length) c'.lastStop n) ?_
      fun e c1 h1 => rest e c1 h1.1 h1.2.1 h1.2.2
    refine (scriptArg_spans h hc1).map fun n c1 h1 => ⟨hr1.trans h1.past.1, h1.placed, ?_⟩
    exact Node.spanned_some (h1.within hc.placed (c.reads_tail.trans hr1) (.refl _))
  · exact yields_pure_bind.mpr (rest none c.tail (.refl _) hc.tail (by simp))

/-- A literal token among those that are read over lies in them. -/
theorem skipped_spanned {xs ys : List Token} {t : Token} {n : Nat} (hc : c.Placed size)
    (hrest : c.rest = xs ++ ys) (htame : ∀ u ∈ xs, u.Tame) (ht : xs[n]? = some t)
    (hk : t.kind = .char) :
    Spanned c.lastStop (c.skip xs.length).lastStop (unitAt t.text t.span) := by
  obtain ⟨hlt, rfl⟩ := List.getElem?_eq_some_iff.mp ht
  have hmem : c.rest[n]? = some xs[n] := by
    rw [hrest, List.getElem?_append_left hlt]
    exact ht
  have htoken : c.token size n = xs[n] := by
    unfold Cursor.token
    rw [hmem]
    rfl
  obtain ⟨-, -, hfits⟩ := hc.skip hrest htame
  have hwidth := (hfits _ (List.getElem_mem hlt)).literal (Or.inl hk)
  have hstart := (hc.sound.token_place n).1
  have hstop := hc.sound.stop_le_skip hmem hlt
  rw [htoken] at hstart
  refine spanned_unitAt ?_ ?_ hwidth
  · exact Int.ofNat_le.mpr hstart
  · exact Int.ofNat_le.mpr hstop

theorem fraction_spans (h : rules.Spanning) (hc : c.AtCommand s.text.length) :
    Yields (fraction rules) s c (Spans s.text.length c) := by
  unfold fraction
  rw [yields_next, yields_lookahead]
  split
  · rename_i d x hd
    obtain ⟨a, b, o, e, z, ts, hsplit, ha, hd, hb, ho, he, hx, hz⟩ := derivativeHead?_split hd
    have hrest : c.tail.rest = [a, d, b, o, e, x, z] ++ ts := hsplit
    have htame : ∀ u ∈ [a, d, b, o, e, x, z], u.Tame := by
      simp [tame_of_kind ha, tame_of_isChar hd, tame_of_kind hb, tame_of_kind ho, tame_of_isChar he,
        tame_of_kind (Token.isLetter_char hx), tame_of_kind hz]
    obtain ⟨hc1, -, -⟩ := hc.tail.skip hrest htame
    have hsign := skipped_spanned hc.tail hrest htame (n := 1) rfl (Token.isChar_char hd)
    have hletter := skipped_spanned hc.tail hrest htame (n := 5) rfl (Token.isLetter_char hx)
    rw [yields_skip]
    refine Yields.bind (operand_spans h hc1) fun arg c2 h2 => ?_
    rw [yields_lastStop]
    have hr := c.tail.reads_skip 7
    have hsign := hc.within hsign hc1 (.refl _) h2.past.1
    have hletter := hc.within hletter hc1 (.refl _) h2.past.1
    have harg := h2.within hc.placed (c.reads_tail.trans hr) (.refl _)
    exact yields_pure.mpr (spans_function hc.placed (hc.past.reads (hr.trans h2.past.1)) h2.placed
      (Node.SpannedAll.cons hsign (Node.SpannedAll.cons hletter (Node.SpannedAll.cons harg
        spannedAll_nil))) (by simp))
  · exact pair_spans h hc

theorem root_spans (h : rules.Spanning) (hc : c.AtCommand s.text.length) :
    Yields (root rules) s c (Spans s.text.length c) := by
  have rest : ∀ (degree : Option Node) (c1 : Cursor), c.tail.Reads c1 → c1.Placed s.text.length →
      (∀ n ∈ degree, Spanned (c.front s.text.length) c1.lastStop n) →
      Yields (do
          let radicand ← scriptArg rules
          pure (Node.function .sqrt (degree.toList ++ [radicand]) none
            ⟨(c.token s.text.length 0).start, ← lastStop⟩)) s c1 (Spans s.text.length c) := by
    intro degree c1 hr hc1 hdegree
    refine Yields.bind (scriptArg_spans h hc1) fun radicand c2 h2 => ?_
    rw [yields_lastStop]
    have hradicand := h2.within hc.placed (c.reads_tail.trans hr) (.refl _)
    have hstop := h2.past.1.lastStop_le hc1.sound
    have hdegree := (Node.spannedAll_option hdegree).mono (Int.le_refl _) (Int.ofNat_le.mpr hstop)
    exact yields_pure.mpr (spans_function hc.placed (hc.past.reads (hr.trans h2.past.1)) h2.placed
      (hdegree.append (Node.SpannedAll.cons hradicand spannedAll_nil)) (by simp))
  unfold root
  rw [yields_next, yields_peek]
  dsimp only
  split
  · rename_i hk
    refine Yields.bind (P := fun d c' => c.tail.Reads c' ∧ c'.Placed s.text.length
      ∧ ∀ n ∈ d, Spanned (c.front s.text.length) c'.lastStop n) ?_
      fun d c1 h1 => rest d c1 h1.1 h1.2.1 h1.2.2
    refine (group_spans h hc.tail hk).map fun n c1 h1 => ⟨h1.past.1, h1.placed, ?_⟩
    exact Node.spanned_some (h1.within hc.placed c.reads_tail (.refl _))
  · exact yields_pure_bind.mpr (rest none c.tail (.refl _) hc.tail (by simp))

/-! ## Scripts -/

/-- Scripts that lie between two bounds. -/
structure Scripts.In (lo hi : Int) (r : Scripts) : Prop where
  sub : ∀ n ∈ r.sub, Spanned lo hi n
  super : ∀ n ∈ r.super, Spanned lo hi n

theorem Scripts.in_empty {lo hi : Int} : Scripts.In lo hi {} := ⟨by simp, by simp⟩

theorem Scripts.In.mono {lo hi hi' : Int} {r : Scripts} (h : r.In lo hi) (hhi : hi ≤ hi') :
    r.In lo hi' :=
  ⟨fun n hn => (h.sub n hn).mono (Int.le_refl _) hhi,
    fun n hn => (h.super n hn).mono (Int.le_refl _) hhi⟩

theorem script_spans {subAllowed : Bool} {r : Scripts} {lo : Int} (h : rules.Spanning)
    (hc : c.Placed s.text.length) (hlo : lo ≤ c.front s.text.length) (hr : r.In lo c.lastStop) :
    Yields (script rules subAllowed r) s c fun r' c' => c.Reads c' ∧ c'.Placed s.text.length
      ∧ r'.In lo c'.lastStop := by
  -- the argument behind the sign of a script
  have behind : ∀ {kind : TokenKind}, (c.token s.text.length 0).kind = kind → kind ≠ .command →
      Yields (scriptArg rules) s c.tail fun n c' => c.Reads c' ∧ c'.Placed s.text.length
        ∧ Spanned lo c'.lastStop n ∧ r.In lo c'.lastStop := by
    intro kind hk hne
    refine (scriptArg_spans h (hc.tail (tame_of_kind hk hne))).mono fun n c1 h1 => ?_
    have hreads := c.reads_tail.trans h1.past.1
    have hstop := Int.ofNat_le.mpr (hreads.lastStop_le hc.sound)
    have hn := (h1.within hc c.reads_tail (.refl _)).mono hlo (Int.le_refl _)
    exact ⟨hreads, h1.placed, hn, hr.mono hstop⟩
  unfold script
  rw [yields_peek]
  refine yields_ite (fun hk => ?_) fun _ => yields_ite (fun hk => ?_) fun _ => ?_
  · rw [yields_next]
    refine Yields.bind (behind hk.1 (by simp)) ?_
    intro n c1 ⟨h1, hc1, hn, hr1⟩
    exact yields_pure.mpr ⟨h1, hc1, Node.spanned_some hn, hr1.super⟩
  · rw [yields_next]
    refine Yields.bind (behind hk.1 (by simp)) ?_
    intro n c1 ⟨h1, hc1, hn, hr1⟩
    exact yields_pure.mpr ⟨h1, hc1, hr1.sub, Node.spanned_some hn⟩
  · exact yields_pure.mpr ⟨.refl c, hc, hr⟩

theorem yields_skipLimits_placed {β : Type} {f : Unit → Parser β} {post : β → Cursor → Prop}
    (hc : c.Placed size)
    (h : ∀ c', c.Reads c' → c'.Placed size → Yields (f ()) s c' post) :
    Yields (skipLimits >>= f) s c post := by
  have hrun : skipLimits s c
      = .ok ((), c.skip (c.rest.takeWhile (·.isCommand ["limits"])).length) := skip_eq _
  rw [yields_of_ok hrun]
  have htame : ∀ t : Token, t.isCommand ["limits"] = true → t.Tame := fun t ht =>
    tame_of_isCommand ht (by decide)
  obtain ⟨hc', -, -⟩ := hc.skip List.takeWhile_append_dropWhile.symm fun t ht =>
    htame t (List.all_eq_true.mp List.all_takeWhile t ht)
  exact h _ (c.reads_skip _) hc'

theorem integralBody_spans (h : rules.Spanning) (hc : c.Placed s.text.length) :
    Yields (integralBody rules) s c fun n c' => c.Reads c' ∧ c'.Placed s.text.length
      ∧ Spanned (c.front s.text.length) (c'.front s.text.length) n := by
  unfold integralBody
  rw [yields_peek]
  refine yields_ite (fun hk => (group_spans h hc hk).mono fun n c1 h1 => ?_) fun _ => ?_
  · have hstop := h1.placed.sound.lastStop_le_front
    exact ⟨h1.past.1, h1.placed, h1.node.mono (Int.le_refl _) (Int.ofNat_le.mpr hstop)⟩
  · refine Yields.bind (h.sequence hc) fun nodes c1 h1 => ?_
    rw [yields_peek]
    have hfront := Int.ofNat_le.mpr (h1.reads.front_le hc.sound)
    exact yields_pure.mpr ⟨h1.reads, h1.placed,
      Node.spanned_expression (Int.le_refl _) hfront (Int.le_refl _) h1.nodes⟩

theorem integral_spans (h : rules.Spanning) (hc : c.AtCommand s.text.length) :
    Yields (integral rules) s c (Spans s.text.length c) := by
  unfold integral
  rw [yields_next]
  refine yields_skipLimits_placed hc.tail fun c1 h1 hc1 => ?_
  refine Yields.bind (script_spans h hc1 (hc.front_le h1) Scripts.in_empty) ?_
  intro one c2 ⟨h2, hc2, hone⟩
  refine yields_skipLimits_placed hc2 fun c3 h3 hc3 => ?_
  have hr3 := h1.trans (h2.trans h3)
  have hone := hone.mono (Int.ofNat_le.mpr (h3.lastStop_le hc2.sound))
  refine Yields.bind (script_spans h hc3 (hc.front_le hr3) hone) ?_
  intro both c4 ⟨h4, hc4, hboth⟩
  refine yields_skipLimits_placed hc4 fun c5 h5 hc5 => ?_
  have hr5 := hr3.trans (h4.trans h5)
  refine yields_ite (fun _ => ?_) fun _ => ?_
  · rw [yields_peek]
    exact yields_failAt
  refine Yields.bind (integralBody_spans h hc5) ?_
  intro body c6 ⟨h6, hc6, hbody⟩
  rw [yields_peek, yields_peekAt]
  refine yields_ite (fun hd => ?_) fun _ => yields_unexpected
  rw [Bool.and_eq_true, ← c6.token_tail] at hd
  rw [← c6.token_tail, yields_skip]
  refine yields_pure.mpr ?_
  -- the two tokens of the differential are read last
  have hd1 := Token.isChar_char hd.1
  have hd2 := Token.isLetter_char hd.2
  have hrest : c6.rest = [c6.token s.text.length 0, c6.tail.token s.text.length 0]
      ++ c6.tail.tail.rest := by
    rw [List.cons_append, List.singleton_append, ← Cursor.rest_tail hd2 (by simp)]
    exact Cursor.rest_tail hd1 (by simp)
  have htame : ∀ u ∈ [c6.token s.text.length 0, c6.tail.token s.text.length 0], u.Tame := by
    simp [tame_of_kind hd1, tame_of_kind hd2]
  obtain ⟨hc7, -, -⟩ := hc6.skip hrest htame
  have hletter := skipped_spanned hc6 hrest htame (n := 1) rfl hd2
  have hr6 := hr5.trans h6
  have hr7 := c6.reads_skip 2
  have hstop5 := h5.trans (h6.trans hr7)
  have hboth := hboth.mono (Int.ofNat_le.mpr (hstop5.lastStop_le hc4.sound))
  have hbody : Spanned (c.front s.text.length) (c6.skip 2).lastStop body := by
    have hfront := hc6.sound.token_lt (c6.past_skip (n := 2) (by omega) (by rw [hrest]; simp))
    exact hbody.mono (hc.front_le hr5) (Int.ofNat_le.mpr (Nat.le_of_lt hfront))
  have hletter := hc.within hletter hc7 hr6 (.refl _)
  have hlast : (c6.skip 2).lastStop = (c6.tail.token s.text.length 0).stop :=
    Cursor.tail_lastStop hd2 (by simp)
  rw [← hlast]
  have hbounds := (Node.spannedAll_option hboth.sub).append (Node.spannedAll_option hboth.super)
  exact spans_function hc.placed (hc.past.reads (hr6.trans hr7)) hc7
    (hbounds.append (Node.SpannedAll.cons hbody (Node.SpannedAll.cons hletter spannedAll_nil)))
    (by simp)

theorem limit_spans (h : rules.Spanning) (hc : c.AtCommand s.text.length) :
    Yields (limit rules) s c (Spans s.text.length c) := by
  unfold limit
  rw [yields_next]
  refine yields_expect fun hunderscore => yields_expect fun hopen => ?_
  have hc1 := hc.tail.tail (tame_of_kind hunderscore (by simp))
  refine Yields.bind (h.sequence (hc1.tail (tame_of_kind hopen (by simp)))) fun name c2 h2 => ?_
  rw [yields_peek]
  refine yields_ite (fun harrow => ?_) fun _ => yields_unexpected
  rw [yields_next]
  refine Yields.bind (h.sequence (h2.placed.tail (tame_of_isCommand harrow (by decide))))
    fun target c4 h4 => ?_
  refine yields_expect fun hclose => ?_
  refine Yields.bind (operand_spans h (h4.placed.tail (tame_of_kind hclose (by simp))))
    fun arg c6 h6 => ?_
  rw [yields_lastStop]
  refine yields_pure.mpr ?_
  have hr1 : c.Reads c.tail.tail := c.reads_tail.trans c.tail.reads_tail
  have hr2 := hr1.trans (c.tail.tail.reads_tail.trans h2.reads)
  have hr4 := hr2.trans (c2.reads_tail.trans h4.reads)
  have hp4 := (c4.past_tail hclose (by simp)).reads h6.past.1
  have hp2 := (c2.past_tail (isCommand_iff.mp harrow).1 (by simp)).reads (h4.reads.trans hp4.1)
  have hname := h2.argument_within hc.placed hc1 hr1 hp2
  have htarget := h4.argument_within hc.placed h2.placed hr2 hp4
  have harg := h6.within hc.placed (hr4.trans c4.reads_tail) (.refl _)
  have hp := hc.past.reads (c.tail.reads_tail.trans (c.tail.tail.reads_tail.trans
    (h2.reads.trans hp2.1)))
  exact spans_function hc.placed hp h6.placed (Node.SpannedAll.cons hname
    (Node.SpannedAll.cons htarget (Node.SpannedAll.cons harg spannedAll_nil))) (by simp)

theorem logarithm_spans (h : rules.Spanning) (hc : c.AtCommand s.text.length) :
    Yields (logarithm rules) s c (Spans s.text.length c) := by
  unfold logarithm
  rw [yields_next]
  refine Yields.bind (script_spans h hc.tail (hc.front_le (.refl _)) Scripts.in_empty) ?_
  intro one c1 ⟨h1, hc1, hone⟩
  refine Yields.bind (script_spans h hc1 (hc.front_le h1) hone) ?_
  intro both c2 ⟨h2, hc2, hboth⟩
  refine Yields.bind (operand_spans h hc2) fun arg c3 h3 => ?_
  rw [yields_lastStop]
  have hr := h1.trans h2
  have hboth := hboth.mono (Int.ofNat_le.mpr (h3.past.1.lastStop_le hc2.sound))
  have harg := h3.within hc.placed (c.reads_tail.trans hr) (.refl _)
  have made : ∀ {name : FunctionName} {args : List Node},
      SpannedAll (c.front s.text.length) c3.lastStop args →
      Spans s.text.length c
        (.function name args both.super ⟨(c.token s.text.length 0).start, c3.lastStop⟩) c3 :=
    fun hargs => spans_function hc.placed (hc.past.reads (hr.trans h3.past.1)) h3.placed hargs
      hboth.super
  split
  · rename_i base hbase
    exact yields_pure.mpr (made (Node.SpannedAll.cons (hboth.sub base hbase)
      (Node.SpannedAll.cons harg spannedAll_nil)))
  · have hargs := Node.SpannedAll.cons harg spannedAll_nil
    exact yields_ite (fun _ => yields_pure.mpr (made hargs)) fun _ => yields_pure.mpr (made hargs)

/-! ## Environments -/

theorem environmentName_placed (hc : c.Placed s.text.length) :
    Yields environmentName s c fun _ c' => c.Reads c' ∧ c'.Placed s.text.length := by
  unfold environmentName
  refine yields_expect fun hopen => ?_
  rw [yields_peek, yields_lookahead, yields_skip]
  obtain ⟨hc1, -, -⟩ := (hc.tail (tame_of_kind hopen (by simp))).skip
    (List.takeWhile_append_dropWhile (p := fun t : Token => t.kind == .char)).symm fun t ht =>
      tame_of_kind (eq_of_beq (List.all_eq_true.mp List.all_takeWhile t ht)) (by simp)
  refine yields_expect fun hclose => yields_pure.mpr ⟨?_, hc1.tail (tame_of_kind hclose (by simp))⟩
  exact c.reads_tail.trans ((c.tail.reads_skip _).trans (Cursor.reads_tail _))

/-- The token that ends a cell can be read, and is not the end of the text. -/
theorem cellEnd_tame (size : Nat) {matrix : Bool} (h : (Stop.cell matrix).holds c.rest = true) :
    (c.token size 0).Tame ∧ c.Past c.tail := by
  cases hrest : c.rest with
  | nil =>
      rw [hrest] at h
      exact absurd h (by simp [Stop.holds])
  | cons t ts =>
      have htoken : c.token size 0 = t := by
        rw [Cursor.token, hrest]
        rfl
      rw [hrest] at h
      simp only [Stop.holds, Bool.or_eq_true, Bool.and_eq_true, beq_iff_eq] at h
      rw [htoken]
      refine ⟨?_, c.past_skip (n := 1) (Nat.le_refl _) (by rw [hrest]; simp)⟩
      rcases h with (hk | ⟨-, hk⟩) | hk
      · exact tame_of_kind hk (by simp)
      · exact tame_of_kind hk (by simp)
      · exact tame_of_isCommand hk (by decide)

/-- A cell reaches up to the token that ends it. -/
theorem rows_spans {matrix : Bool} {name : Text} {row before : List Node} {lo : Int}
    (hframing : rules.Framing) (h : rules.Spanning) (hc : c.Placed s.text.length)
    (hlo : lo ≤ c.front s.text.length) (hrow : SpannedAll lo (c.front s.text.length) row)
    (hbefore : SpannedAll lo (c.front s.text.length) before) :
    Yields (rows rules matrix name row before) s c fun ns c' => c.Past c' ∧ c'.Placed s.text.length
      ∧ SpannedAll lo c'.lastStop ns := by
  unfold rows
  rw [yields_peek]
  refine Yields.bind (P := fun ns c1 => SpansFrom s.text.length (c.front s.text.length) c ns c1
    ∧ (Stop.cell matrix).holds c1.rest = true) (Yields.rewordAtEnd fun ns c1 hrun =>
      ⟨h.sequence hc ns c1 hrun, (hframing.sequence ns c1 hrun).2⟩) ?_
  intro nodes c1 ⟨h1, hstop⟩
  rw [yields_peek, yields_next]
  obtain ⟨htame, hp1⟩ := cellEnd_tame s.text.length hstop
  have hc2 := h1.placed.tail htame
  have hp2 := h1.reads.past hp1
  have hfront := Int.ofNat_le.mpr (h1.reads.front_le hc.sound)
  have hlast : (c1.front s.text.length : Int) ≤ c1.tail.lastStop :=
    Int.ofNat_le.mpr (Nat.le_of_lt (h1.placed.sound.token_lt hp1))
  have hnext := Int.ofNat_le.mpr (hc2.sound.lastStop_le_front)
  -- the cells so far, up to the token behind the last of them
  have hcell : Spanned lo c1.tail.lastStop
      (.expression .none nodes ⟨c.front s.text.length, c1.front s.text.length⟩) :=
    Node.spanned_expression hlo hfront hlast h1.nodes
  have hrow := Node.SpannedAll.cons hcell (hrow.mono (Int.le_refl _) (Int.le_trans hfront hlast))
  have hbefore := hbefore.mono (Int.le_refl _) (Int.le_trans hfront hlast)
  have more : ∀ {row' before' : List Node}, SpannedAll lo c1.tail.lastStop row' →
      SpannedAll lo c1.tail.lastStop before' →
      Yields (rules.rows matrix name row' before') s c1.tail fun ns c' => c.Past c'
        ∧ c'.Placed s.text.length ∧ SpannedAll lo c'.lastStop ns := by
    intro row' before' hrow' hbefore'
    refine (h.rows hc2 (by omega) (hrow'.mono (Int.le_refl _) hnext)
      (hbefore'.mono (Int.le_refl _) hnext)).mono ?_
    intro ns c' ⟨hp, hc', hns⟩
    exact ⟨hp2.reads hp.1, hc', hns⟩
  refine yields_ite (fun _ => more hrow hbefore) fun _ => ?_
  have hkept : SpannedAll lo c1.tail.lastStop
      (if isEmptyRow
        (.expression .none nodes ⟨c.front s.text.length, c1.front s.text.length⟩ :: row)
        then before
        else .expression .none nodes ⟨c.front s.text.length, c1.front s.text.length⟩ :: row
          ++ before) := by
    split
    · exact hbefore
    · exact hrow.append hbefore
  refine yields_ite (fun _ => yields_pure.mpr ⟨hp2, hc2, hkept.reverse⟩) fun _ => ?_
  exact more spannedAll_nil hkept

theorem environment_spans (h : rules.Spanning) (hc : c.AtCommand s.text.length) :
    Yields (environment rules) s c (Spans s.text.length c) := by
  unfold environment
  rw [yields_next]
  refine Yields.bind (environmentName_placed hc.tail) ?_
  rintro ⟨name, nameStart⟩ c1 ⟨h1, hc1⟩
  dsimp only
  split
  · rw [yields_lastStop]
    exact yields_failAt
  rename_i type _
  -- the rows and the end, with or without the columns of an array before them
  have rest : ∀ (c2 : Cursor), c.tail.Reads c2 → c2.Placed s.text.length →
      Yields (do
          let cells ← rules.rows (type == .determinant) name [] []
          let last ← environmentName
          if last.1 = name then
            pure (Node.environment type cells ⟨(c.token s.text.length 0).start, ← lastStop⟩)
          else
            failAt last.2 (← lastStop) last.1
              ("\\begin\x7b" ++ name ++ "\x7d ended by \\end\x7b" ++ last.1 ++ "\x7d")) s c2
        (Spans s.text.length c) := by
    intro c2 hr hc2
    refine Yields.bind (h.rows hc2 (hc.front_le hr) spannedAll_nil spannedAll_nil) ?_
    rintro cells c3 ⟨hp3, hc3, hcells⟩
    refine Yields.bind (environmentName_placed hc3) ?_
    rintro ⟨last, lastStart⟩ c4 ⟨h4, hc4⟩
    dsimp only
    refine yields_ite (fun _ => ?_) fun _ => ?_
    · rw [yields_lastStop]
      have hp := hc.past.reads (hr.trans (hp3.1.trans h4))
      have hlt := hc.placed.sound.token_lt hp
      have hstop := Int.ofNat_le.mpr (h4.lastStop_le hc3.sound)
      exact yields_pure.mpr ⟨hp, hc4, Node.spanned_environment (Int.le_refl _)
        (Int.ofNat_le.mpr (Nat.le_of_lt hlt)) (Int.le_refl _) (hcells.mono (Int.le_refl _) hstop)⟩
    · rw [yields_lastStop]
      exact yields_failAt
  rw [yields_peek]
  split
  · rename_i hcolumns
    refine Yields.bind (group_spans h hc1 hcolumns.2) fun _ c2 h2 => ?_
    exact rest c2 (h1.trans h2.past.1) h2.placed
  · exact rest c1 h1 hc1

/-! ## The grammar -/

/-- The name of a constant is as wide as its command without the backslash. -/
theorem constants_extent {t : Text} (ht : t ∈ constants) : extent t ≤ t.length + 1 := by
  have all : constants.all Text.isAscii = true := by decide
  unfold extent
  rw [Text.toValid_ascii (Text.isAscii_iff.mp (List.all_eq_true.mp all t ht))]
  omega

/-- The name of a function is no wider than its command. -/
theorem namedFunctions_extent {t name : Text} (h : namedFunctions.lookup t = some name) :
    t ∈ namedFunctions.map (·.1) ∧ extent name ≤ t.length + 1 := by
  obtain ⟨l₁, l₂, hl, _⟩ := List.lookup_eq_some_iff.mp h
  have hmem : (t, name) ∈ namedFunctions := by
    rw [hl]
    simp
  have all : namedFunctions.all (fun e => Text.isAscii e.2) = true := by decide
  have narrow : ∀ e ∈ namedFunctions, e.2.length ≤ e.1.length + 1 := by decide
  refine ⟨List.mem_map_of_mem hmem, ?_⟩
  have hname : Text.isAscii name = true := List.all_eq_true.mp all (t, name) hmem
  unfold extent
  rw [Text.toValid_ascii (Text.isAscii_iff.mp hname)]
  exact Int.ofNat_le.mpr (narrow (t, name) hmem)

theorem command_spans (h : rules.Spanning) (hc : c.Placed s.text.length)
    (hk : (c.token s.text.length 0).kind = .command) :
    Yields (command rules) s c fun o c' => c.Past c' ∧ c'.Placed s.text.length
      ∧ ∀ n ∈ o, Spans s.text.length c n c' := by
  have made : ∀ {p : Parser Node}, Yields p s c (Spans s.text.length c) →
      Yields (some <$> p) s c fun o c' => c.Past c' ∧ c'.Placed s.text.length
        ∧ ∀ n ∈ o, Spans s.text.length c n c' := by
    intro p hp
    refine hp.map fun n c' hn => ⟨hn.past, hn.placed, fun m hm => ?_⟩
    rw [← Option.some.inj hm]
    exact hn
  have known : ∀ {names : List Text}, (c.token s.text.length 0).text ∈ names →
      names.all Text.isAscii = true → c.AtCommand s.text.length := fun ht hnames =>
    ⟨hc, hk, tame_of_mem ht hnames⟩
  have listed : ∀ {names : List Text}, (c.token s.text.length 0).isCommand names = true →
      names.all Text.isAscii = true → c.AtCommand s.text.length := fun ht hnames =>
    known (isCommand_iff.mp ht).2 hnames
  unfold command
  rw [yields_peek]
  refine yields_ite (fun ht => ?_) fun _ => yields_ite (fun ht => ?_) fun _ => ?_
  · rw [yields_next]
    have hat := known (List.contains_iff_mem.mp ht) (by decide)
    exact yields_pure.mpr ⟨hat.past, hat.tail, by simp⟩
  · rw [yields_next]
    have hat := known (List.contains_iff_mem.mp ht) (by decide)
    have hunit := hat.spanned (.refl _) (constants_extent (List.contains_iff_mem.mp ht))
    refine yields_pure.mpr ⟨hat.past, hat.tail, fun n hn => ?_⟩
    rw [← Option.some.inj hn]
    exact ⟨hat.past, hat.tail, hunit⟩
  split
  · rename_i name hname
    obtain ⟨hmem, hextent⟩ := namedFunctions_extent hname
    exact made (named_spans h (known hmem (by decide)) hextent)
  · refine yields_ite (fun ht => made (fraction_spans h (listed ht (by decide)))) fun _ => ?_
    refine yields_ite (fun ht => made (root_spans h (listed ht (by decide)))) fun _ => ?_
    refine yields_ite (fun ht => made (integral_spans h (listed ht (by decide)))) fun _ => ?_
    refine yields_ite (fun ht => made (limit_spans h (listed ht (by decide)))) fun _ => ?_
    refine yields_ite (fun ht => made (logarithm_spans h (listed ht (by decide)))) fun _ => ?_
    refine yields_ite (fun ht => made ?_) fun _ => ?_
    · unfold binary
      rw [yields_next]
      exact pair_spans h (listed ht (by decide))
    refine yields_ite (fun ht => made (unary_spans h (listed ht (by decide)))) fun _ => ?_
    refine yields_ite (fun ht => made (environment_spans h (listed ht (by decide)))) fun _ => ?_
    exact yields_failAt

/-- One more unfolding keeps the spans in what is read. -/
theorem Rules.Spanning.unfold (hframing : rules.Framing) (h : rules.Spanning) :
    rules.unfold.Spanning where
  sequence hc := sequence_spans hframing h hc
  items hc hlo hb := items_spans h hc hlo hb
  command hc hk := command_spans h hc hk
  operand hc := operand_spans h hc
  scriptArg hc := scriptArg_spans h hc
  rows hc hlo hrow hbefore := rows_spans hframing h hc hlo hrow hbefore

theorem rulesTo_spanning (n : Nat) : (rulesTo n).Spanning := by
  induction n with
  | zero =>
      exact ⟨fun _ => yields_spent, fun _ _ _ => yields_spent, fun _ _ => yields_spent,
        fun _ => yields_spent, fun _ => yields_spent, fun _ _ _ _ => yields_spent⟩
  | succ n ih => exact ih.unfold (rulesTo_framing n)

/-- Well formed text is read from a cursor whose tokens fit. -/
theorem tokens_placed {t : Text} {ts : List Token} (h : tokens t = .ok ts)
    (hvalid : Text.isValidUtf8 t = true) : Cursor.Placed t.length ⟨ts, 0⟩ := by
  have hcut := tokens_cut h
  refine ⟨⟨?_, hcut.literal (by simp)⟩, hcut.fitting hvalid⟩
  simpa using hcut.tiled

/-- The tree of a well formed text lies in the text. -/
theorem parse_spanned {limit : Nat} {t : Text} {tree : Node} (hvalid : Text.isValidUtf8 t = true)
    (h : parse limit t = .ok tree) : Spanned 0 t.length tree := by
  cases htokens : tokens t with
  | error e =>
      unfold parse at h
      rw [htokens] at h
      exact absurd h (by simp)
  | ok ts =>
      rcases parse_grammar htokens limit with ⟨nodes, c, hrun, -, hparse⟩ | ⟨e, atEnd, -, hparse⟩
      · obtain rfl := Except.ok.inj (h.symm.trans hparse)
        have hspans := (rulesTo_spanning (unfoldings ts)).sequence (tokens_placed htokens hvalid)
          nodes c hrun
        have hsize := hspans.placed.sound.front_le
        have hnodes : SpannedAll 0 t.length nodes :=
          hspans.nodes.mono (Int.natCast_nonneg _) (Int.ofNat_le.mpr hsize)
        have hlength := Int.natCast_nonneg t.length
        have hexpression : Spanned 0 t.length (.expression .none nodes ⟨0, t.length⟩) :=
          Node.spanned_expression (Int.le_refl _) hlength (Int.le_refl _) hnodes
        exact Node.spanned_of_children rfl (Int.le_refl _) hlength (Int.le_refl _) trivial
          (Node.SpannedAll.cons hexpression spannedAll_nil)
      · rw [h] at hparse
        exact absurd hparse (by simp)

/--
**Spans nest.** Every node of the tree of a well formed text, the characters of its leaves included,
was read from a part of the text, and from a part of what its parent was read from.
-/
theorem spans_nest {limit : Nat} {t : Text} {tree n : Node} (hvalid : Text.isValidUtf8 t = true)
    (hparse : parse limit t = .ok tree) (hocc : Occurs n tree) :
    (0 ≤ n.span.start ∧ n.span.start ≤ n.span.stop ∧ n.span.stop ≤ t.length)
      ∧ ∀ m ∈ n.children, n.span.start ≤ m.span.start ∧ m.span.stop ≤ n.span.stop := by
  obtain ⟨hstart, hle, hstop, -, hchildren⟩ := hocc.spanned (parse_spanned hvalid hparse)
  refine ⟨⟨hstart, hle, hstop⟩, fun m hm => ?_⟩
  obtain ⟨hlo, -, hhi, -, -⟩ := hchildren m hm
  exact ⟨hlo, hhi⟩

/-- The operand of a degree sign, taken back from the unit `π2`. -/
def measuredTwo : Node :=
  .function .degrees [.unit [⟨0x32, ⟨2, 3⟩⟩] ⟨2, 3⟩] none ⟨2, 9⟩

/-- The operand keeps its place behind the wider character that stays. -/
theorem measuredTwo_nested :
    ∃ tree, parse 256 "π2^\\circ" = .ok tree ∧ Occurs measuredTwo tree
      ∧ (0 ≤ measuredTwo.span.start ∧ measuredTwo.span.start ≤ measuredTwo.span.stop
        ∧ measuredTwo.span.stop ≤ (Text.ofString "π2^\\circ").length)
      ∧ ∀ m ∈ measuredTwo.children,
        measuredTwo.span.start ≤ m.span.start ∧ m.span.stop ≤ measuredTwo.span.stop := by
  have hvalid : Text.isValidUtf8 "π2^\\circ" = true := by decide +kernel
  have hparse : parse 256 "π2^\\circ" = .ok (.root [.expression .none
      [.unit [⟨0x3C0, ⟨0, 2⟩⟩] ⟨0, 2⟩, measuredTwo] ⟨0, 9⟩] ⟨0, 9⟩) := rfl
  have hocc : Occurs measuredTwo (.root [.expression .none
      [.unit [⟨0x3C0, ⟨0, 2⟩⟩] ⟨0, 2⟩, measuredTwo] ⟨0, 9⟩] ⟨0, 9⟩) :=
    .child (List.mem_singleton_self _) (.child (List.mem_cons_of_mem _ List.mem_cons_self) .here)
  exact ⟨_, hparse, hocc, spans_nest hvalid hparse hocc⟩

end Grammar

end MathMarkup
