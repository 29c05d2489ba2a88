import MathMarkup.Proofs.Extents

/-!
# Sequences lie in what they read

What a production puts together lies in what it read: between the start of its first token and the
end of its last (`Spans`). A sequence reaches up to the start of the token that ends it
(`SpansFrom`), because a definition takes in everything up to there.

Groups, sequences and arguments keep this as long as the rules they refer to do (`Rules.Spanning`).
-/

namespace MathMarkup.Grammar

open MathMarkup.Grammar.Parser
open MathMarkup.Node (Spanned SpannedAll spannedAll_nil)

variable {rules : Rules} {s : Scope} {c c' : Cursor} {size : Nat}

/-! ## What productions give -/

/-- A node that lies in the tokens read. -/
structure Spans (size : Nat) (c : Cursor) (n : Node) (c' : Cursor) : Prop where
  past : c.Past c'
  placed : c'.Placed size
  node : Spanned (c.front size) c'.lastStop n

/-- Nodes that lie between a bound and the token that comes next. -/
structure SpansFrom (size : Nat) (lo : Int) (c : Cursor) (ns : List Node) (c' : Cursor) : Prop where
  reads : c.Reads c'
  placed : c'.Placed size
  nodes : SpannedAll lo (c'.front size) ns

/-- A node lies in everything that was read around it. -/
theorem Spans.within {n : Node} {c1 c2 : Cursor} (h : Spans size c1 n c2) (hc : c.Placed size)
    (hbefore : c.Reads c1) (hbehind : c2.Reads c') : Spanned (c.front size) c'.lastStop n := by
  have hfront := hbefore.front_le hc.sound
  have hstop := hbehind.lastStop_le h.placed.sound
  exact h.node.mono (by omega) (by omega)

/-- A node behind tokens that were read lies in all of them. -/
theorem Spans.behind {n : Node} {c1 : Cursor} (h : Spans size c1 n c') (hc : c.Placed size)
    (hr : c.Reads c1) : Spans size c n c' :=
  ⟨hr.past h.past, h.placed, h.within hc hr (.refl _)⟩

theorem Spans.wrapCurly {n : Node} (h : Spans size c n c') : Spans size c (wrapCurly n) c' :=
  ⟨h.past, h.placed, spanned_wrapCurly h.node⟩

/-- What was read between two tokens, as one argument. -/
theorem SpansFrom.spanned_argument {ns : List Node}
    (h : SpansFrom size (c.tail.front size) c.tail ns c') (hc : c.Placed size) :
    Spanned (c.front size) (c'.front size)
      (argument ns ⟨(c.token size 0).stop, c'.front size⟩) := by
  have hplace := hc.sound.token_place 0
  have hstop := hc.sound.stop_le_front
  have hfront := h.reads.front_le hc.sound.tail
  have hstart : c.front size = (c.token size 0).start := rfl
  refine Node.spanned_expression ?_ ?_ (Int.le_refl _) (h.nodes.mono ?_ (Int.le_refl _))
    <;> dsimp only <;> omega

/-- Such an argument lies in everything that was read around it, the token that ends it included. -/
theorem SpansFrom.argument_within {ns : List Node} {c1 c2 : Cursor}
    (h : SpansFrom size (c1.tail.front size) c1.tail ns c2) (hc : c.Placed size)
    (hc1 : c1.Placed size) (hbefore : c.Reads c1) (hbehind : c2.Past c') :
    Spanned (c.front size) c'.lastStop
      (argument ns ⟨(c1.token size 0).stop, c2.front size⟩) := by
  have hfront := hbefore.front_le hc.sound
  have hlt := h.placed.sound.token_lt hbehind
  exact (h.spanned_argument hc1).mono (Int.ofNat_le.mpr hfront)
    (Int.ofNat_le.mpr (Nat.le_of_lt hlt))

/-- A function whose span is everything that was read. -/
theorem spans_function {name : FunctionName} {args : List Node} {exponent : Option Node}
    (hc : c.Placed size) (hp : c.Past c') (hc' : c'.Placed size)
    (hargs : SpannedAll (c.front size) c'.lastStop args)
    (hexponent : ∀ e ∈ exponent, Spanned (c.front size) c'.lastStop e) :
    Spans size c (.function name args exponent ⟨(c.token size 0).start, c'.lastStop⟩) c' := by
  have hlt := hc.sound.token_lt hp
  refine ⟨hp, hc', Node.spanned_function (Int.le_refl _) ?_ (Int.le_refl _) hargs hexponent⟩
  exact Int.ofNat_le.mpr (Nat.le_of_lt hlt)

/-- Rules whose productions lie in what they read. -/
structure Rules.Spanning (rules : Rules) : Prop where
  sequence : ∀ {stop : Stop} {definable : Bool} {s : Scope} {c : Cursor},
    c.Placed s.text.length → Yields (rules.sequence stop definable) s c
      (SpansFrom s.text.length (c.front s.text.length) c)
  items : ∀ {stop : Stop} {b : Builder} {lo : Int} {s : Scope} {c : Cursor},
    c.Placed s.text.length → lo ≤ c.front s.text.length → b.In lo (c.front s.text.length) →
    Yields (rules.items stop b) s c (SpansFrom s.text.length lo c)
  command : ∀ {s : Scope} {c : Cursor}, c.Placed s.text.length →
    (c.token s.text.length 0).kind = .command →
    Yields rules.command s c fun o c' => c.Past c' ∧ c'.Placed s.text.length
      ∧ ∀ n ∈ o, Spans s.text.length c n c'
  operand : ∀ {s : Scope} {c : Cursor}, c.Placed s.text.length →
    Yields rules.operand s c (Spans s.text.length c)
  scriptArg : ∀ {s : Scope} {c : Cursor}, c.Placed s.text.length →
    Yields rules.scriptArg s c (Spans s.text.length c)
  rows : ∀ {matrix : Bool} {name : Text} {row before : List Node} {lo : Int} {s : Scope}
      {c : Cursor}, c.Placed s.text.length → lo ≤ c.front s.text.length →
    SpannedAll lo (c.front s.text.length) row → SpannedAll lo (c.front s.text.length) before →
    Yields (rules.rows matrix name row before) s c fun ns c' => c.Past c' ∧ c'.Placed s.text.length
      ∧ SpannedAll lo c'.lastStop ns

/-! ## Groups -/

/-- The contents of a group lie between its brackets. -/
theorem groupContents_spans {k : Bracket} (h : rules.Spanning) (hc : c.Placed s.text.length)
    (hk : (c.token s.text.length 0).kind = .opening k) :
    Yields (groupContents rules k) s c fun r c' => c.Past c' ∧ c'.Placed s.text.length
      ∧ r.2 = ⟨c.front s.text.length, c'.lastStop⟩
      ∧ SpannedAll (c.front s.text.length) c'.lastStop r.1 := by
  unfold groupContents
  rw [yields_next]
  have hin := hc.tail (tame_of_kind hk (by simp))
  refine Yields.bind (h.sequence hin) ?_
  intro nodes c1 h1
  refine yields_expect fun hz => yields_pure.mpr ?_
  have hp := (c.past_tail hk (by simp)).reads (h1.reads.trans c1.reads_tail)
  have hlast := Cursor.tail_lastStop hz (by simp)
  have hplace := h1.placed.sound.token_place 0
  have hfront := c.reads_tail.front_le hc.sound
  refine ⟨hp, h1.placed.tail (tame_of_kind hz (by simp)), ?_, ?_⟩
  · rw [hlast]
    rfl
  · refine h1.nodes.mono (by omega) ?_
    rw [hlast]
    exact Int.ofNat_le.mpr hplace.2.1

/-- A group, whatever becomes of its brackets. -/
theorem spans_group {nodes : List Node} {wrapping : Wrapping} {span : Span} (hc : c.Placed size)
    (h : c.Past c' ∧ c'.Placed size ∧ span = ⟨c.front size, c'.lastStop⟩
      ∧ SpannedAll (c.front size) c'.lastStop nodes) :
    Spans size c (.expression wrapping nodes span) c' := by
  obtain ⟨hp, hc', rfl, hnodes⟩ := h
  have hlt := hc.sound.token_lt hp
  refine ⟨hp, hc', Node.spanned_expression (Int.le_refl _) ?_ (Int.le_refl _) hnodes⟩
  exact Int.ofNat_le.mpr (Nat.le_of_lt hlt)

theorem group_spans {k : Bracket} (h : rules.Spanning) (hc : c.Placed s.text.length)
    (hk : (c.token s.text.length 0).kind = .opening k) :
    Yields (group rules k) s c (Spans s.text.length c) := by
  unfold group
  refine Yields.bind (groupContents_spans h hc hk) ?_
  intro r c' hr
  exact yields_pure.mpr (spans_group hc hr)

theorem absolute_spans (h : rules.Spanning) (hc : c.Placed s.text.length)
    (hk : (c.token s.text.length 0).kind = .pipe) :
    Yields (absolute rules) s c (Spans s.text.length c) := by
  unfold absolute
  rw [yields_next]
  refine Yields.bind (h.sequence (hc.tail (tame_of_kind hk (by simp)))) ?_
  intro nodes c1 h1
  refine yields_expect fun hz => yields_pure.mpr ?_
  have hp := (c.past_tail hk (by simp)).reads (h1.reads.trans c1.reads_tail)
  have harg := h1.argument_within hc hc (.refl _) (c1.past_tail hz (by simp))
  rw [← Cursor.tail_lastStop hz (by simp)]
  exact spans_function hc hp (h1.placed.tail (tame_of_kind hz (by simp)))
    (Node.SpannedAll.cons harg spannedAll_nil) (by simp)

/-! ## Sequences -/

/-- The tokens of a degree sign can be read over. -/
theorem degreeWidth?_tame {a : Token} {ts : List Token} {width : Nat} (ha : a.kind = .caret)
    (hd : degreeWidth? (a :: ts) = some width) :
    ∃ xs ys, a :: ts = xs ++ ys ∧ xs.length = width ∧ 0 < width ∧ ∀ t ∈ xs, t.Tame := by
  have hcaret : a.Tame := tame_of_kind ha (by simp)
  have hcirc : ∀ {u : Token}, u.isCommand ["circ"] = true → u.Tame := fun hu =>
    tame_of_isCommand hu (by decide)
  rcases degreeWidth?_split hd with
    ⟨_, u, rest, heq, rfl, hu⟩ | ⟨_, o, u, z, rest, heq, rfl, ho, hu, hz⟩
  · obtain ⟨rfl, rfl⟩ := List.cons.inj heq
    refine ⟨[a, u], rest, rfl, rfl, by omega, ?_⟩
    simp [hcaret, hcirc hu]
  · obtain ⟨rfl, rfl⟩ := List.cons.inj heq
    refine ⟨[a, o, u, z], rest, rfl, rfl, by omega, ?_⟩
    simp [hcaret, hcirc hu, tame_of_kind ho, tame_of_kind hz]

/-- A literal token joins the open unit. -/
theorem Builder.In.addToken {b : Builder} {lo : Int} (hb : b.In lo (c.front size))
    (hlo : lo ≤ c.front size) (hc : c.Placed size)
    (hk : (c.token size 0).kind = .char ∨ (c.token size 0).kind = .caret
      ∨ (c.token size 0).kind = .underscore) :
    (b.addToken (c.token size 0)).In lo (c.tail.front size) := by
  have htame : (c.token size 0).Tame := by
    intro hcommand
    rw [hcommand] at hk
    exact absurd hk (by simp)
  have hfits := (hc.token_fits htame).literal hk
  have hstop := hc.sound.stop_le_front
  exact hb.addText hlo (Int.le_refl _) (by omega)

theorem caret_spans {b : Builder} {lo : Int} (hc : c.Placed s.text.length)
    (hlo : lo ≤ c.front s.text.length) (hb : b.In lo (c.front s.text.length))
    (hk : (c.token s.text.length 0).kind = .caret) :
    Yields (caret b) s c fun b' c' => c.Reads c' ∧ c'.Placed s.text.length
      ∧ b'.In lo (c'.front s.text.length) := by
  unfold caret
  rw [yields_peek, yields_lookahead]
  split
  · rw [yields_next]
    refine yields_pure.mpr ⟨c.reads_tail, hc.tail (tame_of_kind hk (by simp)), ?_⟩
    exact hb.addToken hlo hc (Or.inr (Or.inl hk))
  · rename_i width hd
    rw [yields_peekAt]
    split
    · exact yields_failAt
    · rename_i operand before hpop
      rw [yields_skip]
      refine yields_pure.mpr ?_
      have hrest := Cursor.rest_tail hk (by simp)
      rw [hrest] at hd
      obtain ⟨xs, ys, hxs, rfl, hpos, htame⟩ := degreeWidth?_tame hk hd
      obtain ⟨hc', -, -⟩ := hc.skip (hrest.trans hxs) htame
      obtain ⟨hoperand, hbefore⟩ := hb.popOperand hpop
      have hr := c.reads_skip xs.length
      -- the sign is what was read last
      have hlast : (c.token s.text.length (xs.length - 1)).stop
          ≤ (c.skip xs.length).front s.text.length := by
        have hmem : c.rest[xs.length - 1]? = some (c.token s.text.length (xs.length - 1)) := by
          have hlen : xs.length - 1 < c.rest.length := by
            rw [hrest.trans hxs, List.length_append]
            omega
          unfold Cursor.token
          rw [List.getElem?_eq_getElem hlen]
          rfl
        have hstop := hc.sound.stop_le_skip hmem (k := xs.length) (by omega)
        have hfront := hc'.sound.lastStop_le_front
        omega
      have hsign := hc.sound.token_le (xs.length - 1)
      refine ⟨hr, hc', hbefore.add (Int.ofNat_le.mpr (hr.front_le hc.sound)) ?_⟩
      have hself := hoperand.self
      obtain ⟨hstart, hle, hstop, -, -⟩ := hoperand
      unfold Cursor.front at *
      refine Node.spanned_function ?_ ?_ ?_
        (Node.SpannedAll.cons (hself.mono (Int.le_refl _) ?_) spannedAll_nil) (by simp)
        <;> dsimp only <;> omega

/-- The tokens before the variable of a definition can be read over. -/
theorem definitionHead?_tame {ts : List Token} {name : FunctionName} {width : Nat}
    (hd : definitionHead? ts = some (name, width)) :
    ∃ f xs ys, ts = f :: xs ++ ys ∧ (f :: xs).length = width ∧ f.kind = .char
      ∧ startsVariable ys = true ∧ ∀ t ∈ f :: xs, t.Tame := by
  obtain ⟨f, mid, rest, rfl, hf, rfl, hv, hmid⟩ := definitionHead?_split hd
  have hletter := Token.isLetter_char hf
  have hhead : f.Tame := tame_of_kind hletter (by simp)
  refine ⟨f, mid, rest, rfl, rfl, hletter, hv, List.forall_mem_cons.mpr ⟨hhead, ?_⟩⟩
  rcases hmid with ⟨-, rfl⟩ | ⟨-, a, b, c, d, e, rfl, ha, hb, hc, hd, he⟩
  · exact fun t ht => absurd ht List.not_mem_nil
  · simp [tame_of_kind ha, tame_of_kind hb, tame_of_isChar hc, tame_of_isChar hd, tame_of_kind he]

/-- A definition reaches from its letter up to the token that ends the sequence. -/
theorem definition_spans {stop : Stop} (hframing : rules.Framing) (h : rules.Spanning)
    (hc : c.Placed s.text.length) :
    Yields (definition rules stop) s c fun o c' => c.Reads c' ∧ c'.Placed s.text.length
      ∧ ∀ n ∈ o, Spanned (c.front s.text.length) (c'.front s.text.length) n := by
  unfold definition
  rw [yields_lookahead]
  split
  · exact yields_pure.mpr ⟨.refl c, hc, by simp⟩
  rename_i name width hd
  have hvariable := variable_frames (s := s) hframing hd
  obtain ⟨f, xs, ys, hxs, rfl, hf, hv, htame⟩ := definitionHead?_tame hd
  obtain ⟨hc1, hrest, hfits⟩ := hc.skip hxs htame
  have hletter : c.token s.text.length 0 = f := by
    rw [Cursor.token, hxs]
    rfl
  have hfstop := hc.sound.stop_le_skip (n := 0) (t := f) (k := (f :: xs).length)
    (by rw [hxs]; rfl) (by simp)
  have hr1 := c.reads_skip (f :: xs).length
  obtain ⟨o, us, rfl, ho⟩ := startsVariable_opening hv
  rw [yields_peek, yields_skip]
  generalize c.skip (f :: xs).length = c1 at hvariable hc1 hrest hfstop hr1
  have hopen : (c1.token s.text.length 0).kind = .opening .round := by
    rw [Cursor.token, hrest]
    exact ho
  refine Yields.bind (P := fun n c2 => Spans s.text.length c1 n c2
    ∧ (c2.token s.text.length 0).kind = .char) ?_ ?_
  · intro n c2 hrun
    exact ⟨group_spans h hc1 hopen n c2 hrun, (hvariable n c2 hrun).2⟩
  rintro inner c2 ⟨hinner, hsign⟩
  rw [yields_next]
  refine Yields.bind (h.sequence (hinner.placed.tail (tame_of_kind hsign (by simp)))) ?_
  intro body c3 h3
  rw [yields_peek]
  have hr2 := hr1.trans hinner.past.1
  have hr3 := c2.reads_tail.trans h3.reads
  refine yields_pure.mpr ⟨hr2.trans hr3, h3.placed, fun n hn => ?_⟩
  obtain rfl := Option.some.inj hn
  -- the letter, the variable, the sign and the body follow one another
  have hfront : c.front s.text.length = f.start := by
    unfold Cursor.front
    rw [hletter]
  have hbehind : f.stop ≤ c2.lastStop := Nat.le_trans hfstop (hinner.past.1.lastStop_le hc1.sound)
  have hsign2 := hinner.placed.sound.lastStop_le_front
  have hr3 := c2.reads_tail.trans h3.reads
  have hbody := hr3.front_le hinner.placed.sound
  have hwidth := (hfits f List.mem_cons_self).literal (Or.inl hf)
  have hextent : 0 ≤ extent f.text := Int.natCast_nonneg _
  have hunit : Spanned f.start (c3.front s.text.length) (unitAt f.text f.span) :=
    spanned_unitAt (Int.le_refl _) (by show (f.stop : Int) ≤ _; omega) hwidth
  have hvar : Spanned f.start (c3.front s.text.length) inner := by
    rw [← hfront]
    exact (hinner.within hc hr1 (.refl _)).mono (Int.le_refl _) (by omega)
  have hdefined : Spanned f.start (c3.front s.text.length)
      (argument body ⟨(c2.token s.text.length 0).stop, c3.front s.text.length⟩) :=
    (h3.spanned_argument hinner.placed).mono (by omega) (Int.le_refl _)
  rw [hletter, hfront]
  refine Node.spanned_function (Int.le_refl _) ?_ (Int.le_refl _)
    (Node.SpannedAll.cons hunit (Node.SpannedAll.cons hvar (Node.SpannedAll.cons hdefined
      spannedAll_nil))) (by simp)
  show (f.start : Int) ≤ c3.front s.text.length
  omega

theorem items_spans {stop : Stop} {b : Builder} {lo : Int} (h : rules.Spanning)
    (hc : c.Placed s.text.length) (hlo : lo ≤ c.front s.text.length)
    (hb : b.In lo (c.front s.text.length)) :
    Yields (items rules stop b) s c (SpansFrom s.text.length lo c) := by
  -- the rest of the sequence
  have more : ∀ (b' : Builder) (c' : Cursor), c.Reads c' → c'.Placed s.text.length →
      b'.In lo (c'.front s.text.length) →
      Yields (rules.items stop b') s c' (SpansFrom s.text.length lo c) := by
    intro b' c' hr hc' hb'
    have hfront := hr.front_le hc.sound
    refine (h.items hc' (by omega) hb').mono ?_
    intro ns c2 h2
    exact ⟨hr.trans h2.reads, h2.placed, h2.nodes⟩
  -- a node that was read is added behind the others
  have added : ∀ (n : Node) (c' : Cursor), Spans s.text.length c n c' →
      Yields (rules.items stop (b.add n)) s c' (SpansFrom s.text.length lo c) := by
    intro n c' hn
    have hfront := hn.past.1.front_le hc.sound
    have hstop := hn.placed.sound.lastStop_le_front
    exact more _ c' hn.past.1 hn.placed (hb.add (by omega) (hn.node.mono hlo (by omega)))
  have literal : ∀ {kind : TokenKind}, (c.token s.text.length 0).kind = kind →
      kind = .char ∨ kind = .caret ∨ kind = .underscore →
      Yields (rules.items stop (b.addToken (c.token s.text.length 0))) s c.tail
        (SpansFrom s.text.length lo c) := by
    rintro kind rfl hkind
    refine more _ _ c.reads_tail (hc.tail fun hcommand => ?_) (hb.addToken hlo hc hkind)
    rw [hcommand] at hkind
    exact absurd hkind (by simp)
  unfold items
  rw [yields_lookahead]
  refine yields_ite (fun _ => yields_pure.mpr ⟨.refl c, hc, hb.finish⟩) fun _ => ?_
  rw [yields_peek]
  split
  · rename_i hk
    rw [yields_next]
    exact literal hk (by simp)
  · rename_i hk
    rw [yields_next]
    exact literal hk (by simp)
  · rename_i kind hk
    exact Yields.bind (group_spans h hc hk) added
  · rename_i hk
    exact Yields.bind (absolute_spans h hc hk) added
  · rename_i hk
    refine Yields.bind (caret_spans hc hlo hb hk) ?_
    intro b' c' ⟨hr, hc', hb'⟩
    exact more b' c' hr hc' hb'
  · rename_i hk
    refine Yields.bind (h.command hc hk) ?_
    intro o c' ⟨hp, hc', hn⟩
    cases o with
    | some n => exact added n c' (hn n rfl)
    | none => exact more b c' hp.1 hc' (hb.mono (Int.ofNat_le.mpr (hp.1.front_le hc.sound)))
  all_goals exact yields_unexpected

theorem sequence_spans {stop : Stop} {definable : Bool} (hframing : rules.Framing)
    (h : rules.Spanning) (hc : c.Placed s.text.length) :
    Yields (sequence rules stop definable) s c
      (SpansFrom s.text.length (c.front s.text.length) c) := by
  unfold sequence
  refine yields_nested ?_
  cases definable with
  | false => exact items_spans h hc (Int.le_refl _) Builder.in_empty
  | true =>
      refine Yields.bind (definition_spans hframing h hc) ?_
      intro first c' ⟨hr, hc', hn⟩
      have hfront : (c.front s.text.length : Int) ≤ c'.front s.text.length :=
        Int.ofNat_le.mpr (hr.front_le hc.sound)
      have hb : ∀ (b : Builder), b.In (c.front s.text.length) (c'.front s.text.length) →
          Yields (items rules stop b) { s with depth := s.depth + 1 } c'
            (SpansFrom s.text.length (c.front s.text.length) c) := by
        intro b hb
        refine (items_spans h hc' hfront hb).mono ?_
        intro ns c2 h2
        exact ⟨hr.trans h2.reads, h2.placed, h2.nodes⟩
      cases first with
      | some n => exact hb _ (Builder.in_empty.add (Int.le_refl _) (hn n rfl))
      | none => exact hb _ Builder.in_empty

/-! ## Arguments -/

theorem Token.isOperand_ascii {t : Token} (h : t.isOperand = true) :
    t.kind = .char ∧ ∀ b ∈ t.text, b < 0x80 := by
  refine ⟨Token.isOperand_char h, ?_⟩
  unfold Token.isOperand at h
  rw [Bool.and_eq_true] at h
  obtain ⟨-, h⟩ := h
  split at h
  · rename_i b hb
    rw [hb]
    intro x hx
    rw [List.mem_singleton.mp hx]
    simp only [Bool.or_eq_true, beq_iff_eq] at h
    rcases h with (hletter | hdigit) | rfl
    · exact letter_ascii hletter
    · unfold Text.isDigit at hdigit
      simp only [Bool.and_eq_true, decide_eq_true_eq] at hdigit
      exact UInt8.lt_of_le_of_lt hdigit.2 (by decide)
    · decide
  · exact absurd h (by simp)

/-- A token of an operand is as wide as its text, which is ASCII. -/
theorem operandToken_width {t : Token} {ts : List Token} (hc : c.Placed size)
    (hrest : c.rest = t :: ts) (ht : t.isOperand = true) :
    t.start + t.text.length ≤ c.tail.lastStop ∧ c.tail.Placed size ∧ c.tail.rest = ts := by
  obtain ⟨hk, hascii⟩ := Token.isOperand_ascii ht
  have htoken : c.token size 0 = t := by
    rw [Cursor.token, hrest]
    rfl
  have htame : (c.token size 0).Tame := tame_of_kind (htoken ▸ hk) (by simp)
  have hwidth := (hc.token_fits htame).literal (Or.inl (htoken ▸ hk))
  have hlast := Cursor.tail_lastStop (htoken ▸ hk) (by simp)
  have htail := Cursor.rest_tail (htoken ▸ hk) (by simp)
  rw [htoken, hrest] at htail
  rw [htoken] at hwidth hlast
  unfold extent at hwidth
  rw [Text.toValid_ascii hascii] at hwidth
  refine ⟨by omega, hc.tail htame, (List.cons.inj htail).2.symm⟩

/-- So is a run of them. -/
theorem operandRun_width {t : Token} {run ys : List Token} (hc : c.Placed size)
    (hrest : c.rest = t :: run ++ ys) (hrun : ∀ u ∈ t :: run, u.isOperand = true) :
    t.start + ((t :: run).flatMap (·.text)).length ≤ (c.skip (t :: run).length).lastStop := by
  induction run generalizing t c with
  | nil =>
      rw [List.flatMap_singleton]
      exact (operandToken_width hc hrest (hrun t List.mem_cons_self)).1
  | cons u run ih =>
      obtain ⟨hwidth, hc1, hrest1⟩ := operandToken_width hc hrest (hrun t List.mem_cons_self)
      have hmore := ih hc1 hrest1 fun v hv => hrun v (List.mem_cons_of_mem _ hv)
      have hplace := hc1.sound.lastStop_le_front
      have hfront : c.tail.front size = u.start := by
        unfold Cursor.front Cursor.token
        rw [hrest1]
        rfl
      rw [List.flatMap_cons, List.length_append]
      show _ ≤ (c.tail.skip (u :: run).length).lastStop
      omega

theorem operandRun_spans (hc : c.Placed size) (ht : (c.token size 0).isOperand = true) :
    Spans size c
      (unitAt ((c.rest.takeWhile Token.isOperand).flatMap (·.text))
        ⟨(c.token size 0).start, (c.token size 0).start
          + ((c.rest.takeWhile Token.isOperand).flatMap (·.text)).length⟩)
      (c.skip (c.rest.takeWhile Token.isOperand).length) := by
  obtain ⟨ts, hts⟩ := c.rest_of_kind (Token.isOperand_char ht) (by simp)
  have hrun : ∀ u ∈ c.rest.takeWhile Token.isOperand, u.isOperand = true := fun u hu =>
    List.all_eq_true.mp List.all_takeWhile u hu
  have hsplit : c.rest = c.rest.takeWhile Token.isOperand ++ c.rest.dropWhile Token.isOperand :=
    List.takeWhile_append_dropWhile.symm
  have hhead : c.rest.takeWhile Token.isOperand
      = c.token size 0 :: ts.takeWhile Token.isOperand := by
    rw [hts, List.takeWhile_cons_of_pos ht]
  have hwidth := operandRun_width hc (by rw [← hhead]; exact hsplit) (by rw [← hhead]; exact hrun)
  rw [← hhead] at hwidth
  obtain ⟨hc', -, -⟩ := hc.skip hsplit fun u hu =>
    tame_of_kind (Token.isOperand_char (hrun u hu)) (by simp)
  refine ⟨c.past_skip ?_ (by rw [hts]; simp), hc', ?_⟩
  · rw [hhead]
    simp
  · refine spanned_unitAt (Int.le_refl _) (by dsimp only; omega) (Int.le_of_eq ?_)
    unfold extent
    rw [Text.toValid_ascii ?_]
    intro b hb
    obtain ⟨u, hu, hb⟩ := List.mem_flatMap.mp hb
    exact (Token.isOperand_ascii (hrun u hu)).2 b hb

theorem operand_spans (h : rules.Spanning) (hc : c.Placed s.text.length) :
    Yields (operand rules) s c (Spans s.text.length c) := by
  unfold operand
  rw [yields_peek]
  split
  · rename_i hk
    refine Yields.bind (groupContents_spans h hc hk) ?_
    intro r c' hr
    exact yields_pure.mpr (spans_group hc hr)
  · rename_i kind hk
    exact group_spans h hc hk
  · rename_i hk
    exact absolute_spans h hc hk
  · rename_i hk
    refine Yields.bind (h.command hc hk) ?_
    intro o c' ⟨hp, hc', hn⟩
    cases o with
    | some n => exact yields_pure.mpr (hn n rfl).wrapCurly
    | none => exact (h.operand hc').mono fun n c2 h2 => h2.behind hc hp.1
  · refine yields_ite (fun ht => ?_) fun _ => yields_unexpected
    rw [yields_lookahead, yields_skip]
    exact yields_pure.mpr (operandRun_spans hc ht)
  · exact yields_unexpected

theorem scriptArg_spans (h : rules.Spanning) (hc : c.Placed s.text.length) :
    Yields (scriptArg rules) s c (Spans s.text.length c) := by
  unfold scriptArg
  rw [yields_peek]
  split
  · rename_i hk
    exact group_spans h hc hk
  · rename_i hk
    have htame := tame_of_kind hk (by simp)
    rw [yields_next]
    refine yields_pure.mpr ⟨c.past_tail hk (by simp), hc.tail htame, ?_⟩
    rw [Cursor.tail_lastStop hk (by simp)]
    exact spanned_unitAt (Int.le_refl _) (Int.le_refl _) ((hc.token_fits htame).literal (Or.inl hk))
  · rename_i hk
    refine Yields.bind (h.command hc hk) ?_
    intro o c' ⟨hp, hc', hn⟩
    cases o with
    | some n => exact yields_pure.mpr (hn n rfl).wrapCurly
    | none => exact (h.scriptArg hc').mono fun n c2 h2 => h2.behind hc hp.1
  · exact yields_unexpected

end MathMarkup.Grammar
