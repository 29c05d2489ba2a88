import MathMarkup.Proofs.Continuations
import MathMarkup.Proofs.Groups

/-!
# Productions before a boundary

Every production reads with a boundary behind the text what it reads of the text alone, up to
letters that follow an operand without brackets (`Rules.Carrying`). Each does so if the rules it
refers to do, so unfolding the grammar keeps it (`rulesTo_carrying`).
-/

namespace MathMarkup.Grammar

open MathMarkup.Grammar.Parser

variable {halt : Stop} {tail : List Token} {ends : Bool} {rules : Rules} {s s' : Scope} {c : Cursor}

/-! ## The contract -/

/-- How a sequence ends: loosely, or in some other way. -/
def sequenceLoose (nodes : List Node) : Option Bool := some (Node.endsLoose nodes)

/-- How a construct ends, if there is one. -/
def constructLoose (o : Option Node) : Option Bool := o.map Node.isLoose

/-- How an argument ends; `operand` tells what was asked for. -/
def argumentLoose (operand : Bool) (n : Node) : Option Bool := some (n.argumentLoose operand)

/-- Rules that read with a boundary behind the text what the grammar reads of the text. The sequence
of the whole text ends at its end, and before the boundary with the stop that belongs to it. -/
structure Rules.Carrying (halt : Stop) (tail : List Token) (ends : Bool) (rules : Rules) :
    Prop where
  inner : ∀ {stop : Stop} {definable : Bool} {s s' : Scope} {c : Cursor}, stop ≠ .finish →
    (definable = true → stop.Definable) → s.Fits tail s' → c.Apart tail ends →
    Follows tail (rules.sequence stop definable) (grammar.sequence stop definable) s s' c
      (Inside tail ends)
  outer : ∀ {definable : Bool} {s s' : Scope} {c : Cursor}, (definable = true → ends = false) →
    s.Fits tail s' → c.Apart tail ends →
    Follows tail (rules.sequence .finish definable) (grammar.sequence halt definable) s s' c
      (Carried tail ends sequenceLoose)
  innerItems : ∀ {stop : Stop} {b : Builder} {s s' : Scope} {c : Cursor}, stop ≠ .finish →
    s.Fits tail s' → c.Apart tail ends →
    Follows tail (rules.items stop b) (grammar.items stop b) s s' c (Inside tail ends)
  outerItems : ∀ {b : Builder} {s s' : Scope} {c : Cursor}, s.Fits tail s' → c.Apart tail ends →
    (c.rest = [] → ends = true → Node.endsLoose b.finish = false) →
    Follows tail (rules.items .finish b) (grammar.items halt b) s s' c
      (Carried tail ends sequenceLoose)
  finished : ∀ {b : Builder} {s : Scope} {c : Cursor}, c.rest = [] →
    Yields (rules.items .finish b) s c fun nodes c' => nodes = b.finish ∧ c' = c
  command : ∀ {s s' : Scope} {c : Cursor}, (c.token s.text.length 0).kind = .command →
    s.Fits tail s' → c.Apart tail ends →
    Follows tail rules.command grammar.command s s' c (Carried tail ends constructLoose)
  refused : ∀ {s : Scope} {c : Cursor}, (c.token s.text.length 0).isCommand ["end"] = true →
    Yields rules.command s c fun _ _ => False
  operand : ∀ {s s' : Scope} {c : Cursor}, s.Fits tail s' → c.Apart tail ends →
    Follows tail rules.operand grammar.operand s s' c (Carried tail ends (argumentLoose true))
  scriptArg : ∀ {s s' : Scope} {c : Cursor}, s.Fits tail s' → c.Apart tail ends →
    Follows tail rules.scriptArg grammar.scriptArg s s' c (Carried tail ends (argumentLoose false))
  rows : ∀ {matrix : Bool} {name : Text} {row before : List Node} {s s' : Scope} {c : Cursor},
    s.Fits tail s' → c.Apart tail ends →
    Follows tail (rules.rows matrix name row before) (grammar.rows matrix name row before) s s' c
      (Inside tail ends)

/-! ## Groups -/

theorem groupContents_follows {k : Bracket} (h : rules.Carrying halt tail ends)
    (hs : s.Fits tail s') (hc : c.Apart tail ends)
    (hk : (c.token s.text.length 0).kind = .opening k) :
    Follows tail (groupContents rules k) (groupContents grammar k) s s' c
      (Steady tail ends (Shut ends)) := by
  unfold groupContents
  refine follows_next (c.rest_ne_nil hk (by simp)) ?_
  refine (h.inner (by simp) (by simp) hs (hc.reads c.reads_tail)).bind_needs
    (fun nodes => (needs_expect (by simp)).bind) fun nodes c1 hc1 hne => ?_
  refine follows_expect (by simp) fun hz _ => follows_pure ⟨hc1.reads c1.reads_tail, ?_, rfl⟩
  exact hc1.closed_tail hz (by simp) (by simp)

theorem group_follows {k : Bracket} (h : rules.Carrying halt tail ends) (hs : s.Fits tail s')
    (hc : c.Apart tail ends) (hk : (c.token s.text.length 0).kind = .opening k) :
    Follows tail (group rules k) (group grammar k) s s' c (Steady tail ends (Shut ends)) := by
  unfold group
  refine (groupContents_follows h hs hc hk).bind_steady ?_
  rintro ⟨nodes, span⟩ c1 hc1 hshut
  exact follows_pure ⟨hc1, hshut, rfl⟩

theorem absolute_follows (h : rules.Carrying halt tail ends) (hs : s.Fits tail s')
    (hc : c.Apart tail ends) (hk : (c.token s.text.length 0).kind = .pipe) :
    Follows tail (absolute rules) (absolute grammar) s s' c (Steady tail ends (Shut ends)) := by
  unfold absolute
  refine follows_next (c.rest_ne_nil hk (by simp)) ?_
  refine (h.inner (by simp) (by simp) hs (hc.reads c.reads_tail)).bind_needs
    (fun nodes => (needs_expect (by simp)).bind) fun nodes c1 hc1 hne => ?_
  refine follows_expect (by simp) fun hz _ => follows_pure ⟨hc1.reads c1.reads_tail, ?_, rfl⟩
  exact hc1.closed_tail hz (by simp) (by simp)

/-! ## Carets -/

theorem caret_follows {b : Builder} (hb : Boundary halt tail) (hc : c.Apart tail ends)
    (hk : (c.token s.text.length 0).kind = .caret) :
    Follows tail (caret b) (caret b) s s' c (Steady tail ends (Shut ends)) := by
  have hne := c.rest_ne_nil hk (by simp)
  obtain ⟨u, behind, rfl, hu⟩ := hb.head
  unfold caret
  refine follows_peek hne (follows_lookahead ?_)
  obtain ⟨a, ts, hrest⟩ := List.exists_cons_of_ne_nil hne
  have hlook : degreeWidth? (c.rest ++ u :: behind) = degreeWidth? c.rest := by
    rw [hrest]
    exact degreeWidth?_followed hu a ts behind
  rw [hlook]
  cases hd : degreeWidth? c.rest with
  | none =>
      refine follows_next hne (follows_pure ⟨hc.reads c.reads_tail, ?_, rfl⟩)
      exact hc.closed_tail hk (by simp) (by simp)
  | some width =>
      -- the last token of a degree sign is a command or a brace
      obtain ⟨xs, z, ys, hsplit, hwidth, hz⟩ : ∃ xs z ys, c.rest = xs ++ z :: ys
          ∧ width = xs.length + 1 ∧ z.kind ≠ .char := by
        rcases degreeWidth?_split hd with
          ⟨a, v, ys, hts, rfl, hv⟩ | ⟨a, o, v, z, ys, hts, rfl, -, -, hz⟩
        · refine ⟨[a], v, ys, hts, rfl, ?_⟩
          rw [(isCommand_iff.mp hv).1]
          simp
        · refine ⟨[a, o, v], z, ys, hts, rfl, ?_⟩
          rw [hz]
          simp
      have hlen : width ≤ c.rest.length := by
        rw [hsplit, List.length_append, List.length_cons]
        omega
      refine follows_peekAt (by omega) ?_
      cases b.popOperand with
      | none => exact follows_of_yields yields_failAt
      | some popped =>
          refine follows_skip hlen (follows_pure ⟨hc.reads (c.reads_skip _), ?_, rfl⟩)
          have hleft : (c.skip width).rest = ys := by
            rw [skip_drop, hsplit, hwidth, List.drop_append]
            simp
          exact hc.closed hz (by rw [hleft]; exact hsplit)

/-! ## Sequences -/

/-- The head of a definition is read, and its body is left to `hbody`. -/
theorem definition_follows {stop stop' : Stop}
    {post : Option Node → Cursor → Except Halt (Option Node × Cursor) → Prop}
    (h : rules.Carrying halt tail ends) (hf : rules.Framing) (hs : s.Fits tail s')
    (hc : c.Apart tail ends) (hhead : definitionHead? (c.rest ++ tail) = definitionHead? c.rest)
    (hnone : post none c (.ok (none, c.followed tail)))
    (hbody : ∀ (make : List Node → Nat → Node) (c1 : Cursor), c1.Apart tail ends →
      Follows tail
        (do let body ← rules.sequence stop false
            let t ← peek
            pure (some (make body t.start)))
        (do let body ← grammar.sequence stop' false
            let t ← peek
            pure (some (make body t.start))) s s' c1 post) :
    Follows tail (definition rules stop) (definition grammar stop') s s' c post := by
  unfold definition
  refine follows_lookahead ?_
  rw [hhead]
  cases hd : definitionHead? c.rest with
  | none => exact follows_pure hnone
  | some p =>
      obtain ⟨name, width⟩ := p
      have hsign := variable_frames (s := s) hf hd
      obtain ⟨f, mid, rest, hrest, -, rfl, hv, -⟩ := definitionHead?_split hd
      obtain ⟨o, us, rfl, ho⟩ := startsVariable_opening hv
      refine follows_peek (by rw [hrest]; simp) ?_
      refine follows_skip (by rw [hrest, List.length_cons, List.length_append]; omega) ?_
      have hskip : (c.skip (mid.length + 1)).rest = o :: us := by
        rw [skip_drop, hrest, List.drop_succ_cons, List.drop_left]
      have hopen : ((c.skip (mid.length + 1)).token s.text.length 0).kind = .opening .round := by
        rw [Cursor.token, hskip]
        exact ho
      refine
        ((group_follows h hs (hc.reads (c.reads_skip _)) hopen).with_yields hsign).bind_steady ?_
      rintro inner c1 hc1 ⟨-, -, hchar⟩
      refine follows_next (c1.rest_ne_nil hchar (by simp)) ?_
      exact hbody (fun body last => .function name
        [unitAt (c.token s.text.length 0).text (c.token s.text.length 0).span, inner,
          argument body ⟨(c1.token s.text.length 0).stop, last⟩] none
        ⟨(c.token s.text.length 0).start, last⟩) c1.tail (hc1.reads c1.reads_tail)

/-- What a sequence that ends at the end of the text leaves is nothing. -/
theorem rest_nil_of_frames {c1 : Cursor} (hc : c.rest = []) (hframes : c.Frames c1) :
    c1.rest = [] := by
  obtain ⟨xs, hxs, -⟩ := hframes
  rw [hc] at hxs
  exact (List.append_eq_nil_iff.mp hxs.symm).2

/-- Before a token of the text a stop sees what it sees without the boundary. -/
theorem holds_followed (hb : Boundary halt tail) (hc : c.Apart tail ends) (hne : c.rest ≠ [])
    {stop : Stop} (hstop : stop ≠ .finish) : stop.holds (c.rest ++ tail) = stop.holds c.rest := by
  obtain ⟨t, ts, hrest⟩ := List.exists_cons_of_ne_nil hne
  rw [hrest]
  cases stop with
  | finish => exact absurd rfl hstop
  | kind k => rfl
  | arrow => rfl
  | cell matrix => rfl
  | differential =>
      cases ts with
      | cons v ts => rfl
      | nil =>
          obtain ⟨u, behind, rfl, -⟩ := hb.head
          show (t.isChar "d" && u.isLetter) = false
          by_cases hu : u.isLetter = true
          · rw [hc.clear u rfl hu t (by rw [hrest]; simp), Bool.false_and]
          · rw [Bool.not_eq_true] at hu
            rw [hu, Bool.and_false]

theorem items_inside {stop : Stop} {b : Builder} (hb : Boundary halt tail)
    (h : rules.Carrying halt tail ends) (hf : rules.Framing) (hs : s.Fits tail s')
    (hc : c.Apart tail ends) (hstop : stop ≠ .finish) :
    Follows tail (items rules stop b) (items grammar stop b) s s' c (Inside tail ends) := by
  by_cases hne : c.rest = []
  · intro nodes c1 hrun hc1
    exact absurd (rest_nil_of_frames hne (items_frames hf nodes c1 hrun).1) hc1
  unfold items
  refine follows_lookahead ?_
  rw [holds_followed hb hc hne hstop]
  refine follows_ite (fun _ => follows_pure fun _ => ⟨hc, rfl⟩) fun _ => ?_
  refine follows_peek hne ?_
  split
  · exact follows_next hne (h.innerItems hstop hs (hc.reads c.reads_tail))
  · exact follows_next hne (h.innerItems hstop hs (hc.reads c.reads_tail))
  · rename_i k hk
    exact (group_follows h hs hc hk).bind_steady fun n c1 hc1 _ => h.innerItems hstop hs hc1
  · rename_i hk
    exact (absolute_follows h hs hc hk).bind_steady fun n c1 hc1 _ => h.innerItems hstop hs hc1
  · rename_i hk
    exact (caret_follows hb hc hk).bind_steady fun b' c1 hc1 _ => h.innerItems hstop hs hc1
  · rename_i hk
    refine (h.command hk hs hc).inside.bind_inside ?_ ?_
    · intro o c1 hend
      have hvacuous : ∀ {nodes : List Node} {c2 : Cursor}, c1.Frames c2 →
          ∀ run, Inside tail ends nodes c2 run :=
        fun hframes run hc2 => absurd (rest_nil_of_frames hend hframes) hc2
      cases o with
      | none => exact hf.items.mono fun _ _ hr => hvacuous hr.1
      | some n => exact hf.items.mono fun _ _ hr => hvacuous hr.1
    · intro o c1 hc1 _
      cases o with
      | none => exact h.innerItems hstop hs hc1
      | some n => exact h.innerItems hstop hs hc1
  all_goals exact follows_of_yields yields_unexpected

/-! ### The sequence of the whole text -/

theorem flush_pending (b : Builder) : b.flush.pending = none := by
  unfold Builder.flush
  split <;> rfl

theorem finish_add (b : Builder) (n : Node) : (b.add n).finish = b.flush.nodes.reverse ++ [n] := by
  have hflush : (b.add n).flush = b.add n := by
    show Builder.flush ⟨n :: b.flush.nodes, b.flush.pending⟩ = ⟨n :: b.flush.nodes, b.flush.pending⟩
    rw [flush_pending]
    rfl
  unfold Builder.finish
  rw [hflush]
  exact List.reverse_cons

theorem endsLoose_add (b : Builder) (n : Node) : Node.endsLoose (b.add n).finish = n.isLoose := by
  rw [finish_add, Node.endsLoose, List.getLast?_append]
  rfl

/-- A sequence that ends in a letter or digit of its own is not loose. -/
theorem endsLoose_addToken {t : Token} (b : Builder) (ht : t.isOperand = true) :
    Node.endsLoose (b.addToken t).finish = false := by
  obtain ⟨x, hx⟩ : ∃ x, t.text = [x] := by
    unfold Token.isOperand at ht
    split at ht
    · rename_i x hx
      exact ⟨x, hx⟩
    · exact absurd ht (by simp)
  have hflush : (b.addToken t).flush.nodes.head?.any Node.isLoose = false := by
    simp only [Builder.addToken, Builder.addText, hx, Text.chars, Text.runes, Text.runesFrom,
      List.map_cons, List.map_nil, layOut, List.reverse_cons, List.reverse_nil, List.nil_append,
      List.cons_append, Builder.flush, List.head?_cons, Option.any_some, Node.isLoose]
  rw [Node.endsLoose, Builder.finish, List.getLast?_reverse]
  exact hflush

theorem Token.isLetter_operand {t : Token} (ht : t.isLetter = true) : t.isOperand = true := by
  unfold Token.isLetter at ht
  unfold Token.isOperand
  split at ht
  · simp only [Bool.and_eq_true] at ht
    simp [ht.1, ht.2]
  · exact absurd ht (by simp)

/-- Once the letters of a boundary are taken in, the sequence before it is over. -/
theorem Boundary.holds_dropWhile (hb : Boundary halt tail) :
    halt.holds (tail.dropWhile Token.isOperand) = true := by
  cases hb with
  | @separator matrix u rest hu =>
      have hoperand : u.isOperand = false := by
        rcases cell_holds_iff.mp hu with hk | ⟨-, hk⟩ | hend
        · simp [Token.isOperand, hk]
        · simp [Token.isOperand, hk]
        · simp [Token.isOperand, (isCommand_iff.mp hend).1]
      rw [List.dropWhile_cons_of_neg (by simp [hoperand])]
      exact hu
  | @differential u x hu hx =>
      have hd : u.isOperand = true := by
        obtain ⟨hk, htext⟩ : u.kind = .char ∧ u.text = "d" := by simpa [Token.isChar] using hu
        simp only [Token.isOperand, hk, htext]
        decide
      rw [List.dropWhile_cons_of_pos hd, List.dropWhile_cons_of_pos (Token.isLetter_operand hx)]
      rfl

/-- Where the boundary's sequence would end among the tokens of the text, the text is refused. -/
theorem refused_at_stop {b : Builder} (hb : Boundary halt tail) (h : rules.Carrying halt tail ends)
    (hc : c.Apart tail ends) (hne : c.rest ≠ []) (hstop : halt.holds (c.rest ++ tail) = true) :
    Yields (items rules .finish b) s c fun _ _ => False := by
  obtain ⟨t, ts, hrest⟩ := List.exists_cons_of_ne_nil hne
  have htoken : c.token s.text.length 0 = t := by rw [Cursor.token, hrest]; rfl
  unfold items
  rw [yields_lookahead, if_neg (by simp [hrest, Stop.holds]), yields_peek, htoken]
  rw [hrest, List.cons_append] at hstop
  cases hb with
  | @separator matrix u rest _ =>
      rcases cell_holds_iff.mp hstop with hk | ⟨-, hk⟩ | hend
      · rw [hk]
        exact yields_unexpected
      · rw [hk]
        exact yields_unexpected
      · rw [(isCommand_iff.mp hend).1]
        exact (h.refused (by rw [htoken]; exact hend)).bind fun _ _ hfalse => hfalse.elim
  | @differential u x hu hx =>
      -- no `d` is left in the text
      have hletter : u.isLetter = true := by
        obtain ⟨hk, htext⟩ : u.kind = .char ∧ u.text = "d" := by simpa [Token.isChar] using hu
        simp only [Token.isLetter, hk, htext]
        decide
      have hclear := hc.clear u rfl hletter t (by rw [hrest]; simp)
      cases ts <;> simp [Stop.holds, hclear] at hstop

theorem items_carried {b : Builder} (hb : Boundary halt tail) (h : rules.Carrying halt tail ends)
    (hs : s.Fits tail s') (hc : c.Apart tail ends)
    (hshut : c.rest = [] → ends = true → Node.endsLoose b.finish = false) :
    Follows tail (items rules .finish b) (items grammar halt b) s s' c
      (Carried tail ends sequenceLoose) := by
  by_cases hne : c.rest = []
  · unfold items
    refine follows_lookahead ?_
    rw [hne, List.nil_append, if_pos (show Stop.finish.holds [] = true from rfl), if_pos hb.holds]
    exact follows_pure (.same hc fun hend hends => congrArg some (hshut hend hends))
  by_cases hstop : halt.holds (c.rest ++ tail) = true
  · exact follows_of_yields (refused_at_stop hb h hc hne hstop)
  have hopen : Stop.finish.holds c.rest = false := by
    obtain ⟨t, ts, hrest⟩ := List.exists_cons_of_ne_nil hne
    rw [hrest]
    rfl
  have closed : ∀ {b' : Builder} {c1 : Cursor}, c1.Apart tail ends → (c1.rest = [] → ends = false) →
      Follows tail (rules.items .finish b') (grammar.items halt b') s s' c1
        (Carried tail ends sequenceLoose) := by
    intro b' c1 hc1 hend
    refine h.outerItems hs hc1 fun hnil hends => ?_
    rw [hend hnil] at hends
    exact absurd hends (by simp)
  unfold items
  refine follows_lookahead ?_
  rw [if_neg (by simp [hopen]), if_neg hstop]
  refine follows_peek hne ?_
  split
  · rename_i hk
    refine follows_next hne (h.outerItems hs (hc.reads c.reads_tail) fun hend hends => ?_)
    -- the last token is this one, and it belongs to a run
    have hrest := Cursor.rest_tail hk (by simp)
    have hlast := hc.last (c.token s.text.length 0) (by rw [hrest, hend]; rfl)
    rw [hends] at hlast
    exact endsLoose_addToken b (Bool.and_eq_true_iff.mp hlast.symm).1
  · rename_i hk
    exact follows_next hne (closed (hc.reads c.reads_tail) (hc.closed_tail hk (by simp) (by simp)))
  · rename_i k hk
    exact (group_follows h hs hc hk).bind_steady fun n c1 hc1 hshut => closed hc1 hshut
  · rename_i hk
    exact (absolute_follows h hs hc hk).bind_steady fun n c1 hc1 hshut => closed hc1 hshut
  · rename_i hk
    exact (caret_follows hb hc hk).bind_steady fun b' c1 hc1 hshut => closed hc1 hshut
  · rename_i hk
    refine (h.command hk hs hc).bind_carried ?_ ?_
    · intro o c1 hc1 hloose
      cases o with
      | none =>
          refine h.outerItems hs hc1 fun hend hends => ?_
          exact absurd (hloose hend hends) (by simp [constructLoose])
      | some n =>
          refine h.outerItems hs hc1 fun hend hends => ?_
          rw [endsLoose_add]
          exact Option.some.inj (hloose hend hends)
    · intro o o' c1 c1' hc1 hend hends hloose hloose' hrest
      obtain ⟨n, rfl, hn⟩ := Option.map_eq_some_iff.mp hloose
      obtain ⟨n', rfl, hn'⟩ := Option.map_eq_some_iff.mp hloose'
      refine (h.finished hend).mono ?_
      rintro nodes c2 ⟨rfl, rfl⟩
      obtain ⟨rest, stop⟩ := c1'
      have hholds : halt.holds rest = true := by
        rw [show rest = tail.dropWhile Token.isOperand from hrest]
        exact hb.holds_dropWhile
      show Carried tail ends sequenceLoose _ _ (grammar.items halt (b.add n') s' ⟨rest, stop⟩)
      rw [items_ends hholds]
      refine .grown hc1 hend hends ?_ ?_ hrest
      · rw [sequenceLoose, endsLoose_add, hn]
      · rw [sequenceLoose, endsLoose_add, hn']
  all_goals exact follows_of_yields yields_unexpected

/-- Nothing is left to add at the end of the text. -/
theorem items_finished {b : Builder} (hc : c.rest = []) :
    Yields (items rules .finish b) s c fun nodes c' => nodes = b.finish ∧ c' = c := by
  unfold items
  rw [yields_lookahead, if_pos (by rw [hc]; rfl)]
  exact yields_pure.mpr ⟨rfl, rfl⟩

/-! ### Nested sequences -/

/-- What a run gives that has come to the end of the text is of no interest before it is over. -/
theorem inside_of_frames {α : Type} {c1 c2 : Cursor} (hend : c1.rest = []) (hframes : c1.Frames c2)
    (a : α) (run : Except Halt (α × Cursor)) : Inside tail ends a c2 run :=
  fun hne => absurd (rest_nil_of_frames hend hframes) hne

/-- A fact that holds whenever the first run succeeds may be used. -/
theorem follows_of_success {α : Type} {p p' : Parser α} {P : Prop}
    {Q : α → Cursor → Except Halt (α × Cursor) → Prop} (hp : Yields p s c fun _ _ => P)
    (h : P → Follows tail p p' s s' c Q) : Follows tail p p' s s' c Q :=
  fun a c1 hrun => h (hp a c1 hrun) a c1 hrun

theorem sequence_head {stop : Stop} {definable : Bool} (hb : Boundary halt tail)
    (hf : rules.Framing) (hstop : stop.Definable) :
    Yields (sequence rules stop definable) s c fun _ _ =>
      definitionHead? (c.rest ++ tail) = definitionHead? c.rest := by
  refine (sequence_frames hf).mono ?_
  rintro nodes c1 ⟨⟨xs, hxs, hx⟩, hholds⟩
  rw [hxs]
  exact definitionHead?_followed hb hstop hx hholds

theorem Boundary.ne_nil (hb : Boundary halt tail) : tail ≠ [] := by
  cases hb <;> simp

theorem sequence_inside {stop : Stop} {definable : Bool} (hb : Boundary halt tail)
    (h : rules.Carrying halt tail ends) (hf : rules.Framing) (hs : s.Fits tail s')
    (hc : c.Apart tail ends) (hstop : stop ≠ .finish)
    (hdefinable : definable = true → stop.Definable) :
    Follows tail (sequence rules stop definable) (sequence grammar stop definable) s s' c
      (Inside tail ends) := by
  cases definable with
  | false => exact follows_nested hs (items_inside hb h hf hs.nested hc hstop)
  | true =>
      refine follows_of_success (sequence_head hb hf (hdefinable rfl)) fun hhead => ?_
      refine follows_nested hs (Follows.bind_inside (definition_follows h hf hs.nested hc hhead
        (fun _ => ⟨hc, rfl⟩) fun make c1 hc1 => ?_) ?_ ?_)
      · refine (h.inner hstop (by simp) hs.nested hc1).bind_inside (fun body c2 hend => ?_)
          fun body c2 hc2 _ => follows_start (k := fun last => some (make body last)) hs.nested
            hb.ne_nil fun _ => ⟨hc2, rfl⟩
        rw [yields_peek]
        exact yields_pure.mpr (inside_of_frames hend (.refl c2) _)
      · intro first c1 hend
        cases first with
        | none => exact (items_frames hf).mono fun nodes c2 hr => inside_of_frames hend hr.1 nodes
        | some n => exact (items_frames hf).mono fun nodes c2 hr => inside_of_frames hend hr.1 nodes
      · intro first c1 hc1 _
        cases first with
        | none => exact items_inside hb h hf hs.nested hc1 hstop
        | some n => exact items_inside hb h hf hs.nested hc1 hstop

theorem sequence_carried {definable : Bool} (hb : Boundary halt tail)
    (h : rules.Carrying halt tail ends) (hf : rules.Framing) (hs : s.Fits tail s')
    (hc : c.Apart tail ends) (hdefinable : definable = true → ends = false) :
    Follows tail (sequence rules .finish definable) (sequence grammar halt definable) s s' c
      (Carried tail ends sequenceLoose) := by
  cases definable with
  | false => exact follows_nested hs (items_carried hb h hs.nested hc fun _ _ => rfl)
  | true =>
      have hends := hdefinable rfl
      subst hends
      have hstop : Stop.finish.Definable := trivial
      refine follows_of_success (sequence_head hb hf hstop) fun hhead => ?_
      refine follows_nested hs (Follows.bind_steady (P := fun _ _ => True)
        (definition_follows h hf hs.nested hc hhead ⟨hc, trivial, rfl⟩ fun make c1 hc1 => ?_) ?_)
      · refine (h.outer (by simp) hs.nested hc1).bind_carried
          (fun body c2 hc2 _ => follows_start (k := fun last => some (make body last)) hs.nested
            hb.ne_nil ⟨hc2, trivial, rfl⟩) ?_
        intro _ _ _ _ _ _ hends
        exact absurd hends (by simp)
      · intro first c1 hc1 _
        cases first with
        | none => exact items_carried hb h hs.nested hc1 fun _ hends => absurd hends (by simp)
        | some n => exact items_carried hb h hs.nested hc1 fun _ hends => absurd hends (by simp)

end MathMarkup.Grammar
