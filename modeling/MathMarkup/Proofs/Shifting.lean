import MathMarkup.Proofs.Spacing

/-!
# Reading further on in a text

`shift k` moves places by `k` bytes. A parser that succeeds on some tokens succeeds on the same
tokens `k` bytes further on, with a value that is moved likewise (`Shifts`). So a sequence that is
read at the beginning of a text is read in the same way where it stands in a larger one, and its
tree differs in its offsets only (`rulesTo_shifting`).

A missing node has no place that could be moved. The parsers give none, and since they go by the
spans of nodes they have read, this is part of what is shown of them (`IsPresent`).
-/

namespace MathMarkup

/-! ## Moving places -/

/-- The span `k` bytes further on. -/
def Span.shift (k : Nat) (s : Span) : Span := ⟨s.start + k, s.stop + k⟩

theorem Span.shift_nat (k a b : Nat) :
    (⟨((a + k : Nat) : Int), ((b + k : Nat) : Int)⟩ : Span) = Span.shift k ⟨a, b⟩ := by
  simp [Span.shift]

/-- The character `k` bytes further on. -/
def Character.shift (k : Nat) (c : Character) : Character := { c with span := c.span.shift k }

namespace Node

mutual

/-- The tree `k` bytes further on. -/
def shift (k : Nat) : Node → Node
  | absent kind => absent kind
  | root es s => root (shiftList k es) (s.shift k)
  | expression w ns s => expression w (shiftList k ns) (s.shift k)
  | function name args exponent s =>
      function name (shiftList k args) (shiftOption k exponent) (s.shift k)
  | unit cs s => unit (cs.map (Character.shift k)) (s.shift k)
  | char c => char (c.shift k)
  | environment type es s => environment type (shiftList k es) (s.shift k)

/-- The trees of a list `k` bytes further on. -/
def shiftList (k : Nat) : List Node → List Node
  | [] => []
  | n :: ns => shift k n :: shiftList k ns

/-- A tree that may be missing, `k` bytes further on. -/
def shiftOption (k : Nat) : Option Node → Option Node
  | none => none
  | some n => some (shift k n)

end

@[simp] theorem shiftList_eq (k : Nat) (ns : List Node) : shiftList k ns = ns.map (shift k) := by
  induction ns with
  | nil => rfl
  | cons n ns ih => rw [shiftList, ih, List.map_cons]

@[simp] theorem shiftOption_eq (k : Nat) (o : Option Node) : shiftOption k o = o.map (shift k) := by
  cases o <;> rfl

/-- A node that is there, with a place of its own. -/
def IsPresent : Node → Prop
  | absent _ => False
  | _ => True

theorem shift_span {n : Node} (h : n.IsPresent) (k : Nat) : (n.shift k).span = n.span.shift k := by
  cases n with
  | absent => exact h.elim
  | _ => rfl

end Node

namespace Grammar

open MathMarkup.Grammar.Parser

variable {α β : Type} {k : Nat}

/-! ## Tokens -/

/-- The token `k` bytes further on. -/
def Token.shift (k : Nat) (t : Token) : Token := { t with start := t.start + k, stop := t.stop + k }

@[simp] theorem Token.shift_kind (t : Token) : (t.shift k).kind = t.kind := rfl

@[simp] theorem Token.shift_text (t : Token) : (t.shift k).text = t.text := rfl

theorem Token.shift_span (t : Token) : (t.shift k).span = t.span.shift k :=
  Span.shift_nat k t.start t.stop

theorem Token.moved_zero (t : Token) : t.moved 0 k = t.shift k := if_pos (Nat.zero_le _)

theorem bareTokens_shift (ts : List Token) :
    bareTokens (ts.map (Token.shift k)) = bareTokens ts := by
  rw [bareTokens, List.map_map]
  rfl

/-- What is told of tokens without their places is told of them further on. -/
theorem eq_of_shift {f : List Token → α} (hf : ∀ ts, f (bareTokens ts) = f ts) (ts : List Token) :
    f (ts.map (Token.shift k)) = f ts := by
  rw [← hf, bareTokens_shift, hf]

theorem takeWhile_shift (p : Token → Bool) (hp : ∀ t : Token, p (t.shift k) = p t)
    (ts : List Token) :
    (ts.map (Token.shift k)).takeWhile p = (ts.takeWhile p).map (Token.shift k) := by
  rw [List.takeWhile_map]
  congr 2
  funext t
  exact hp t

theorem flatMap_text_shift (ts : List Token) :
    (ts.map (Token.shift k)).flatMap (·.text) = ts.flatMap (·.text) := by
  rw [List.flatMap_map]
  rfl

theorem derivativeHead?_shift (ts : List Token) :
    derivativeHead? (ts.map (Token.shift k))
      = (derivativeHead? ts).map fun p => (p.1.shift k, p.2.shift k) := by
  rcases ts with _ | ⟨a, _ | ⟨d, _ | ⟨b, _ | ⟨c, _ | ⟨e, _ | ⟨x, _ | ⟨f, ts⟩⟩⟩⟩⟩⟩⟩ <;> try rfl
  simp only [derivativeHead?, List.map_cons]
  rw [apply_ite (Option.map _)]
  rfl

/-! ## Building a sequence -/

theorem layOut_shift (offset : Int) (cs : List Char) :
    (layOut offset cs).map (Character.shift k) = layOut (offset + k) cs := by
  induction cs generalizing offset with
  | nil => rfl
  | cons c cs ih =>
      simp only [layOut, List.map_cons, ih, Character.shift, Span.shift]
      rw [show offset + Text.encodedWidth c + (k : Int) = offset + k + Text.encodedWidth c by omega]

theorem unitAt_shift (t : Text) (s : Span) : (unitAt t s).shift k = unitAt t (s.shift k) := by
  rw [unitAt, Node.shift, layOut_shift]
  rfl

/-- An open unit `k` bytes further on. -/
def Pending.shift (k : Nat) (p : Pending) : Pending :=
  ⟨p.chars.map (Character.shift k), p.span.shift k⟩

/-- A sequence under construction `k` bytes further on. -/
def Builder.shift (k : Nat) (b : Builder) : Builder :=
  { nodes := b.nodes.map (Node.shift k), pending := b.pending.map (Pending.shift k) }

namespace Builder

/-- Nothing that was collected is missing. -/
def IsPresent (b : Builder) : Prop := ∀ n ∈ b.nodes, n.IsPresent

theorem endOf_shift (offset : Int) (cs : List Character) :
    endOf (offset + k) (cs.map (Character.shift k)) = endOf offset cs + k := by
  unfold endOf
  rw [List.getLast?_map]
  cases cs.getLast? <;> rfl

theorem addText_shift (b : Builder) (t : Text) (start : Int) :
    (b.addText t start).shift k = (b.shift k).addText t (start + k) := by
  obtain ⟨nodes, pending⟩ := b
  cases pending <;>
    simp [addText, Builder.shift, Pending.shift, Span.shift, ← layOut_shift, endOf_shift]

theorem addToken_shift (b : Builder) (t : Token) :
    (b.addToken t).shift k = (b.shift k).addToken (t.shift k) := by
  rw [addToken, addText_shift]
  rfl

theorem flush_shift (b : Builder) : b.flush.shift k = (b.shift k).flush := by
  obtain ⟨nodes, pending⟩ := b
  rcases pending with _ | ⟨_ | ⟨c, cs⟩, span⟩
  · rfl
  · rfl
  · simp [flush, Builder.shift, Pending.shift, Node.shift]

theorem add_shift (b : Builder) (n : Node) : (b.add n).shift k = (b.shift k).add (n.shift k) := by
  rw [add, add, ← flush_shift]
  rfl

theorem finish_shift (b : Builder) : b.finish.map (Node.shift k) = (b.shift k).finish := by
  rw [finish, finish, ← flush_shift, List.map_reverse]
  rfl

theorem popPending_shift (nodes : List Node) (p : Pending) :
    popPending (nodes.map (Node.shift k)) (p.shift k)
      = (popPending nodes p).map fun r => (r.1.shift k, r.2.shift k) := by
  have htake : (p.chars.map (Character.shift k)).takeWhile (isOperandCode ·.code)
      = (p.chars.takeWhile (isOperandCode ·.code)).map (Character.shift k) := by
    rw [List.takeWhile_map]
    rfl
  have hdrop : (p.chars.map (Character.shift k)).dropWhile (isOperandCode ·.code)
      = (p.chars.dropWhile (isOperandCode ·.code)).map (Character.shift k) := by
    rw [List.dropWhile_map]
    rfl
  unfold popPending
  simp only [Pending.shift, htake, hdrop, ← List.map_reverse]
  cases (p.chars.takeWhile (isOperandCode ·.code)).reverse with
  | nil => rfl
  | cons first more =>
      cases p.chars.dropWhile (isOperandCode ·.code) <;> rfl

theorem popOperand_shift (b : Builder) :
    (b.shift k).popOperand = b.popOperand.map fun r => (r.1.shift k, r.2.shift k) := by
  obtain ⟨nodes, pending⟩ := b
  rcases pending with _ | ⟨_ | ⟨c, cs⟩, span⟩
  -- nothing waits, so it is the last node that is taken back
  case some.cons => exact popPending_shift nodes ⟨c :: cs, span⟩
  all_goals
    rcases nodes with _ | ⟨n, before⟩
    · rfl
    · cases n with
      | unit chars s =>
          cases chars with
          | nil => rfl
          | cons c cs =>
              have h := popPending_shift (k := k) before ⟨(c :: cs).reverse, s⟩
              simp only [Pending.shift, List.map_reverse] at h
              exact h
      | _ => rfl

variable {b b' : Builder} {n : Node}

theorem IsPresent.addToken (h : b.IsPresent) (t : Token) : (b.addToken t).IsPresent := h

theorem IsPresent.flush (h : b.IsPresent) : b.flush.IsPresent := by
  obtain ⟨nodes, pending⟩ := b
  rcases pending with _ | ⟨_ | ⟨c, cs⟩, span⟩
  · exact h
  · exact h
  · exact List.forall_mem_cons.mpr ⟨trivial, h⟩

theorem IsPresent.add (h : b.IsPresent) (hn : n.IsPresent) : (b.add n).IsPresent :=
  List.forall_mem_cons.mpr ⟨hn, h.flush⟩

theorem popPending_present {nodes : List Node} {p : Pending} (h : ∀ n ∈ nodes, n.IsPresent)
    (hpop : popPending nodes p = some (n, b')) : n.IsPresent ∧ b'.IsPresent := by
  unfold popPending at hpop
  dsimp only at hpop
  split at hpop
  · cases hpop
  · cases hpop
    exact ⟨trivial, h⟩

theorem popOperand_present (h : b.IsPresent) (hpop : b.popOperand = some (n, b')) :
    n.IsPresent ∧ b'.IsPresent := by
  unfold popOperand at hpop
  split at hpop
  · exact popPending_present h hpop
  · split at hpop
    · cases hpop
    · next hnodes =>
        refine popPending_present (fun m hm => h m ?_) hpop
        rw [hnodes]
        exact List.mem_cons_of_mem _ hm
    · next hnodes =>
        cases hpop
        refine ⟨h _ (by rw [hnodes]; simp), fun m hm => h m ?_⟩
        rw [hnodes]
        exact List.mem_cons_of_mem _ hm

end Builder

/-! ## Runs further on -/

/-- The cursor `k` bytes further on. -/
def Cursor.shift (k : Nat) (c : Cursor) : Cursor := ⟨c.rest.map (Token.shift k), c.lastStop + k⟩

/-- The second scope is that of a text which ends `k` bytes further on. -/
structure Scope.Shifted (k : Nat) (s s' : Scope) : Prop where
  length : s'.text.length = s.text.length + k
  limit : s'.limit = s.limit
  depth : s'.depth = s.depth

/-- What the first parser gives fulfils `P`, and the second gives the same `k` bytes further on. -/
def Shifts (k : Nat) (f : α → α) (P : α → Prop) (p p' : Parser α) : Prop :=
  ∀ (s s' : Scope) (c : Cursor) (a : α) (c1 : Cursor), s.Shifted k s' → p s c = .ok (a, c1) →
    P a ∧ p' s' (c.shift k) = .ok (f a, c1.shift k)

/-- Any value will do. -/
abbrev Any (_ : α) : Prop := True

section Steps

variable {f : α → α} {g : β → β} {P : α → Prop} {Q : β → Prop} {p p' : Parser α}
  {q q' : α → Parser β}

theorem Shifts.bind (hp : Shifts k f P p p') (hq : ∀ a, P a → Shifts k g Q (q a) (q' (f a))) :
    Shifts k g Q (p >>= q) (p' >>= q') := by
  intro s s' c b c2 hs hrun
  rw [run_bind] at hrun
  cases hfirst : p s c with
  | error halt =>
      rw [hfirst] at hrun
      cases hrun
  | ok r =>
      obtain ⟨a, c1⟩ := r
      rw [hfirst] at hrun
      obtain ⟨ha, hfirst'⟩ := hp s s' c a c1 hs hfirst
      rw [bind_of_ok hfirst']
      exact hq a ha s s' c1 b c2 hs hrun

theorem shifts_pure {a a' : α} (hP : P a) (h : a' = f a) : Shifts k f P (pure a) (pure a') := by
  intro s s' c b c1 _ hrun
  cases hrun
  rw [h]
  exact ⟨hP, rfl⟩

theorem Shifts.map {m : α → β} (hp : Shifts k f P p p') (hQ : ∀ a, P a → Q (m a))
    (hm : ∀ a, m (f a) = g (m a)) : Shifts k g Q (m <$> p) (m <$> p') := by
  show Shifts k g Q (p >>= fun a => pure (m a)) (p' >>= fun a => pure (m a))
  exact hp.bind fun a ha => shifts_pure (hQ a ha) (hm a)

theorem Shifts.any (hp : Shifts k f P p p') : Shifts k f Any p p' := fun s s' c a c1 hs hrun =>
  ⟨trivial, (hp s s' c a c1 hs hrun).2⟩

theorem shifts_ite {b b' : Prop} [Decidable b] [Decidable b'] {r r' : Parser α} (hb : b' ↔ b)
    (hp : b → Shifts k f P p p') (hr : ¬ b → Shifts k f P r r') :
    Shifts k f P (if b then p else r) (if b' then p' else r') := by
  by_cases h : b
  · rw [if_pos h, if_pos (hb.mpr h)]
    exact hp h
  · rw [if_neg h, if_neg (mt hb.mp h)]
    exact hr h

/-- A parser that always fails is followed by any other. -/
theorem shifts_fails (h : ∀ s c, ∃ e, p s c = .error e) : Shifts k f P p p' := by
  intro s s' c a c1 _ hrun
  obtain ⟨e, he⟩ := h s c
  rw [he] at hrun
  cases hrun

theorem shifts_unexpected {t t' : Token} {expected : List Text} :
    Shifts k f P (unexpected t expected) (unexpected t' expected) :=
  shifts_fails fun _ _ => ⟨_, rfl⟩

theorem shifts_failAt {start stop : Nat} {found detail suggestion : Text} {r : Parser α} :
    Shifts k f P (failAt start stop found detail suggestion) r :=
  shifts_fails fun _ _ => ⟨_, rfl⟩

end Steps

/-! ## Steps over tokens -/

section Tokens

variable {c : Cursor}

theorem Cursor.shift_token {size size' : Nat} (h : size' = size + k) (i : Nat) :
    (c.shift k).token size' i = (c.token size i).shift k := by
  unfold Cursor.token Cursor.shift
  rw [List.getElem?_map]
  cases c.rest[i]? with
  | none =>
      rw [h]
      rfl
  | some t => rfl

theorem Cursor.shift_tail : (c.shift k).tail = c.tail.shift k := by
  obtain ⟨rest, stop⟩ := c
  cases rest <;> rfl

theorem Cursor.shift_skip (i : Nat) : (c.shift k).skip i = (c.skip i).shift k := by
  induction i generalizing c with
  | zero => rfl
  | succ i ih => rw [Cursor.skip, Cursor.skip, Cursor.shift_tail, ih]

theorem shifts_peekAt (i : Nat) : Shifts k (Token.shift k) Any (peekAt i) (peekAt i) := by
  intro s s' c t c1 hs hrun
  rw [peekAt_eq] at hrun ⊢
  cases hrun
  rw [Cursor.shift_token hs.length]
  exact ⟨trivial, rfl⟩

theorem shifts_peek : Shifts k (Token.shift k) Any peek peek := shifts_peekAt 0

theorem shifts_lookahead : Shifts k (List.map (Token.shift k)) Any lookahead lookahead := by
  intro s s' c ts c1 _ hrun
  cases hrun
  exact ⟨trivial, rfl⟩

theorem shifts_next : Shifts k (Token.shift k) Any next next := by
  intro s s' c t c1 hs hrun
  rw [next_eq] at hrun ⊢
  cases hrun
  rw [Cursor.shift_token hs.length, Cursor.shift_tail]
  exact ⟨trivial, rfl⟩

theorem shifts_skip (i : Nat) : Shifts k id Any (Parser.skip i) (Parser.skip i) := by
  intro s s' c u c1 _ hrun
  rw [skip_eq] at hrun ⊢
  cases hrun
  rw [Cursor.shift_skip]
  exact ⟨trivial, rfl⟩

theorem shifts_lastStop : Shifts k (· + k) Any lastStop lastStop := by
  intro s s' c n c1 _ hrun
  cases hrun
  exact ⟨trivial, rfl⟩

theorem shifts_expect (kind : TokenKind) :
    Shifts k (Token.shift k) Any (expect kind) (expect kind) := by
  unfold expect
  refine shifts_peek.bind fun t _ => ?_
  exact shifts_ite Iff.rfl (fun _ => shifts_next) fun _ => shifts_unexpected

theorem shifts_nested {f : α → α} {P : α → Prop} {p p' : Parser α} (h : Shifts k f P p p') :
    Shifts k f P (nested p) (nested p') := by
  intro s s' c a c1 hs hrun
  unfold nested at hrun ⊢
  rw [hs.depth, hs.limit]
  split at hrun
  · cases hrun
  · next hdepth =>
      rw [if_neg hdepth]
      exact h { s with depth := s.depth + 1 } _ c a c1 ⟨hs.length, rfl, rfl⟩ hrun

theorem rewordAtEnd_ok {p : Parser α} {detail : Text} {s : Scope} {c : Cursor} {r : α × Cursor} :
    rewordAtEnd detail p s c = .ok r ↔ p s c = .ok r := by
  unfold Parser.rewordAtEnd
  split
  · next hrun => simp [hrun]
  · rfl

theorem Shifts.rewordAtEnd {f : α → α} {P : α → Prop} {p p' : Parser α} {detail : Text}
    (h : Shifts k f P p p') : Shifts k f P (rewordAtEnd detail p) (rewordAtEnd detail p') := by
  intro s s' c a c1 hs hrun
  obtain ⟨ha, hrun'⟩ := h s s' c a c1 hs (rewordAtEnd_ok.mp hrun)
  exact ⟨ha, rewordAtEnd_ok.mpr hrun'⟩

end Tokens

/-! ## The contract of the productions -/

/-- A node that may be missing. -/
theorem Shifts.some {P : Node → Prop} {p p' : Parser Node} (h : Shifts k (Node.shift k) P p p') :
    Shifts k (Option.map (Node.shift k)) Any (Option.some <$> p) (Option.some <$> p') :=
  h.map (fun _ _ => trivial) fun _ => rfl

/-- A node that is there, if there is one. -/
def OptionPresent : Option Node → Prop
  | none => True
  | some n => n.IsPresent

/-- Rules that give the same further on in a text. -/
structure Rules.Shifting (k : Nat) (rules : Rules) : Prop where
  sequence : ∀ {stop : Stop} {definable : Bool},
    Shifts k (List.map (Node.shift k)) Any (rules.sequence stop definable)
      (rules.sequence stop definable)
  items : ∀ {stop : Stop} {b : Builder}, b.IsPresent →
    Shifts k (List.map (Node.shift k)) Any (rules.items stop b) (rules.items stop (b.shift k))
  command : Shifts k (Option.map (Node.shift k)) OptionPresent rules.command rules.command
  operand : Shifts k (Node.shift k) Any rules.operand rules.operand
  scriptArg : Shifts k (Node.shift k) Any rules.scriptArg rules.scriptArg
  rows : ∀ {matrix : Bool} {name : Text} {row before : List Node},
    Shifts k (List.map (Node.shift k)) Any (rules.rows matrix name row before)
      (rules.rows matrix name (row.map (Node.shift k)) (before.map (Node.shift k)))

variable {rules : Rules}

/-! ## Groups, carets and definitions -/

theorem argument_shift (nodes : List Node) (start stop : Nat) :
    (argument nodes ⟨start, stop⟩).shift k
      = argument (nodes.map (Node.shift k))
        ⟨((start + k : Nat) : Int), ((stop + k : Nat) : Int)⟩ := by
  rw [argument, Node.shift, Node.shiftList_eq, Span.shift_nat]
  rfl

theorem function_shift (name : FunctionName) (args : List Node) (e : Option Node)
    (start stop : Nat) :
    (Node.function name args e ⟨start, stop⟩).shift k
      = .function name (args.map (Node.shift k)) (e.map (Node.shift k))
        ⟨((start + k : Nat) : Int), ((stop + k : Nat) : Int)⟩ := by
  rw [Node.shift, Node.shiftList_eq, Node.shiftOption_eq, Span.shift_nat]

theorem groupContents_shifts {kind : Bracket} (h : rules.Shifting k) :
    Shifts k (fun r => (r.1.map (Node.shift k), r.2.shift k)) Any (groupContents rules kind)
      (groupContents rules kind) := by
  unfold groupContents
  refine shifts_next.bind fun first _ => h.sequence.bind fun nodes _ => ?_
  refine (shifts_expect _).bind fun last _ => shifts_pure trivial ?_
  rw [← Span.shift_nat]
  rfl

theorem group_shifts {kind : Bracket} (h : rules.Shifting k) :
    Shifts k (Node.shift k) Node.IsPresent (group rules kind) (group rules kind) := by
  unfold group
  refine (groupContents_shifts h).bind fun r _ => shifts_pure trivial ?_
  rw [Node.shift, Node.shiftList_eq]

theorem absolute_shifts (h : rules.Shifting k) :
    Shifts k (Node.shift k) Node.IsPresent (absolute rules) (absolute rules) := by
  unfold absolute
  refine shifts_next.bind fun first _ => h.sequence.bind fun nodes _ => ?_
  refine (shifts_expect _).bind fun last _ => shifts_pure trivial ?_
  rw [function_shift, List.map_singleton, argument_shift]
  rfl

theorem caret_shifts {b : Builder} (hb : b.IsPresent) :
    Shifts k (Builder.shift k) Builder.IsPresent (caret b) (caret (b.shift k)) := by
  unfold caret
  refine shifts_peek.bind fun sign _ => shifts_lookahead.bind fun ts _ => ?_
  rw [eq_of_shift degreeWidth?_bare]
  cases degreeWidth? ts with
  | none =>
      refine shifts_next.bind fun _ _ => shifts_pure (hb.addToken sign) ?_
      rw [Builder.addToken_shift]
  | some width =>
      refine (shifts_peekAt _).bind fun last _ => ?_
      rw [Builder.popOperand_shift]
      cases hpop : b.popOperand with
      | none => exact shifts_failAt
      | some r =>
          obtain ⟨operand, before⟩ := r
          -- the degrees begin where the operand does, so it must have a place
          obtain ⟨hoperand, hbefore⟩ := Builder.popOperand_present hb hpop
          refine (shifts_skip _).bind fun _ _ => shifts_pure (hbefore.add trivial) ?_
          rw [Builder.add_shift, Node.shift_span hoperand]
          simp [Node.shift, Span.shift, Token.shift]

theorem definition_shifts {stop : Stop} (h : rules.Shifting k) :
    Shifts k (Option.map (Node.shift k)) OptionPresent (definition rules stop)
      (definition rules stop) := by
  unfold definition
  refine shifts_lookahead.bind fun ts _ => ?_
  rw [eq_of_shift definitionHead?_bare]
  cases definitionHead? ts with
  | none => exact shifts_pure trivial rfl
  | some r =>
      refine shifts_peek.bind fun letter _ => (shifts_skip _).bind fun _ _ => ?_
      refine (group_shifts h).bind fun inner _ => shifts_next.bind fun sign _ => ?_
      refine h.sequence.bind fun body _ => shifts_peek.bind fun last _ => ?_
      refine shifts_pure trivial ?_
      rw [Option.map_some, function_shift]
      simp only [List.map_cons, List.map_nil, unitAt_shift, argument_shift, Token.shift_span]
      rfl

/-! ## Sequences -/

theorem items_shifts {stop : Stop} {b : Builder} (h : rules.Shifting k) (hb : b.IsPresent) :
    Shifts k (List.map (Node.shift k)) Any (items rules stop b) (items rules stop (b.shift k)) := by
  unfold items
  refine shifts_lookahead.bind fun ts _ => ?_
  rw [eq_of_shift stop.holds_bare]
  refine shifts_ite Iff.rfl (fun _ => shifts_pure trivial b.finish_shift.symm) fun _ => ?_
  refine shifts_peek.bind fun t _ => ?_
  have hadded : Shifts k (List.map (Node.shift k)) Any (rules.items stop (b.addToken t))
      (rules.items stop ((b.shift k).addToken (t.shift k))) := by
    rw [← Builder.addToken_shift]
    exact h.items (hb.addToken t)
  have hnode : ∀ n : Node, n.IsPresent → Shifts k (List.map (Node.shift k)) Any
      (rules.items stop (b.add n)) (rules.items stop ((b.shift k).add (n.shift k))) := by
    intro n hn
    rw [← Builder.add_shift]
    exact h.items (hb.add hn)
  rw [Token.shift_kind]
  cases t.kind with
  | char => exact shifts_next.bind fun _ _ => hadded
  | underscore => exact shifts_next.bind fun _ _ => hadded
  | opening kind => exact (group_shifts h).bind hnode
  | pipe => exact (absolute_shifts h).bind hnode
  | caret => exact (caret_shifts hb).bind fun b' hb' => h.items hb'
  | command =>
      refine h.command.bind fun o ho => ?_
      cases o with
      | none => exact h.items hb
      | some n => exact hnode n ho
  | finish => exact shifts_unexpected
  | rowBreak => exact shifts_unexpected
  | closing kind => exact shifts_unexpected
  | ampersand => exact shifts_unexpected

theorem sequence_shifts {stop : Stop} {definable : Bool} (h : rules.Shifting k) :
    Shifts k (List.map (Node.shift k)) Any (sequence rules stop definable)
      (sequence rules stop definable) := by
  have hempty : Builder.IsPresent {} := by simp [Builder.IsPresent]
  have hitems :
      Shifts k (List.map (Node.shift k)) Any (items rules stop {}) (items rules stop {}) :=
    items_shifts h hempty
  unfold sequence
  refine shifts_nested ?_
  cases definable with
  | false => exact hitems
  | true =>
      refine (definition_shifts h).bind fun first hfirst => ?_
      cases first with
      | none => exact hitems
      | some n => exact items_shifts h (hempty.add hfirst)

/-! ## Arguments -/

theorem wrapCurly_shift {n : Node} (h : n.IsPresent) :
    wrapCurly (n.shift k) = (wrapCurly n).shift k := by
  rw [wrapCurly, Node.shift_span h]
  rfl

theorem operand_shifts (h : rules.Shifting k) :
    Shifts k (Node.shift k) Any (operand rules) (operand rules) := by
  unfold operand
  refine shifts_peek.bind fun t _ => ?_
  rw [Token.shift_kind]
  split
  · refine (groupContents_shifts h).bind fun r _ => shifts_pure trivial ?_
    rw [Node.shift, Node.shiftList_eq]
  · exact (group_shifts h).any
  · exact (absolute_shifts h).any
  · refine h.command.bind fun o ho => ?_
    cases o with
    | none => exact h.operand
    | some n => exact shifts_pure trivial (wrapCurly_shift ho)
  · refine shifts_ite Iff.rfl (fun _ => ?_) fun _ => shifts_unexpected
    refine shifts_lookahead.bind fun ts _ => ?_
    dsimp only
    rw [takeWhile_shift Token.isOperand fun _ => rfl, List.length_map, flatMap_text_shift]
    refine (shifts_skip _).bind fun _ _ => shifts_pure trivial ?_
    rw [unitAt_shift]
    congr 1
    simp [Span.shift, Token.shift]
    omega
  · exact shifts_unexpected

theorem scriptArg_shifts (h : rules.Shifting k) :
    Shifts k (Node.shift k) Any (scriptArg rules) (scriptArg rules) := by
  unfold scriptArg
  refine shifts_peek.bind fun t _ => ?_
  rw [Token.shift_kind]
  split
  · exact (group_shifts h).any
  · refine shifts_next.bind fun _ _ => shifts_pure trivial ?_
    rw [unitAt_shift, Token.shift_span, Token.shift_text]
  · refine h.command.bind fun o ho => ?_
    cases o with
    | none => exact h.scriptArg
    | some n => exact shifts_pure trivial (wrapCurly_shift ho)
  · exact shifts_unexpected

/-! ## Commands -/

theorem unary_shifts {name : FunctionName} (h : rules.Shifting k) :
    Shifts k (Node.shift k) Node.IsPresent (unary rules name) (unary rules name) := by
  unfold unary
  refine shifts_next.bind fun head _ => (scriptArg_shifts h).bind fun arg _ => ?_
  refine shifts_lastStop.bind fun stop _ => shifts_pure trivial ?_
  rw [function_shift]
  rfl

theorem binary_shifts {name : FunctionName} (h : rules.Shifting k) :
    Shifts k (Node.shift k) Node.IsPresent (binary rules name) (binary rules name) := by
  unfold binary
  refine shifts_next.bind fun head _ => ?_
  refine (scriptArg_shifts h).bind fun one _ => (scriptArg_shifts h).bind fun two _ => ?_
  refine shifts_lastStop.bind fun stop _ => shifts_pure trivial ?_
  rw [function_shift]
  rfl

theorem named_shifts {name : Text} (h : rules.Shifting k) :
    Shifts k (Node.shift k) Node.IsPresent (named rules name) (named rules name) := by
  -- the argument behind the name, with or without an exponent
  have rest : ∀ (head : Token) (e : Option Node),
      Shifts k (Node.shift k) Node.IsPresent
        (do
          let arg ← operand rules
          pure (Node.function .regular [unitAt name head.span, arg] e ⟨head.start, ← lastStop⟩))
        (do
          let arg ← operand rules
          pure (Node.function .regular [unitAt name (head.shift k).span, arg] (e.map (Node.shift k))
            ⟨(head.shift k).start, ← lastStop⟩)) := by
    intro head e
    refine (operand_shifts h).bind fun arg _ => shifts_lastStop.bind fun stop _ => ?_
    refine shifts_pure trivial ?_
    rw [function_shift, List.map_cons, unitAt_shift, Token.shift_span]
    rfl
  unfold named
  refine shifts_next.bind fun head _ => shifts_peek.bind fun t _ => ?_
  dsimp only
  refine shifts_ite Iff.rfl (fun _ => ?_) fun _ => ?_
  · refine shifts_next.bind fun _ _ => ?_
    exact (scriptArg_shifts h).some.bind fun e _ => rest head e
  · exact rest head none

theorem fraction_shifts (h : rules.Shifting k) :
    Shifts k (Node.shift k) Node.IsPresent (fraction rules) (fraction rules) := by
  unfold fraction
  refine shifts_next.bind fun head _ => shifts_lookahead.bind fun ts _ => ?_
  rw [derivativeHead?_shift]
  cases derivativeHead? ts with
  | none =>
      refine (scriptArg_shifts h).bind fun one _ => (scriptArg_shifts h).bind fun two _ => ?_
      refine shifts_lastStop.bind fun stop _ => shifts_pure trivial ?_
      rw [function_shift]
      rfl
  | some r =>
      refine (shifts_skip _).bind fun _ _ => (operand_shifts h).bind fun arg _ => ?_
      refine shifts_lastStop.bind fun stop _ => shifts_pure trivial ?_
      rw [function_shift]
      simp only [List.map_cons, unitAt_shift, Token.shift_span]
      rfl

theorem root_shifts (h : rules.Shifting k) :
    Shifts k (Node.shift k) Node.IsPresent (root rules) (root rules) := by
  have rest : ∀ (head : Token) (degree : Option Node),
      Shifts k (Node.shift k) Node.IsPresent
        (do
          let radicand ← scriptArg rules
          pure (Node.function .sqrt (degree.toList ++ [radicand]) none ⟨head.start, ← lastStop⟩))
        (do
          let radicand ← scriptArg rules
          pure (Node.function .sqrt ((degree.map (Node.shift k)).toList ++ [radicand]) none
            ⟨(head.shift k).start, ← lastStop⟩)) := by
    intro head degree
    refine (scriptArg_shifts h).bind fun arg _ => shifts_lastStop.bind fun stop _ => ?_
    refine shifts_pure trivial ?_
    rw [function_shift, List.map_append, Option.toList_map]
    rfl
  unfold root
  refine shifts_next.bind fun head _ => shifts_peek.bind fun t _ => ?_
  dsimp only
  refine shifts_ite Iff.rfl (fun _ => ?_) fun _ => ?_
  · exact (group_shifts h).some.bind fun degree _ => rest head degree
  · exact rest head none

/-- The scripts after a command `k` bytes further on. -/
def Scripts.shift (k : Nat) (r : Scripts) : Scripts :=
  ⟨r.sub.map (Node.shift k), r.super.map (Node.shift k)⟩

theorem script_shifts {subAllowed : Bool} {r : Scripts} (h : rules.Shifting k) :
    Shifts k (Scripts.shift k) Any (script rules subAllowed r)
      (script rules subAllowed (r.shift k)) := by
  unfold script
  refine shifts_peek.bind fun t _ => ?_
  refine shifts_ite (by simp [Scripts.shift]) (fun _ => ?_) fun _ =>
    shifts_ite (by simp [Scripts.shift]) (fun _ => ?_) fun _ => shifts_pure trivial rfl
  · exact shifts_next.bind fun _ _ => (scriptArg_shifts h).bind fun arg _ => shifts_pure trivial rfl
  · exact shifts_next.bind fun _ _ => (scriptArg_shifts h).bind fun arg _ => shifts_pure trivial rfl

theorem skipLimits_shifts : Shifts k id Any skipLimits skipLimits := by
  unfold skipLimits
  refine shifts_lookahead.bind fun ts _ => ?_
  rw [takeWhile_shift (·.isCommand ["limits"]) fun _ => rfl, List.length_map]
  exact shifts_skip _

theorem integralBody_shifts (h : rules.Shifting k) :
    Shifts k (Node.shift k) Any (integralBody rules) (integralBody rules) := by
  unfold integralBody
  refine shifts_peek.bind fun t _ => shifts_ite Iff.rfl (fun _ => (group_shifts h).any) fun _ => ?_
  refine h.sequence.bind fun nodes _ => shifts_peek.bind fun last _ => shifts_pure trivial ?_
  rw [argument_shift]
  rfl

theorem integral_shifts (h : rules.Shifting k) :
    Shifts k (Node.shift k) Node.IsPresent (integral rules) (integral rules) := by
  unfold integral
  refine shifts_next.bind fun head _ => skipLimits_shifts.bind fun _ _ => ?_
  refine (script_shifts (r := {}) h).bind fun one _ => skipLimits_shifts.bind fun _ _ => ?_
  refine (script_shifts h).bind fun both _ => skipLimits_shifts.bind fun _ _ => ?_
  refine shifts_ite (by simp [Scripts.shift]) (fun _ => ?_) fun _ => ?_
  · exact shifts_peek.bind fun _ _ => shifts_failAt
  · refine (integralBody_shifts h).bind fun body _ => shifts_peek.bind fun d _ => ?_
    refine (shifts_peekAt 1).bind fun letter _ => ?_
    refine shifts_ite Iff.rfl (fun _ => ?_) fun _ => shifts_unexpected
    refine (shifts_skip 2).bind fun _ _ => shifts_pure trivial ?_
    rw [function_shift]
    simp only [Scripts.shift, List.map_append, Option.toList_map, List.map_cons, List.map_nil,
      unitAt_shift, Token.shift_span]
    rfl

theorem limit_shifts (h : rules.Shifting k) :
    Shifts k (Node.shift k) Node.IsPresent (limit rules) (limit rules) := by
  unfold limit
  refine shifts_next.bind fun head _ => (shifts_expect _).bind fun _ _ => ?_
  refine (shifts_expect _).bind fun first _ => h.sequence.bind fun name _ => ?_
  refine shifts_peek.bind fun arrow _ => ?_
  refine shifts_ite Iff.rfl (fun _ => ?_) fun _ => shifts_unexpected
  refine shifts_next.bind fun _ _ => h.sequence.bind fun target _ => ?_
  refine (shifts_expect _).bind fun last _ => (operand_shifts h).bind fun arg _ => ?_
  refine shifts_lastStop.bind fun stop _ => shifts_pure trivial ?_
  rw [function_shift]
  simp only [List.map_cons, List.map_nil, argument_shift]
  rfl

theorem logarithm_shifts (h : rules.Shifting k) :
    Shifts k (Node.shift k) Node.IsPresent (logarithm rules) (logarithm rules) := by
  unfold logarithm
  refine shifts_next.bind fun head _ => (script_shifts (r := {}) h).bind fun one _ => ?_
  refine (script_shifts h).bind fun both _ => (operand_shifts h).bind fun arg _ => ?_
  refine shifts_lastStop.bind fun stop _ => ?_
  obtain ⟨sub, super⟩ := both
  cases sub with
  | none =>
      refine shifts_ite Iff.rfl (fun _ => shifts_pure trivial ?_) fun _ => shifts_pure trivial ?_
      all_goals
        rw [function_shift]
        rfl
  | some base =>
      refine shifts_pure trivial ?_
      rw [function_shift]
      rfl

/-! ## Environments -/

theorem environmentName_shifts :
    Shifts k (fun r => (r.1, r.2 + k)) Any environmentName environmentName := by
  unfold environmentName
  refine (shifts_expect _).bind fun _ _ => shifts_peek.bind fun first _ => ?_
  refine shifts_lookahead.bind fun ts _ => ?_
  dsimp only
  rw [takeWhile_shift (·.kind == .char) fun _ => rfl, List.length_map, flatMap_text_shift]
  refine (shifts_skip _).bind fun _ _ => (shifts_expect _).bind fun _ _ => ?_
  exact shifts_pure trivial rfl

theorem isEmptyRow_shift (row : List Node) :
    isEmptyRow (row.map (Node.shift k)) = isEmptyRow row := by
  rcases row with _ | ⟨n, row⟩
  · rfl
  · cases n with
    | expression w ns s => cases ns <;> cases row <;> rfl
    | _ => rfl

theorem rows_shifts {matrix : Bool} {name : Text} {row before : List Node} (h : rules.Shifting k) :
    Shifts k (List.map (Node.shift k)) Any (rows rules matrix name row before)
      (rows rules matrix name (row.map (Node.shift k)) (before.map (Node.shift k))) := by
  unfold rows
  refine shifts_peek.bind fun first _ => h.sequence.rewordAtEnd.bind fun nodes _ => ?_
  refine shifts_peek.bind fun last _ => shifts_next.bind fun separator _ => ?_
  -- the row with the cell that has just been read, and the rows when it is complete
  have hcell : Node.expression .none (nodes.map (Node.shift k))
        ⟨(first.shift k).start, (last.shift k).start⟩ :: row.map (Node.shift k)
      = (Node.expression .none nodes ⟨first.start, last.start⟩ :: row).map (Node.shift k) := by
    simp [Node.shift, Span.shift, Token.shift]
  have hdone : ∀ r : List Node,
      (if isEmptyRow (r.map (Node.shift k)) then before.map (Node.shift k)
        else r.map (Node.shift k) ++ before.map (Node.shift k))
      = (if isEmptyRow r then before else r ++ before).map (Node.shift k) := by
    intro r
    rw [isEmptyRow_shift]
    split
    · rfl
    · rw [List.map_append]
  dsimp only
  rw [hcell, hdone]
  refine shifts_ite Iff.rfl (fun _ => h.rows) fun _ => ?_
  refine shifts_ite Iff.rfl (fun _ => shifts_pure trivial ?_) fun _ => h.rows
  rw [List.map_reverse]

theorem environment_shifts (h : rules.Shifting k) :
    Shifts k (Node.shift k) Node.IsPresent (environment rules) (environment rules) := by
  -- the rows and the end, with or without the columns of an array before them
  have rest : ∀ (type : EnvironmentType) (name : Text) (head : Token),
      Shifts k (Node.shift k) Node.IsPresent
        (do
          let cells ← rules.rows (type == .determinant) name [] []
          let last ← environmentName
          if last.1 = name then pure (Node.environment type cells ⟨head.start, ← lastStop⟩)
          else
            failAt last.2 (← lastStop) last.1
              ("\\begin\x7b" ++ name ++ "\x7d ended by \\end\x7b" ++ last.1 ++ "\x7d"))
        (do
          let cells ← rules.rows (type == .determinant) name [] []
          let last ← environmentName
          if last.1 = name then
            pure (Node.environment type cells ⟨(head.shift k).start, ← lastStop⟩)
          else
            failAt last.2 (← lastStop) last.1
              ("\\begin\x7b" ++ name ++ "\x7d ended by \\end\x7b" ++ last.1 ++ "\x7d")) := by
    intro type name head
    have hrows :
        Shifts k (List.map (Node.shift k)) Any (rules.rows (type == .determinant) name [] [])
          (rules.rows (type == .determinant) name [] []) := h.rows
    refine hrows.bind fun cells _ => ?_
    refine environmentName_shifts.bind fun last _ => ?_
    refine shifts_ite Iff.rfl (fun _ => ?_) fun _ => ?_
    · refine shifts_lastStop.bind fun stop _ => shifts_pure trivial ?_
      simp [Node.shift, Span.shift, Token.shift]
    · exact shifts_lastStop.bind fun _ _ => shifts_failAt
  unfold environment
  refine shifts_next.bind fun head _ => environmentName_shifts.bind fun first _ => ?_
  dsimp only
  cases environments.lookup first.1 with
  | none => exact shifts_lastStop.bind fun _ _ => shifts_failAt
  | some type =>
      refine shifts_peek.bind fun t _ => ?_
      refine shifts_ite Iff.rfl (fun _ => ?_) fun _ => rest type _ head
      exact (group_shifts h).bind fun _ _ => rest type _ head

/-! ## The grammar -/

/-- A construct as what a command introduces. -/
theorem Shifts.construct {p p' : Parser Node} (h : Shifts k (Node.shift k) Node.IsPresent p p') :
    Shifts k (Option.map (Node.shift k)) OptionPresent (Option.some <$> p) (Option.some <$> p') :=
  h.map (fun _ hn => hn) fun _ => rfl

theorem command_shifts (h : rules.Shifting k) :
    Shifts k (Option.map (Node.shift k)) OptionPresent (command rules) (command rules) := by
  unfold command
  refine shifts_peek.bind fun t _ => ?_
  rw [Token.shift_text]
  refine shifts_ite Iff.rfl (fun _ => ?_) fun _ => ?_
  · exact shifts_next.bind fun _ _ => shifts_pure trivial rfl
  refine shifts_ite Iff.rfl (fun _ => ?_) fun _ => ?_
  · refine shifts_next.bind fun _ _ => shifts_pure trivial ?_
    rw [Option.map_some, unitAt_shift, Token.shift_span]
  cases namedFunctions.lookup t.text with
  | some name => exact (named_shifts h).construct
  | none =>
      refine shifts_ite Iff.rfl (fun _ => (fraction_shifts h).construct) fun _ => ?_
      refine shifts_ite Iff.rfl (fun _ => (root_shifts h).construct) fun _ => ?_
      refine shifts_ite Iff.rfl (fun _ => (integral_shifts h).construct) fun _ => ?_
      refine shifts_ite Iff.rfl (fun _ => (limit_shifts h).construct) fun _ => ?_
      refine shifts_ite Iff.rfl (fun _ => (logarithm_shifts h).construct) fun _ => ?_
      refine shifts_ite Iff.rfl (fun _ => (binary_shifts h).construct) fun _ => ?_
      refine shifts_ite Iff.rfl (fun _ => (unary_shifts h).construct) fun _ => ?_
      refine shifts_ite Iff.rfl (fun _ => (environment_shifts h).construct) fun _ => ?_
      exact shifts_failAt

/-- **Unfolding the rules once more keeps this.** -/
theorem Rules.Shifting.unfold (h : rules.Shifting k) : rules.unfold.Shifting k where
  sequence := sequence_shifts h
  items hb := items_shifts h hb
  command := command_shifts h
  operand := operand_shifts h
  scriptArg := scriptArg_shifts h
  rows := rows_shifts h

theorem rulesTo_shifting (k n : Nat) : (rulesTo n).Shifting k := by
  induction n with
  | zero =>
      have spent :
          ∀ {α : Type} {f : α → α} {P : α → Prop}, Shifts k f P Parser.spent Parser.spent :=
        shifts_fails fun _ _ => ⟨_, rfl⟩
      exact
        { sequence := spent
          items := fun _ => spent
          command := spent
          operand := spent
          scriptArg := spent
          rows := spent }
  | succ n ih => exact ih.unfold

end Grammar

end MathMarkup
