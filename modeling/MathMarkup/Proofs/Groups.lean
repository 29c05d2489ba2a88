import MathMarkup.Proofs.Framing
import MathMarkup.Proofs.Rendering

/-!
# Reading nested groups

Over tokens of a text without commands the grammar is one of nested groups. Tokens that are nested
are read, into nodes that spell the same text (`Nest.read`), by induction on the way they are
nested. Conversely what is read is nested: it is framed, and without tags and separators the frames
are groups (`Framed.nest`).

A node spells a text if that is what it is rendered as, at every depth that leaves enough levels
below it (`Writes`).
-/

namespace MathMarkup.Grammar

open MathMarkup.Grammar.Parser
open MathMarkup.Bracket (Nested)
open MathMarkup.Solver (renderAt renderList)

/-! ## Nodes that spell a text -/

/-- A node is rendered as `x` wherever there are `h` levels below it. -/
def Writes (h : Nat) (n : Node) (x : Text) : Prop :=
  ∀ limit depth, depth + h ≤ limit → renderAt limit depth n = .ok x

/-- Nodes that are rendered as parts of a text, one behind the other. -/
inductive Spelled (h : Nat) : List Node → Text → Prop where
  | nil : Spelled h [] []
  | cons {n : Node} {ns : List Node} {x u : Text} :
      Writes h n x → Spelled h ns u → Spelled h (n :: ns) (x ++ u)

variable {h k : Nat} {n : Node} {ns ms : List Node} {t u v x : Text}

theorem Writes.mono (hn : Writes h n x) (hk : h ≤ k) : Writes k n x :=
  fun limit depth hd => hn limit depth (by omega)

theorem Spelled.append (hns : Spelled h ns u) (hms : Spelled h ms v) :
    Spelled h (ns ++ ms) (u ++ v) := by
  induction hns with
  | nil => exact hms
  | cons hn _ ih =>
      rw [List.cons_append, List.append_assoc]
      exact .cons hn ih

theorem Spelled.single (hn : Writes h n x) : Spelled h [n] x := by
  have hone : Spelled h [n] (x ++ []) := .cons hn .nil
  rw [List.append_nil] at hone
  exact hone

theorem Spelled.render (hns : Spelled h ns u) {limit depth : Nat} (hd : depth + h ≤ limit) :
    ∃ parts, renderList limit depth ns = .ok parts ∧ parts.flatten = u := by
  induction hns with
  | nil => exact ⟨[], rfl, rfl⟩
  | @cons n ns x u hn _ ih =>
      obtain ⟨parts, hparts, hflat⟩ := ih
      refine ⟨x :: parts, ?_, by rw [List.flatten_cons, hflat]⟩
      rw [renderList, hn limit depth hd, hparts]
      rfl

theorem writes_unit (cs : List Character) (s : Span) :
    Writes h (.unit cs s) (Node.unitText cs) := by
  intro limit depth hd
  rw [renderAt, if_neg (by omega)]
  rfl

theorem writes_expression (hns : Spelled h ns u) (w : Wrapping) (s : Span) :
    Writes (h + 1) (.expression w ns s) (w.delimiters.1 ++ u ++ w.delimiters.2) := by
  intro limit depth hd
  obtain ⟨parts, hparts, hflat⟩ := hns.render (show depth + 1 + h ≤ limit by omega)
  rw [renderAt, if_neg (by omega), hparts]
  show Except.ok (w.delimiters.1 ++ parts.flatten ++ w.delimiters.2) = _
  rw [hflat]

theorem writes_group (hns : Spelled h ns u) (b : Bracket) (s : Span) :
    Writes (h + 1) (.expression (wrappingOf b) ns s) (b.around u) := by
  have := writes_expression hns (wrappingOf b) s
  rw [Solver.wrappingOf_delimiters] at this
  exact this

theorem unitText_layOut (offset : Int) (cs : List Char) :
    Node.unitText (layOut offset cs) = Text.ofChars cs := by
  induction cs generalizing offset with
  | nil => rfl
  | cons c cs ih =>
      rw [layOut, Node.unitText, List.flatMap_cons, Text.ofChars, List.flatMap_cons]
      have htail := ih (offset + Text.encodedWidth c)
      rw [Node.unitText, Text.ofChars] at htail
      rw [htail]
      show Text.ofChar (Text.charOfCode c.toNat) ++ _ = _
      rw [Text.charOfCode_toNat]

theorem writes_unitAt (t : Text) (s : Span) : Writes h (unitAt t s) t.toValid := by
  have := writes_unit (h := h) (layOut s.start t.chars) s
  rw [unitText_layOut] at this
  exact this

/-! ## Sequences under construction -/

namespace Builder

/-- The text of the open unit. -/
def waiting (b : Builder) : Text :=
  match b.pending with
  | some p => Node.unitText p.chars.reverse
  | none => []

/-- A sequence that spells a text so far. -/
def Spells (h : Nat) (b : Builder) (u : Text) : Prop :=
  ∃ v, Spelled h b.nodes.reverse v ∧ u = v ++ b.waiting

variable {b : Builder}

theorem spells_empty : Spells h {} [] := ⟨[], .nil, rfl⟩

theorem waiting_addText (t : Text) (start : Int) :
    (b.addText t start).waiting = b.waiting ++ t.toValid := by
  have hbefore : Node.unitText (b.pending.getD ⟨[], ⟨start, start⟩⟩).chars.reverse = b.waiting := by
    unfold waiting
    cases b.pending <;> rfl
  rw [← hbefore]
  unfold waiting addText
  dsimp only
  rw [List.reverse_append, List.reverse_reverse, Node.unitText, List.flatMap_append]
  have hnew := unitText_layOut start t.chars
  rw [Node.unitText] at hnew
  rw [hnew]
  rfl

theorem Spells.addText (hb : b.Spells h u) (t : Text) (start : Int) :
    (b.addText t start).Spells h (u ++ t.toValid) := by
  obtain ⟨v, hv, rfl⟩ := hb
  refine ⟨v, hv, ?_⟩
  rw [waiting_addText, List.append_assoc]

theorem Spells.flush (hb : b.Spells h u) : Spelled h b.flush.nodes.reverse u := by
  obtain ⟨v, hv, rfl⟩ := hb
  obtain ⟨nodes, pending⟩ := b
  rcases pending with _ | ⟨_ | ⟨c, cs⟩, span⟩
  · show Spelled h nodes.reverse (v ++ [])
    rw [List.append_nil]
    exact hv
  · show Spelled h nodes.reverse (v ++ [])
    rw [List.append_nil]
    exact hv
  · show Spelled h (Node.unit (c :: cs).reverse span :: nodes).reverse _
    rw [List.reverse_cons]
    exact hv.append (Spelled.single (writes_unit _ _))

theorem Spells.finish (hb : b.Spells h u) : Spelled h b.finish u := hb.flush

theorem Spells.add (hb : b.Spells h u) (hn : Writes h n x) : (b.add n).Spells h (u ++ x) := by
  have hflush : b.flush.waiting = [] := by
    obtain ⟨nodes, pending⟩ := b
    rcases pending with _ | ⟨_ | ⟨c, cs⟩, span⟩ <;> rfl
  refine ⟨u ++ x, ?_, ?_⟩
  · show Spelled h (n :: b.flush.nodes).reverse (u ++ x)
    rw [List.reverse_cons]
    exact hb.flush.append (Spelled.single hn)
  · show u ++ x = u ++ x ++ b.flush.waiting
    rw [hflush, List.append_nil]

end Builder

/-! ## Groups as frames -/

theorem Token.Literal.plain {t : Token} (ht : t.Literal) : t.Plain := by
  rcases ht.kind with hk | hk | hk <;> exact plain_of_mark hk (by decide)

theorem Nest.framed {xs : List Token} (hx : Nest xs) : Framed false xs := by
  induction hx with
  | nil => exact .nil
  | literal ht _ ih => exact .plain ht.plain ih
  | group ho _ hz _ ihx iht => exact .group ho.1 ihx hz.1 iht

theorem Token.Simple.kind {t : Token} (ht : t.Simple) :
    t.kind ≠ .command ∧ t.kind ≠ .ampersand := by
  rcases ht.cases with hl | ⟨k, ho⟩ | ⟨k, hz⟩
  · rcases hl.kind with hk | hk | hk <;> rw [hk] <;> simp
  · rw [ho.1]
    simp
  · rw [hz.1]
    simp

/-- Without tags and separators all frames are groups. -/
theorem Framed.nest {matrix : Bool} {xs : List Token} (hx : Framed matrix xs)
    (hs : ∀ t ∈ xs, t.Simple) : Nest xs := by
  induction hx with
  | nil => exact .nil
  | plain ht _ ih =>
      obtain ⟨hsimple, hrest⟩ := List.forall_mem_cons.mp hs
      rcases hsimple.cases with hl | ⟨k, ho⟩ | ⟨k, hz⟩
      · exact .literal hl (ih hrest)
      · exact absurd ho.1 (ht.opening k)
      · exact absurd hz.1 (ht.closing k)
  | separator hk _ _ => exact absurd hk (hs _ List.mem_cons_self).kind.2
  | group ho _ hz _ ihx iht =>
      obtain ⟨hopen, hrest⟩ := List.forall_mem_cons.mp hs
      obtain ⟨hinner, hrest⟩ := List.forall_mem_append.mp hrest
      obtain ⟨hclose, hrest⟩ := List.forall_mem_cons.mp hrest
      exact .group (hopen.opens ho) (ihx hinner) (hclose.closes hz) (iht hrest)
  | environment _ hbegin _ _ _ _ _ =>
      obtain ⟨hc, -⟩ := hbegin
      exact absurd (isCommand_iff.mp hc).1 (hs _ List.mem_cons_self).kind.1

/-! ## Nested tokens are read -/

theorem Nest.no_commands {xs : List Token} (hx : Nest xs) : ∀ t ∈ xs, t.kind ≠ .command := by
  induction hx with
  | nil => exact fun t ht => absurd ht (by simp)
  | literal hl _ ih =>
      refine List.forall_mem_cons.mpr ⟨fun hk => ?_, ih⟩
      rcases hl.kind with hkind | hkind | hkind <;> rw [hkind] at hk <;> exact absurd hk (by simp)
  | group ho _ hz _ ihx iht =>
      refine List.forall_mem_cons.mpr ⟨fun hk => ?_, List.forall_mem_append.mpr
        ⟨ihx, List.forall_mem_cons.mpr ⟨fun hk => ?_, iht⟩⟩⟩
      · rw [ho.1] at hk
        exact absurd hk (by simp)
      · rw [hz.1] at hk
        exact absurd hk (by simp)

/-- Without commands there is no degree sign. -/
theorem degreeWidth?_none {ts : List Token} (hts : ∀ t ∈ ts, t.kind ≠ .command) :
    degreeWidth? ts = none := by
  rcases ts with _ | ⟨a, _ | ⟨b, _ | ⟨c, _ | ⟨d, ts⟩⟩⟩⟩
  · rfl
  · rfl
  · simp [degreeWidth?, isCommand_of_kind (hts b (by simp))]
  · simp [degreeWidth?, isCommand_of_kind (hts b (by simp))]
  · simp [degreeWidth?, isCommand_of_kind (hts b (by simp)), isCommand_of_kind (hts c (by simp))]

/-- The end of the text, or the closing bracket of a group. -/
def Stop.Outer (stop : Stop) : Prop := stop = .finish ∨ ∃ b : Bracket, stop = .kind (.closing b)

/-- A sequence does not end before a token that closes nothing. -/
theorem Stop.Outer.not_holds {stop : Stop} (hstop : stop.Outer) {t : Token} {ts : List Token}
    (ht : ∀ b : Bracket, t.kind ≠ .closing b) : stop.holds (t :: ts) = false := by
  rcases hstop with rfl | ⟨b, rfl⟩
  · rfl
  · exact beq_false_of_ne (ht b)

section Runs

variable {stop : Stop} {b : Builder} {s : Scope} {c : Cursor} {l : Nat} {o z : Token}
  {xs ts tail : List Token}

theorem items_unfold : grammar.items stop b s c = items grammar stop b s c :=
  congrFun (congrFun (congrFun (congrFun (congrArg Rules.items grammar_unfold.symm) stop) b) s) c

theorem sequence_unfold {definable : Bool} :
    grammar.sequence stop definable s c = sequence grammar stop definable s c :=
  congrFun (congrFun (congrFun (congrFun (congrArg Rules.sequence grammar_unfold.symm) stop)
    definable) s) c

theorem items_ends (hstop : stop.holds tail = true) :
    grammar.items stop b s ⟨tail, l⟩ = .ok (b.finish, ⟨tail, l⟩) := by
  have hlook : lookahead s ⟨tail, l⟩ = .ok (tail, ⟨tail, l⟩) := rfl
  rw [items_unfold, items, bind_of_ok hlook, if_pos hstop]
  rfl

/-- A literal character goes into the open unit, also a caret that makes no degree sign. -/
theorem items_literal (hstop : stop.Outer) (ho : o.Literal)
    (hplain : ∀ u ∈ o :: ts, u.kind ≠ .command) :
    grammar.items stop b s ⟨o :: ts, l⟩ = grammar.items stop (b.addToken o) s ⟨ts, o.stop⟩ := by
  have hclosing : ∀ j : Bracket, o.kind ≠ .closing j := by
    intro j hj
    rcases ho.kind with hk | hk | hk <;> rw [hk] at hj <;> exact absurd hj (by simp)
  have hpeek : peek s ⟨o :: ts, l⟩ = .ok (o, ⟨o :: ts, l⟩) := rfl
  have hlook : lookahead s ⟨o :: ts, l⟩ = .ok (o :: ts, ⟨o :: ts, l⟩) := rfl
  have hnext : next s ⟨o :: ts, l⟩ = .ok (o, ⟨ts, o.stop⟩) := rfl
  have hcaret : caret b s ⟨o :: ts, l⟩ = .ok (b.addToken o, ⟨ts, o.stop⟩) := by
    rw [caret, bind_of_ok hpeek, bind_of_ok hlook, degreeWidth?_none hplain]
    rfl
  rw [items_unfold, items, bind_of_ok hlook, if_neg (by simp [hstop.not_holds hclosing]),
    bind_of_ok hpeek]
  rcases ho.kind with hk | hk | hk
  · rw [hk]
    exact bind_of_ok hnext
  · rw [hk]
    exact bind_of_ok hcaret
  · rw [hk]
    exact bind_of_ok hnext

/-- A group that is read is one node. -/
theorem items_group {k : Bracket} (hstop : stop.Outer) (ho : o.Opens k)
    (hgroup : group grammar k s ⟨o :: ts, l⟩ = .ok (n, c)) :
    grammar.items stop b s ⟨o :: ts, l⟩ = grammar.items stop (b.add n) s c := by
  have hclosing : ∀ j : Bracket, o.kind ≠ .closing j := by
    intro j
    rw [ho.1]
    simp
  have hpeek : peek s ⟨o :: ts, l⟩ = .ok (o, ⟨o :: ts, l⟩) := rfl
  have hlook : lookahead s ⟨o :: ts, l⟩ = .ok (o :: ts, ⟨o :: ts, l⟩) := rfl
  rw [items_unfold, items, bind_of_ok hlook, if_neg (by simp [hstop.not_holds hclosing]),
    bind_of_ok hpeek, ho.1]
  exact bind_of_ok hgroup

/-- A sequence that begins with no definition is read one level further in. -/
theorem sequence_run {nodes : List Node} {c' : Cursor} (hdepth : s.depth + 1 ≤ s.limit)
    (hrun : grammar.items stop {} { s with depth := s.depth + 1 } c = .ok (nodes, c')) :
    grammar.sequence stop false s c = .ok (nodes, c') := by
  have hdeep : ¬ s.depth + 1 > s.limit := by omega
  rw [sequence_unfold, sequence, nested, if_neg hdeep, ← hrun, items_unfold]
  rfl

/-- A group is read if its contents are read up to its closing bracket. -/
theorem group_run {k : Bracket} {nodes : List Node} (hz : z.Closes k)
    (hdepth : s.depth + 1 ≤ s.limit)
    (hrun : grammar.items (.kind (.closing k)) {} { s with depth := s.depth + 1 }
      ⟨ts, o.stop⟩ = .ok (nodes, c)) (hc : c.rest = z :: tail) :
    group grammar k s ⟨o :: ts, l⟩
      = .ok (.expression (wrappingOf k) nodes ⟨o.start, z.stop⟩, ⟨tail, z.stop⟩) := by
  have hnext : next s ⟨o :: ts, l⟩ = .ok (o, ⟨ts, o.stop⟩) := rfl
  have hexpect : expect (.closing k) s c = .ok (z, ⟨tail, z.stop⟩) := by
    obtain ⟨rest, stop⟩ := c
    subst hc
    exact expect_eq hz.1
  have hcontents : groupContents grammar k s ⟨o :: ts, l⟩
      = .ok ((nodes, ⟨o.start, z.stop⟩), ⟨tail, z.stop⟩) := by
    rw [groupContents, bind_of_ok hnext, bind_of_ok (sequence_run hdepth hrun),
      bind_of_ok hexpect]
    rfl
  rw [group, bind_of_ok hcontents]
  rfl

end Runs

/-- **Nested tokens are read**, up to where the sequence ends, into nodes that spell their texts. -/
theorem Nest.read {xs : List Token} (hx : Nest xs) {stop : Stop} {b : Builder} {s : Scope}
    {l : Nat} {tail : List Token} (hstop : stop.Outer) (hholds : stop.holds tail = true)
    (htail : ∀ t ∈ tail, t.kind ≠ .command) (hdepth : s.depth + xs.length ≤ s.limit)
    (hh : xs.length ≤ h) (hb : b.Spells h u) :
    ∃ nodes c, grammar.items stop b s ⟨xs ++ tail, l⟩ = .ok (nodes, c) ∧ c.rest = tail
      ∧ Spelled h nodes (u ++ texts xs) := by
  induction hx generalizing stop b s l tail h u with
  | nil =>
      refine ⟨b.finish, _, items_ends hholds, rfl, ?_⟩
      rw [texts_nil, List.append_nil]
      exact hb.finish
  | @literal t ts ht hts ih =>
      rw [List.length_cons] at hdepth hh
      have hplain : ∀ u ∈ t :: (ts ++ tail), u.kind ≠ .command := by
        intro u hu
        rcases List.mem_append.mp (show u ∈ (t :: ts) ++ tail from hu) with hu | hu
        · exact (Nest.literal ht hts).no_commands u hu
        · exact htail u hu
      have hadded : (b.addToken t).Spells h (u ++ t.text) := by
        have := hb.addText t.text t.start
        rw [ht.valid] at this
        exact this
      obtain ⟨nodes, c, hrun, hrest, hspelled⟩ :=
        ih (s := s) (l := t.stop) hstop hholds htail (by omega) (by omega) hadded
      refine ⟨nodes, c, ?_, hrest, ?_⟩
      · rw [List.cons_append, items_literal hstop ht hplain]
        exact hrun
      · rw [texts_cons, ← List.append_assoc]
        exact hspelled
  | @group k o z xs ts ho hx hz hts ihx iht =>
      rw [List.length_cons, List.length_append, List.length_cons] at hdepth hh
      have hbehind : ∀ t ∈ z :: (ts ++ tail), t.kind ≠ .command := by
        intro t ht
        rcases List.mem_cons.mp ht with rfl | ht
        · rw [hz.1]
          simp
        · rcases List.mem_append.mp ht with ht | ht
          · exact hts.no_commands t ht
          · exact htail t ht
      obtain ⟨inner, c1, hrun1, hrest1, hinner⟩ :=
        ihx (l := o.stop) (s := { s with depth := s.depth + 1 }) (h := h - 1)
          (Or.inr ⟨k, rfl⟩) (by show (z.kind == .closing k) = true; rw [hz.1]; simp) hbehind
          (by dsimp only; omega) (by omega) Builder.spells_empty
      have hgroup := group_run (l := l) hz (by omega) hrun1 hrest1
      have hwrites : Writes h (.expression (wrappingOf k) inner ⟨o.start, z.stop⟩)
          (k.around (texts xs)) := by
        have := writes_group hinner k ⟨o.start, z.stop⟩
        rw [List.nil_append] at this
        exact this.mono (by omega)
      obtain ⟨nodes, c2, hrun2, hrest2, hnodes⟩ :=
        iht (s := s) (l := z.stop) hstop hholds htail (by omega) (by omega) (hb.add hwrites)
      refine ⟨nodes, c2, ?_, hrest2, ?_⟩
      · rw [List.cons_append, List.append_assoc, List.cons_append, items_group hstop ho hgroup]
        exact hrun2
      · rw [texts_group ho hz, ← List.append_assoc]
        exact hnodes

end MathMarkup.Grammar
