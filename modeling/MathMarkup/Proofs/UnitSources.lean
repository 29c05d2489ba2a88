import Mathlib.Data.List.TakeWhile
import MathMarkup.Proofs.Arguments
import MathMarkup.Proofs.Continuations
import MathMarkup.Proofs.Exactness

/-!
# Where the units of a tree come from

There are three ways to make a unit. It is spelled by tokens, each of which is laid out from its own
start (`FromTokens`); it is the name of a command and stands where the command does
(`NamesCommand`); or it is the operand of a function and laid out over a run of tokens as if there
were nothing between them (`RunsOver`). A tree is `Sited` if all its units are of these kinds, and
those of the third kind are the operands of functions.

A degree sign takes units apart, but never one of the third kind, and the parts of a unit that is
spelled are spelled.
-/

namespace MathMarkup

open MathMarkup.Text (byte)

/-! ## Operands -/

namespace Node

/-- Whether the node is a run of literal characters. -/
def isUnit : Node → Bool
  | unit _ _ => true
  | _ => false

/-- The operand of a function that takes one: its last argument. -/
def operand? : Node → Option Node
  | function name args _ _ => if name.takesOperand then args.getLast? else none
  | _ => none

/-- A function somewhere in a tree has this operand. -/
def HasOperand (tree n : Node) : Prop := ∃ f, Occurs f tree ∧ f.operand? = some n

variable {m n u : Node} {cs : List Character} {span : Span}

theorem HasOperand.child (h : HasOperand m u) (hm : m ∈ n.children) : HasOperand n u := by
  obtain ⟨f, hf, hu⟩ := h
  exact ⟨f, .child hm hf, hu⟩

/-- Nothing stands in a unit but its characters. -/
theorem occurs_unit (h : Occurs m (.unit cs span)) : m = .unit cs span ∨ ∃ c, m = .char c := by
  cases h with
  | here => exact Or.inl rfl
  | child hc ho =>
      obtain ⟨c, -, rfl⟩ := List.mem_map.mp hc
      cases ho with
      | here => exact Or.inr ⟨c, rfl⟩
      | child hc _ => exact absurd hc List.not_mem_nil

theorem not_hasOperand_unit : ¬ HasOperand (.unit cs span) u := by
  rintro ⟨f, hf, hu⟩
  rcases occurs_unit hf with rfl | ⟨c, rfl⟩ <;> exact absurd hu (by simp [operand?])

end Node

namespace Grammar

open MathMarkup.Grammar.Parser
open MathMarkup.Node (Occurs HasOperand)

variable {t : Text} {cs : List Character} {span : Span} {m n : Node} {ns ms : List Node}

/-! ## Sources -/

/-- Characters of tokens, with a span that starts where the first of them does. -/
structure FromTokens (t : Text) (cs : List Character) (span : Span) : Prop where
  read : ∀ c ∈ cs, c.Read t
  start : ∃ c ∈ cs.head?, c.span.start = span.start

/-- The names that units get from commands. -/
def unitNames : List Text := constants ++ namedFunctions.map (·.2)

/-- The characters of a name, laid out from the backslash of a command. -/
def NamesCommand (t : Text) (cs : List Character) (span : Span) : Prop :=
  ∃ name ∈ unitNames, ∃ pos : Nat, t[pos]? = some (byte '\\') ∧ span.start = pos
    ∧ cs = layOut pos name.chars

/-- The characters of a run of tokens, laid out from the start of the run. -/
def RunsOver (t : Text) (cs : List Character) (span : Span) : Prop :=
  ∃ (pos : Nat) (run ys : List Token), Cut pos (t.drop pos) (run ++ ys) ∧ run ≠ []
    ∧ (∀ k ∈ run, k.isOperand = true) ∧ cs = layOut pos (texts run).chars
    ∧ span = ⟨pos, pos + run.length⟩

/-- The units of a tree are spelled by tokens or name a command, unless they are the operands of
functions; these are runs. -/
structure Sited (t : Text) (n : Node) : Prop where
  units : ∀ {cs : List Character} {span : Span}, Occurs (.unit cs span) n →
    FromTokens t cs span ∨ NamesCommand t cs span ∨ HasOperand n (.unit cs span)
  operands : ∀ {cs : List Character} {span : Span}, HasOperand n (.unit cs span) →
    RunsOver t cs span

/-- All trees of a list are sited. -/
def SitedAll (t : Text) (ns : List Node) : Prop := ∀ n ∈ ns, Sited t n

/-- What may be the operand of a function: a run, or a tree that is no unit. -/
def SitedOperand (t : Text) (n : Node) : Prop :=
  (∃ cs span, n = .unit cs span ∧ RunsOver t cs span) ∨ (n.isUnit = false ∧ Sited t n)

theorem sitedAll_nil : SitedAll t [] := fun _ hn => absurd hn List.not_mem_nil

theorem SitedAll.cons (hn : Sited t n) (h : SitedAll t ns) : SitedAll t (n :: ns) :=
  List.forall_mem_cons.mpr ⟨hn, h⟩

theorem SitedAll.append (h : SitedAll t ns) (h' : SitedAll t ms) : SitedAll t (ns ++ ms) :=
  List.forall_mem_append.mpr ⟨h, h'⟩

theorem SitedAll.reverse (h : SitedAll t ns) : SitedAll t ns.reverse :=
  fun n hn => h n (List.mem_reverse.mp hn)

theorem sitedAll_option {o : Option Node} (h : ∀ n ∈ o, Sited t n) : SitedAll t o.toList :=
  fun n hn => h n (Option.mem_toList.mp hn)

theorem sited_unit (h : FromTokens t cs span ∨ NamesCommand t cs span) :
    Sited t (.unit cs span) where
  units ho := by
    rcases Node.occurs_unit ho with heq | ⟨c, hc⟩
    · obtain ⟨rfl, rfl⟩ := Node.unit.inj heq
      exact h.imp_right Or.inl
    · exact absurd hc (by simp)
  operands ho := absurd ho Node.not_hasOperand_unit

theorem Sited.unit (h : Sited t (.unit cs span)) :
    FromTokens t cs span ∨ NamesCommand t cs span := by
  rcases h.units .here with hspelled | hname | hoperand
  · exact Or.inl hspelled
  · exact Or.inr hname
  · exact absurd hoperand Node.not_hasOperand_unit

theorem SitedOperand.run (h : SitedOperand t (.unit cs span)) : RunsOver t cs span := by
  rcases h with ⟨ds, s, heq, hrun⟩ | ⟨hn, -⟩
  · obtain ⟨rfl, rfl⟩ := Node.unit.inj heq
    exact hrun
  · exact absurd hn (by simp [Node.isUnit])

/-- A node around others; only its operand may be a run. -/
theorem sited_of_children (hn : n.isUnit = false)
    (h : ∀ m ∈ n.children, Sited t m ∨ n.operand? = some m)
    (hoperand : ∀ m ∈ n.operand?, SitedOperand t m) : Sited t n := by
  have parts : ∀ m ∈ n.children, Sited t m
      ∨ ∃ cs span, m = .unit cs span ∧ n.operand? = some (.unit cs span) := by
    intro m hm
    rcases h m hm with hsited | hop
    · exact Or.inl hsited
    · rcases hoperand m hop with ⟨cs, span, rfl, -⟩ | ⟨-, hsited⟩
      · exact Or.inr ⟨cs, span, rfl, hop⟩
      · exact Or.inl hsited
  constructor
  · intro cs span ho
    cases ho with
    | here => exact absurd hn (by simp [Node.isUnit])
    | @child _ m hm ho =>
        rcases parts m hm with hsited | ⟨ds, s, rfl, hop⟩
        · exact (hsited.units ho).imp_right (Or.imp_right fun hu => hu.child hm)
        · rcases Node.occurs_unit ho with heq | ⟨c, hc⟩
          · rw [heq]
            exact Or.inr (Or.inr ⟨n, .here, hop⟩)
          · exact absurd hc (by simp)
  · rintro cs span ⟨f, hf, hu⟩
    cases hf with
    | here => exact (hoperand _ hu).run
    | @child _ m hm hf =>
        rcases parts m hm with hsited | ⟨ds, s, rfl, -⟩
        · exact hsited.operands ⟨f, hf, hu⟩
        · exact absurd ⟨f, hf, hu⟩ Node.not_hasOperand_unit

theorem sited_plain (hn : n.isUnit = false) (hnone : n.operand? = none)
    (h : SitedAll t n.children) : Sited t n :=
  sited_of_children hn (fun m hm => Or.inl (h m hm)) (by simp [hnone])

theorem sited_expression {wrapping : Wrapping} (h : SitedAll t ns) :
    Sited t (.expression wrapping ns span) := sited_plain rfl rfl h

/-- A function that takes no operand. -/
theorem sited_function {name : FunctionName} {exponent : Option Node}
    (hname : name.takesOperand = false) (hargs : SitedAll t ns)
    (hexponent : ∀ e ∈ exponent, Sited t e) :
    Sited t (.function name ns exponent span) :=
  sited_plain rfl (by simp [Node.operand?, hname]) (hargs.append (sitedAll_option hexponent))

/-- A function applied to an operand. -/
theorem sited_applied {name : FunctionName} {exponent : Option Node} (ns : List Node)
    (hname : name.takesOperand = true) (hargs : SitedAll t ns) (hn : SitedOperand t n)
    (hexponent : ∀ e ∈ exponent, Sited t e) :
    Sited t (.function name (ns ++ [n]) exponent span) := by
  have hop : (Node.function name (ns ++ [n]) exponent span).operand? = some n := by
    simp [Node.operand?, hname]
  refine sited_of_children rfl (fun m hm => ?_) fun m hm => ?_
  · rcases List.mem_append.mp hm with hm | hm
    · rcases List.mem_append.mp hm with hm | hm
      · exact Or.inl (hargs m hm)
      · rw [List.mem_singleton.mp hm]
        exact Or.inr hop
    · exact Or.inl (sitedAll_option hexponent m hm)
  · rw [hop] at hm
    rw [← Option.some.inj hm]
    exact hn

theorem sited_wrapCurly (h : Sited t n) : Sited t (wrapCurly n) :=
  sited_expression (SitedAll.cons h sitedAll_nil)

/-! ## Tokens of a text -/

/-- The tokens before a cursor are those of the rest of the text. -/
def Cursor.Cuts (t : Text) (c : Cursor) : Prop := ∃ pos, Cut pos (t.drop pos) c.rest

section Tokens

variable {c c' : Cursor} {k : Token} {ts : List Token} {size i : Nat}

/-- The text from the first token on, and the text behind it. -/
theorem Cut.around {pos : Nat} (h : Cut pos (t.drop pos) (k :: ts)) :
    Cut k.start (t.drop k.start) (k :: ts) ∧ Cut k.stop (t.drop k.stop) ts := by
  obtain ⟨w, b, r, width, hsplit, -, hstart, hstop, -, hhere, hbehind⟩ := h.first
  have hdrop : t.drop k.start = b :: r := by
    rw [hstart, ← List.drop_drop, hsplit, List.drop_left]
  refine ⟨by rw [hdrop]; exact hhere, ?_⟩
  have hrest : t.drop k.stop = (b :: r).drop width := by
    rw [hstop, ← List.drop_drop, hdrop]
  rw [hrest]
  exact hbehind

theorem Cursor.Cuts.reads (h : c.Cuts t) (hr : c.Reads c') : c'.Cuts t := by
  induction hr with
  | refl => exact h
  | next _ ih =>
      obtain ⟨pos, hcut⟩ := h
      exact ih ⟨_, hcut.around.2⟩

theorem Cursor.Cuts.tail (h : c.Cuts t) : c.tail.Cuts t := h.reads c.reads_tail

theorem Cursor.Cuts.skip (h : c.Cuts t) (n : Nat) : (c.skip n).Cuts t := h.reads (c.reads_skip n)

theorem Cursor.Cuts.stands (h : c.Cuts t) (hk : k ∈ c.rest) : k.Stands t := by
  obtain ⟨pos, hcut⟩ := h
  obtain ⟨hpos, b, r, hdrop, hlex⟩ := hcut.read k hk
  rw [List.drop_drop, Nat.add_sub_cancel' hpos] at hdrop
  exact ⟨b, r, hdrop, hlex⟩

theorem Cursor.Cuts.token (h : c.Cuts t) (hk : (c.token size i).kind ≠ .finish) :
    (c.token size i).Stands t := by
  rcases c.token_mem size i with hmem | heq
  · exact h.stands hmem
  · rw [heq] at hk
    exact absurd rfl hk

theorem Token.Stands.spelled (h : k.Stands t) (hk : k.kind.isLiteral = true) :
    FromTokens t (layOut k.start k.text.chars) k.span := by
  obtain ⟨c, hc, hread, hstart⟩ := h.read hk
  rw [hc]
  exact ⟨List.forall_mem_singleton.mpr hread, c, rfl, hstart⟩

/-- The unit of a literal token. -/
theorem Cursor.Cuts.sited_char (h : c.Cuts t) (hk : (c.token size i).kind = .char) :
    Sited t (unitAt (c.token size i).text (c.token size i).span) :=
  sited_unit (Or.inl ((h.token (by simp [hk])).spelled (by rw [hk]; rfl)))

/-- The unit of the name of a command. -/
theorem Cursor.Cuts.sited_name {name : Text} (h : c.Cuts t) (hk : (c.token size i).kind = .command)
    (hname : name ∈ unitNames) : Sited t (unitAt name (c.token size i).span) :=
  sited_unit (Or.inr ⟨name, hname, _, (h.token (by simp [hk])).slash hk, rfl, rfl⟩)

/-- The unit of a run of tokens. -/
theorem Cursor.Cuts.sited_run (h : c.Cuts t) (hk : (c.token size 0).isOperand = true) :
    SitedOperand t (unitAt (texts (c.rest.takeWhile Token.isOperand))
      ⟨(c.token size 0).start, (c.token size 0).start
        + (texts (c.rest.takeWhile Token.isOperand)).length⟩) := by
  obtain ⟨ts, hts⟩ := c.rest_of_kind (Token.isOperand_char hk) (by simp)
  obtain ⟨pos, hcut⟩ := h
  rw [hts] at hcut
  have hrun : ∀ u ∈ c.rest.takeWhile Token.isOperand, u.isOperand = true := fun u hu =>
    List.all_eq_true.mp List.all_takeWhile u hu
  refine Or.inl ⟨_, _, rfl, _, _, c.rest.dropWhile Token.isOperand, ?_, ?_, hrun, rfl, ?_⟩
  · rw [List.takeWhile_append_dropWhile, hts]
    exact hcut.around.1
  · rw [hts, List.takeWhile_cons_of_pos hk]
    exact List.cons_ne_nil _ _
  · rw [run_length hrun]

end Tokens

/-! ## Builders -/

/-- The nodes so far are sited, and the open unit is spelled. -/
structure Builder.Sited (t : Text) (b : Builder) : Prop where
  nodes : SitedAll t b.nodes
  pending : ∀ p ∈ b.pending, FromTokens t p.chars.reverse p.span

namespace Builder

variable {b b' : Builder} {k : Token} {p : Pending} {nodes : List Node}

theorem sited_empty : Builder.Sited t {} := ⟨sitedAll_nil, fun _ hp => absurd hp (by simp)⟩

theorem Sited.addToken (h : b.Sited t) (hk : k.Stands t) (hkind : k.kind.isLiteral = true) :
    (b.addToken k).Sited t := by
  obtain ⟨c, hc, hread, hstart⟩ := hk.read hkind
  refine ⟨h.nodes, fun p hp => ?_⟩
  obtain rfl := Option.some.inj hp
  dsimp only
  rw [hc]
  cases hb : b.pending with
  | none => exact ⟨List.forall_mem_singleton.mpr hread, c, rfl, hstart⟩
  | some q =>
      obtain ⟨hall, first, hfirst, hspan⟩ := h.pending q hb
      rw [Option.getD_some, List.reverse_append, List.reverse_reverse]
      refine ⟨List.forall_mem_append.mpr ⟨hall, List.forall_mem_singleton.mpr hread⟩,
        first, ?_, hspan⟩
      rw [List.head?_append, Option.mem_def.mp hfirst]
      rfl

theorem Sited.flush (h : b.Sited t) : b.flush.Sited t := by
  unfold Builder.flush
  split
  · rename_i c cs span hp
    refine ⟨SitedAll.cons (sited_unit (Or.inl (h.pending _ hp))) h.nodes, ?_⟩
    exact fun _ hp => absurd hp (by simp)
  · exact ⟨h.nodes, fun _ hp => absurd hp (by simp)⟩

theorem Sited.add (h : b.flush.Sited t) (hn : Grammar.Sited t n) : (b.add n).Sited t :=
  ⟨SitedAll.cons hn h.nodes, h.pending⟩

theorem Sited.finish (h : b.Sited t) : SitedAll t b.finish := h.flush.nodes.reverse

end Builder

/-! ## Taking a unit apart -/

/-- The characters of names are letters. -/
theorem unitNames_operand {name : Text} (hname : name ∈ unitNames) :
    name.chars.all (fun c => Builder.isOperandCode c.toNat) = true := by
  have all : unitNames.all (fun name => name.chars.all fun c => Builder.isOperandCode c.toNat)
      = true := by decide +kernel
  exact List.all_eq_true.mp all name hname

theorem code_mem_layOut {c : Character} {pos : Int} {xs : List Char} (h : c ∈ layOut pos xs) :
    ∃ x ∈ xs, c.code = x.toNat := by
  induction xs generalizing pos with
  | nil => exact absurd h List.not_mem_nil
  | cons x xs ih =>
      rcases List.mem_cons.mp h with rfl | h
      · exact ⟨x, List.mem_cons_self, rfl⟩
      · obtain ⟨y, hy, hcode⟩ := ih h
        exact ⟨y, List.mem_cons_of_mem _ hy, hcode⟩

namespace Builder

variable {b : Builder} {p : Pending} {nodes : List Node}

/-- A unit is cut before the last characters that belong to an operand. -/
theorem popPending_cut (h : popPending nodes p = some (n, b)) :
    ∃ first more stop, p.chars.reverse
        = (p.chars.dropWhile (isOperandCode ·.code)).reverse ++ first :: more
      ∧ n = .unit (first :: more) ⟨first.span.start, p.span.stop⟩
      ∧ b = ⟨nodes, some ⟨p.chars.dropWhile (isOperandCode ·.code), ⟨p.span.start, stop⟩⟩⟩ := by
  unfold popPending at h
  dsimp only at h
  split at h
  · exact absurd h (by simp)
  · rename_i first more hreverse
    obtain ⟨rfl, rfl⟩ := Prod.mk.inj (Option.some.inj h)
    refine ⟨first, more, _, ?_, rfl, rfl⟩
    rw [← hreverse, ← List.reverse_append, List.takeWhile_append_dropWhile]

/-- The parts of a unit that is spelled are spelled. -/
theorem popPending_spelled (hnodes : SitedAll t nodes) (hp : FromTokens t p.chars.reverse p.span)
    (h : popPending nodes p = some (n, b)) : Grammar.Sited t n ∧ b.flush.Sited t := by
  obtain ⟨first, more, stop, hsplit, rfl, rfl⟩ := popPending_cut h
  generalize p.chars.dropWhile (isOperandCode ·.code) = before at hsplit
  obtain ⟨hread, hstart⟩ := hp
  rw [hsplit] at hread hstart
  obtain ⟨hbefore, hoperand⟩ := List.forall_mem_append.mp hread
  refine ⟨sited_unit (Or.inl ⟨hoperand, first, rfl, rfl⟩), ?_⟩
  cases before with
  | nil => exact ⟨hnodes, fun _ hp => absurd hp (by simp [Builder.flush])⟩
  | cons c cs =>
      obtain ⟨x, hx, hspan⟩ := hstart
      have hhead : x ∈ (c :: cs).reverse.head? := by
        rw [List.head?_append_of_ne_nil _ (by simp)] at hx
        exact hx
      exact ⟨SitedAll.cons (sited_unit (Or.inl ⟨hbefore, x, hhead, hspan⟩)) hnodes,
        fun _ hp => absurd hp (by simp [Builder.flush])⟩

/-- The name of a command is taken as a whole. -/
theorem popPending_name (hnodes : SitedAll t nodes) (hp : NamesCommand t p.chars.reverse p.span)
    (h : popPending nodes p = some (n, b)) : Grammar.Sited t n ∧ b.flush.Sited t := by
  obtain ⟨first, more, stop, hsplit, rfl, rfl⟩ := popPending_cut h
  obtain ⟨name, hname, pos, hslash, hstart, hlaid⟩ := hp
  have hnone : p.chars.dropWhile (isOperandCode ·.code) = [] := by
    refine List.dropWhile_eq_nil_iff.mpr fun c hc => ?_
    rw [← List.mem_reverse, hlaid] at hc
    obtain ⟨x, hx, hcode⟩ := code_mem_layOut hc
    rw [hcode]
    exact List.all_eq_true.mp (unitNames_operand hname) x hx
  rw [hnone] at hsplit ⊢
  rw [hlaid] at hsplit
  have hfirst : first.span.start = pos := by
    cases hchars : name.chars with
    | nil =>
        rw [hchars] at hsplit
        exact absurd hsplit (by simp [layOut])
    | cons x xs =>
        rw [hchars] at hsplit
        rw [← (List.cons.inj hsplit).1]
  refine ⟨sited_unit (Or.inr ⟨name, hname, pos, hslash, hfirst, ?_⟩), hnodes, ?_⟩
  · exact hsplit.symm
  · exact fun _ hp => absurd hp (by simp [Builder.flush])

theorem Sited.popOperand {b' : Builder} (h : b.Sited t) (hpop : b.popOperand = some (n, b')) :
    Grammar.Sited t n ∧ b'.flush.Sited t := by
  unfold Builder.popOperand at hpop
  split at hpop
  · rename_i hp
    exact popPending_spelled h.nodes (h.pending _ hp) hpop
  · have hall := h.nodes
    split at hpop
    · exact absurd hpop (by simp)
    · rename_i c cs span before hnodes
      rw [hnodes] at hall
      obtain ⟨hunit, hbefore⟩ := List.forall_mem_cons.mp hall
      rcases hunit.unit with hspelled | hname
      · exact popPending_spelled hbefore (by rw [List.reverse_reverse]; exact hspelled) hpop
      · exact popPending_name hbefore (by rw [List.reverse_reverse]; exact hname) hpop
    · rename_i m before _ hnodes
      rw [hnodes] at hall
      obtain ⟨hm, hbefore⟩ := List.forall_mem_cons.mp hall
      obtain ⟨rfl, rfl⟩ := Prod.mk.inj (Option.some.inj hpop)
      exact ⟨hm, hbefore, fun _ hp => absurd hp (by simp [Builder.flush])⟩

end Builder

end Grammar

end MathMarkup
