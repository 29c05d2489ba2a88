import MathMarkup.Grammar.Group
import MathMarkup.Proofs.Literal
import MathMarkup.Solver.Format

/-!
# The trees that are built

`Node.Built` is the contract between reading and rendering: what every tree that the grammar builds
satisfies, and all that rendering needs to know of it. Leaves are literal, functions are known and
have the arguments that their written form takes, environments have rows and a place in the text.

Two fields of `Fits` are about brackets. Rendering strips an argument by looking at its first byte,
so an argument must not begin with a bracket that closes before its end. A function raised to a
power begins with one that does; `powers` says that such an argument is given to a degree sign only.

The second half of the file is the sequence under construction, from which nodes are taken back.
-/

namespace MathMarkup

namespace Node

/-- Whether a node is a function raised to a power. -/
def isPower : Node → Bool
  | function _ _ (some _) _ => true
  | _ => false

/-- The arguments that a function is given. -/
structure Fits (name : FunctionName) (args : List Node) : Prop where
  /-- The function takes that many. -/
  arity : args.length ∈ Solver.arities name
  /-- A named function has its name for first argument. -/
  named : name = .regular → ∃ cs s arg, args = [.unit cs s, arg]
  /-- A definition has its variable in round brackets. -/
  defined : name = .definition ∨ name = .inverseDefinition →
    ∃ letter ns s body, args = [letter, .expression .round ns s, body]
  /-- Only a degree sign has a power for argument. -/
  powers : ∀ a ∈ args, a.isPower = true → name = .degrees

/-- A row of an environment. -/
def row (r : List Node × Span) : Node := .expression .none r.1 r.2

/-- The trees that are built from a text of `size` bytes. -/
inductive Built (commas : Bool) (size : Nat) : Node → Prop where
  | unit {cs : List Character} {s : Span} : LiteralChars commas cs → Built commas size (.unit cs s)
  | expression {k : Bracket} {ns : List Node} {s : Span} :
      (∀ m ∈ ns, Built commas size m) →
      Built commas size (.expression (Grammar.wrappingOf k) ns s)
  | function {name : FunctionName} {args : List Node} {exponent : Option Node} {s : Span} :
      Fits name args → (∀ a ∈ args, Built commas size a) → (∀ e ∈ exponent, Built commas size e) →
      Built commas size (.function name args exponent s)
  | environment {type : EnvironmentType} {rows : List (List Node × Span)} {s : Span} :
      type.isKnown = true → 0 ≤ s.start → s.start < s.stop → s.start < size →
      (∀ r ∈ rows, ∀ m ∈ r.1, Built commas size m) →
      Built commas size (.environment type (rows.map row) s)

/-- A list of trees that are built. -/
def BuiltAll (commas : Bool) (size : Nat) (ns : List Node) : Prop := ∀ m ∈ ns, Built commas size m

end Node

namespace Grammar

open MathMarkup.Node (Built BuiltAll Fits)

variable {commas : Bool} {size : Nat}

theorem builtAll_nil : BuiltAll commas size [] := fun _ hm => absurd hm (by simp)

theorem builtAll_cons {n : Node} {ns : List Node} (hn : Built commas size n)
    (hns : BuiltAll commas size ns) : BuiltAll commas size (n :: ns) := by
  intro m hm
  rcases List.mem_cons.mp hm with rfl | hm
  · exact hn
  · exact hns m hm

theorem unitAt_built {t : Text} (h : LiteralText commas t) (span : Span) :
    Built commas size (unitAt t span) := .unit (layOut_literal h _)

theorem argument_built {ns : List Node} (h : BuiltAll commas size ns) (span : Span) :
    Built commas size (argument ns span) := .expression (k := .curly) h

theorem wrapCurly_built {n : Node} (h : Built commas size n) : Built commas size (wrapCurly n) :=
  .expression (k := .curly) (builtAll_cons h builtAll_nil)

/-- The nodes that are given to a function as they are: none of them is raised to a power. -/
def Plain (commas : Bool) (size : Nat) (n : Node) : Prop :=
  Built commas size n ∧ n.isPower = false

theorem Plain.built {n : Node} (h : Plain commas size n) : Built commas size n := h.1

theorem unitAt_plain {t : Text} (h : LiteralText commas t) (span : Span) :
    Plain commas size (unitAt t span) := ⟨unitAt_built h span, rfl⟩

theorem argument_plain {ns : List Node} (h : BuiltAll commas size ns) (span : Span) :
    Plain commas size (argument ns span) := ⟨argument_built h span, rfl⟩

theorem wrapCurly_plain {n : Node} (h : Built commas size n) : Plain commas size (wrapCurly n) :=
  ⟨wrapCurly_built h, rfl⟩

/-- A function whose arguments are plain is built if it takes that many of them. Named functions and
definitions ask for more. -/
theorem function_built {name : FunctionName} {args : List Node} {exponent : Option Node} {s : Span}
    (harity : args.length ∈ Solver.arities name)
    (hnamed : name = .regular → ∃ cs s arg, args = [.unit cs s, arg])
    (hdefined : name = .definition ∨ name = .inverseDefinition →
      ∃ letter ns s body, args = [letter, .expression .round ns s, body])
    (hargs : ∀ a ∈ args, Plain commas size a) (hexp : ∀ e ∈ exponent, Built commas size e) :
    Built commas size (.function name args exponent s) := by
  refine .function ⟨harity, hnamed, hdefined, fun a ha hp => ?_⟩ (fun a ha => (hargs a ha).1) hexp
  rw [(hargs a ha).2] at hp
  exact absurd hp (by simp)

/-! ## The sequence under construction -/

/-- A sequence whose nodes are built and whose open unit is literal. -/
structure Builder.Sound (commas : Bool) (size : Nat) (b : Builder) : Prop where
  nodes : BuiltAll commas size b.nodes
  pending : ∀ p ∈ b.pending, LiteralChars commas p.chars

theorem Builder.sound_empty : Builder.Sound commas size {} :=
  ⟨builtAll_nil, fun _ hp => absurd hp (by simp)⟩

theorem Builder.Sound.addText {b : Builder} (h : b.Sound commas size) {t : Text}
    (ht : LiteralText commas t) (start : Int) : (b.addText t start).Sound commas size := by
  refine ⟨h.nodes, ?_⟩
  intro p hp
  obtain rfl := Option.some.inj hp
  intro c hc
  rcases List.mem_append.mp hc with hc | hc
  · exact layOut_literal ht start c (List.mem_reverse.mp hc)
  · cases hpend : b.pending with
    | none => rw [hpend] at hc; simp at hc
    | some q =>
        rw [hpend] at hc
        exact h.pending q hpend c hc

theorem Builder.Sound.flush {b : Builder} (h : b.Sound commas size) :
    b.flush.Sound commas size := by
  unfold Builder.flush
  split
  · rename_i c cs span hp
    refine ⟨builtAll_cons (.unit fun x hx => ?_) h.nodes, fun _ hq => absurd hq (by simp)⟩
    exact h.pending _ hp x (List.mem_reverse.mp hx)
  · exact ⟨h.nodes, fun _ hq => absurd hq (by simp)⟩

theorem Builder.Sound.add {b : Builder} (h : b.Sound commas size) {n : Node}
    (hn : Built commas size n) : (b.add n).Sound commas size :=
  ⟨builtAll_cons hn h.flush.nodes, h.flush.pending⟩

theorem Builder.Sound.finish {b : Builder} (h : b.Sound commas size) :
    BuiltAll commas size b.finish :=
  fun m hm => h.flush.nodes m (List.mem_reverse.mp hm)

theorem popPending_sound {nodes : List Node} {p : Pending} {n : Node} {b : Builder}
    (hnodes : BuiltAll commas size nodes) (hp : LiteralChars commas p.chars)
    (h : Builder.popPending nodes p = some (n, b)) :
    Built commas size n ∧ b.Sound commas size := by
  unfold Builder.popPending at h
  dsimp only at h
  split at h
  · exact absurd h (by simp)
  · rename_i first more hrun
    obtain ⟨rfl, rfl⟩ := Prod.mk.inj (Option.some.inj h)
    constructor
    · refine .unit fun c hc => hp c ?_
      rw [← hrun] at hc
      exact (List.takeWhile_prefix _).mem (List.mem_reverse.mp hc)
    · refine ⟨hnodes, ?_⟩
      intro q hq
      obtain rfl := Option.some.inj hq
      exact fun c hc => hp c ((List.dropWhile_suffix _).mem hc)

/-- What a degree sign takes back, and what it leaves. -/
theorem Builder.Sound.popOperand {b b' : Builder} {n : Node} (h : b.Sound commas size)
    (hp : b.popOperand = some (n, b')) : Built commas size n ∧ b'.Sound commas size := by
  unfold Builder.popOperand at hp
  split at hp
  · rename_i c cs span hpend
    exact popPending_sound h.nodes (h.pending _ hpend) hp
  · split at hp
    · exact absurd hp (by simp)
    · rename_i c cs span before hnodes
      have hn := h.nodes
      rw [hnodes] at hn
      refine popPending_sound (fun m hm => hn m (List.mem_cons_of_mem _ hm)) ?_ hp
      -- the last unit is opened again, most recent character first
      cases hn _ (List.mem_cons_self ..) with
      | unit hcs => exact fun x hx => hcs x (List.mem_reverse.mp hx)
    · rename_i m before _ hnodes
      have hn := h.nodes
      rw [hnodes] at hn
      obtain ⟨rfl, rfl⟩ := Prod.mk.inj (Option.some.inj hp)
      exact ⟨hn _ (List.mem_cons_self ..), fun k hk => hn k (List.mem_cons_of_mem _ hk),
        fun _ hq => absurd hq (by simp)⟩

end Grammar

end MathMarkup
