import MathMarkup.Grammar.Group
import MathMarkup.Tree.Walk

/-!
# The height of a tree and its functions

Every sequence that is nested in another adds at most two levels to a tree, a bracket or a row and
what it belongs to. What else adds to the height are functions: `\sin\sin x` is two functions deep,
and no sequence is nested in it. So the height of a tree is measured together with the number of
functions on a way down (`Low`).
-/

namespace MathMarkup

namespace Node

mutual

/-- The greatest number of functions on a way from the top of a tree to a leaf. -/
def functions : Node → Nat
  | absent _ => 0
  | root es _ => functionsList es
  | expression _ ns _ => functionsList ns
  | function _ args exponent _ => max (functionsList args) (functionsOption exponent) + 1
  | unit _ _ => 0
  | char _ => 0
  | environment _ es _ => functionsList es

/-- The greatest number of functions on a way down a list of trees. -/
def functionsList : List Node → Nat
  | [] => 0
  | n :: ns => max (functions n) (functionsList ns)

/-- The number of functions on a way down a tree that may be missing. -/
def functionsOption : Option Node → Nat
  | none => 0
  | some n => functions n

end

mutual

/-- A function is one level of a tree at least. -/
theorem functions_le_depth : ∀ n : Node, n.functions ≤ n.depth
  | absent _ => Nat.zero_le _
  | root es _ => Nat.le_succ_of_le (functionsList_le_depthList es)
  | expression _ ns _ => Nat.le_succ_of_le (functionsList_le_depthList ns)
  | function _ args exponent _ => by
      have hargs := functionsList_le_depthList args
      have hexp := functionsOption_le_depthOption exponent
      simp only [functions, depth]
      omega
  | unit _ _ => Nat.zero_le _
  | char _ => Nat.zero_le _
  | environment _ es _ => Nat.le_succ_of_le (functionsList_le_depthList es)

theorem functionsList_le_depthList : ∀ ns : List Node, functionsList ns ≤ depthList ns
  | [] => Nat.le_refl 0
  | n :: ns => by
      have hn := functions_le_depth n
      have hns := functionsList_le_depthList ns
      simp only [functionsList, depthList]
      omega

theorem functionsOption_le_depthOption : ∀ o : Option Node, functionsOption o ≤ depthOption o
  | none => Nat.le_refl 0
  | some n => functions_le_depth n

end

/-- A tree is no higher than `k`, with two levels more for each function on a way down. -/
def Low (k : Nat) (n : Node) : Prop := n.depth ≤ k + 2 * n.functions

/-- All trees of a list are low. -/
def LowAll (k : Nat) (ns : List Node) : Prop := ∀ n ∈ ns, Low k n

/-- A tree that may be missing is low. -/
def LowOption (k : Nat) (o : Option Node) : Prop := ∀ n ∈ o, Low k n

variable {k k' : Nat} {n : Node} {ns : List Node}

theorem Low.mono (h : Low k n) (hk : k ≤ k') : Low k' n := by
  unfold Low at *
  omega

theorem lowAll_nil : LowAll k [] := fun _ hn => absurd hn (by simp)

theorem lowAll_cons : LowAll k (n :: ns) ↔ Low k n ∧ LowAll k ns := List.forall_mem_cons

theorem Low.cons (hn : Low k n) (hns : LowAll k ns) : LowAll k (n :: ns) :=
  lowAll_cons.mpr ⟨hn, hns⟩

theorem Low.single (h : Low k n) : LowAll k [n] := h.cons lowAll_nil

theorem lowAll_append {ms : List Node} : LowAll k (ns ++ ms) ↔ LowAll k ns ∧ LowAll k ms :=
  List.forall_mem_append

theorem lowOption_none : LowOption k none := fun _ hn => absurd hn (by simp)

theorem lowOption_some (h : Low k n) : LowOption k (some n) := by
  intro m hm
  rwa [← Option.some.inj hm]

theorem LowAll.depthList_le (h : LowAll k ns) : depthList ns ≤ k + 2 * functionsList ns := by
  induction ns with
  | nil => exact Nat.zero_le _
  | cons n ns ih =>
      obtain ⟨hn, hns⟩ := lowAll_cons.mp h
      have hns := ih hns
      unfold Low at hn
      simp only [depthList, functionsList]
      omega

theorem unit_low (cs : List Character) (s : Span) : Low (k + 2) (.unit cs s) := by
  unfold Low
  simp only [depth]
  split <;> omega

/-- A bracket, a row, an environment or the root of a tree is one level. -/
theorem LowAll.above (h : LowAll k ns) : depthList ns + 1 ≤ k + 1 + 2 * functionsList ns := by
  have hle := h.depthList_le
  omega

theorem LowAll.expression (h : LowAll k ns) (w : Wrapping) (s : Span) :
    Low (k + 1) (.expression w ns s) := h.above

theorem LowAll.root (h : LowAll k ns) (s : Span) : Low (k + 1) (.root ns s) := h.above

theorem LowAll.environment (h : LowAll k ns) (type : EnvironmentType) (s : Span) :
    Low (k + 1) (.environment type ns s) := h.above

/-- A function makes up for its own level and for one of its arguments'. -/
theorem LowAll.function {exponent : Option Node} (h : LowAll (k + 1) ns)
    (hexp : LowOption (k + 1) exponent) (name : FunctionName) (s : Span) :
    Low k (.function name ns exponent s) := by
  have hle := h.depthList_le
  have hexp : depthOption exponent ≤ k + 1 + 2 * functionsOption exponent := by
    cases exponent with
    | none => exact Nat.zero_le _
    | some e => exact hexp e rfl
  simp only [Low, depth, functions]
  omega

end Node

namespace Grammar

open MathMarkup.Node (Low LowAll lowAll_cons)

variable {k : Nat}

theorem unitAt_low (t : Text) (s : Span) : Low (k + 2) (unitAt t s) := Node.unit_low _ s

theorem argument_low {ns : List Node} (h : LowAll k ns) (s : Span) :
    Low (k + 3) (argument ns s) := (h.expression .curly s).mono (by omega)

theorem wrapCurly_low {n : Node} (h : Low k n) : Low (k + 1) (wrapCurly n) :=
  h.single.expression .curly n.span

namespace Builder

variable {b b' : Builder} {n : Node}

theorem flush_low (h : LowAll (k + 2) b.nodes) : LowAll (k + 2) b.flush.nodes := by
  unfold flush
  split
  · exact (Node.unit_low _ _).cons h
  · exact h

theorem add_low (h : LowAll (k + 2) b.nodes) (hn : Low (k + 2) n) :
    LowAll (k + 2) (b.add n).nodes :=
  hn.cons (flush_low h)

theorem finish_low (h : LowAll (k + 2) b.nodes) : LowAll (k + 2) b.finish :=
  fun m hm => flush_low h m (List.mem_reverse.mp hm)

theorem popPending_low {nodes : List Node} {p : Pending} (h : LowAll (k + 2) nodes)
    (hp : popPending nodes p = some (n, b)) : Low (k + 2) n ∧ LowAll (k + 2) b.nodes := by
  unfold popPending at hp
  dsimp only at hp
  split at hp
  · exact absurd hp (by simp)
  · obtain ⟨rfl, rfl⟩ := Prod.mk.inj (Option.some.inj hp)
    exact ⟨Node.unit_low _ _, h⟩

theorem popOperand_low (h : LowAll (k + 2) b.nodes) (hp : b.popOperand = some (n, b')) :
    Low (k + 2) n ∧ LowAll (k + 2) b'.nodes := by
  unfold popOperand at hp
  split at hp
  · exact popPending_low h hp
  · split at hp
    · exact absurd hp (by simp)
    · rename_i hnodes
      rw [hnodes] at h
      exact popPending_low (lowAll_cons.mp h).2 hp
    · rename_i hnodes
      rw [hnodes] at h
      obtain ⟨rfl, rfl⟩ := Prod.mk.inj (Option.some.inj hp)
      exact lowAll_cons.mp h

end Builder

end Grammar

end MathMarkup
