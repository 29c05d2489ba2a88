import Mathlib.Data.List.Forall2
import MathMarkup.Proofs.Trees
import MathMarkup.Proofs.Written

/-!
# Rendering trees that are built

Rendering a tree that is built gives a text in solver syntax, or fails because the tree is too deep
or holds a determinant of a size that cannot be written (`built_renders`). Nothing else can go
wrong: arguments are stripped without a bracket missing, functions are known and have the arguments
they take.

The induction carries more than `Written`. What a node looks like depends on what it is (`Shape`),
and what a function does with an argument depends on the shape of its text.
-/

namespace MathMarkup

open MathMarkup.Node (Built BuiltAll)

/-- The ways in which rendering a tree that was read from a text of `size` bytes fails. -/
def StageError.Unrendered (size : Nat) : StageError → Prop
  | .limit e => e.reason = some .depthLimit
  | .rendering e =>
      e.reason = some .unsupportedDeterminantOrder
        ∧ ∃ es s, e.node = some (.environment .determinant es s)
          ∧ 0 ≤ s.start ∧ s.start < s.stop ∧ s.start < size
  | _ => False

namespace Solver

variable {α β : Type} {commas : Bool} {size : Nat}

/-- Rendering gives something with `post`, or fails in one of these ways. -/
def Renders (size : Nat) (r : Except StageError α) (post : α → Prop) : Prop :=
  match r with
  | .ok a => post a
  | .error e => e.Unrendered size

theorem Renders.bind {r : Except StageError α} {f : α → Except StageError β} {P : α → Prop}
    {post : β → Prop} (h : Renders size r P) (hf : ∀ a, P a → Renders size (f a) post) :
    Renders size (r >>= f) post := by
  cases r with
  | ok a => exact hf a h
  | error e => exact h

theorem Renders.mono {r : Except StageError α} {post post' : α → Prop} (h : Renders size r post)
    (hpost : ∀ a, post a → post' a) : Renders size r post' := by
  cases r with
  | ok a => exact hpost a h
  | error e => exact h

/-! ## The shapes of rendered nodes -/

/-- What the text of a node looks like. -/
def Shape (commas : Bool) : Node → Text → Prop
  | .unit _ _, t => LiteralText commas t
  | .expression w _ _, t =>
      ∃ k : Bracket, ∃ body, w = Grammar.wrappingOf k ∧ t = k.around body ∧ Written commas body
  | .function _ _ (some _) _, t =>
      ∃ base exponent, t = power base exponent ∧ Written commas base ∧ Written commas exponent
  | .function _ _ none _, t => Written commas t ∧ Closed commas t
  | .environment _ _ _, t => Written commas t ∧ Closed commas t
  | _, _ => False

theorem Shape.written {n : Node} {t : Text} (h : Shape commas n t) : Written commas t := by
  unfold Shape at h
  split at h
  · exact written_literal h
  · obtain ⟨k, body, _, rfl, hw⟩ := h
    exact hw.loosen.around k
  · obtain ⟨base, exponent, rfl, hb, he⟩ := h
    exact power_written hb he
  · exact h.1
  · exact h.1
  · exact h.elim

/-- Only the text of a power begins with a bracket that closes before its end. -/
theorem Shape.closed {n : Node} {t : Text} (h : Shape commas n t) (hn : n.isPower = false) :
    Closed commas t := by
  unfold Shape at h
  split at h
  · by_cases hnil : t = []
    · subst hnil
      exact fun _ _ he => absurd he (by simp)
    · simpa using closed_literal h hnil []
  · obtain ⟨k, body, _, rfl, hw⟩ := h
    exact closed_around hw k
  · exact absurd hn (by simp [Node.isPower])
  · exact h.2
  · exact h.2
  · exact h.elim

theorem Shape.raised {n : Node} {t : Text} (h : Shape commas n t) (hn : n.isPower = true) :
    ∃ base exponent, t = power base exponent ∧ Written commas base
      ∧ Written commas exponent := by
  unfold Node.isPower at hn
  split at hn
  · exact h
  · exact absurd hn (by simp)

/-- Any argument can be stripped; a power loses its exponent. -/
theorem Shape.stripped {n : Node} {t : Text} (h : Shape commas n t) :
    ∃ u, stripArgument t = .ok u ∧ Written commas u := by
  by_cases hn : n.isPower = true
  · obtain ⟨base, exponent, rfl, hb, _⟩ := h.raised hn
    exact ⟨base, stripArgument_power hb.nested exponent, hb⟩
  · exact stripArgument_closed h.written (h.closed (by simpa using hn))

/-- The text that an argument gives to its function. -/
def Given (commas : Bool) (n : Node) (u : Text) : Prop :=
  ∃ t, Shape commas n t ∧ stripArgument t = .ok u

theorem Given.written {n : Node} {u : Text} (h : Given commas n u) : Written commas u := by
  obtain ⟨t, ht, hu⟩ := h
  obtain ⟨u', hu', hw⟩ := ht.stripped
  rw [hu] at hu'
  rw [Except.ok.inj hu']
  exact hw

theorem Given.unit {cs : List Character} {s : Span} {u : Text}
    (h : Given commas (.unit cs s) u) : LiteralText commas u := by
  obtain ⟨t, ht, hu⟩ := h
  have ht : LiteralText commas t := ht
  unfold stripArgument at hu
  split at hu
  · -- a literal text does not begin with a bracket
    rename_i hhead
    cases t with
    | nil => exact absurd hhead (by simp)
    | cons b r =>
        have hb := (ht b (by simp)).opening
        rcases Bool.or_eq_true_iff.mp hhead with h | h
        · rw [eq_of_beq h] at hb; exact absurd hb (by simp)
        · rw [eq_of_beq h] at hb; exact absurd hb (by simp)
  · rw [← Except.ok.inj hu]
    exact ht

theorem Given.round {ns : List Node} {s : Span} {u : Text}
    (h : Given commas (.expression .round ns s) u) :
    ∃ body, u = Bracket.around .round body ∧ Written commas body := by
  obtain ⟨t, ⟨k, body, hk, rfl, hw⟩, hu⟩ := h
  have hk : k = .round := by
    cases k with
    | round => rfl
    | square => exact absurd hk (by simp [Grammar.wrappingOf])
    | curly => exact absurd hk (by simp [Grammar.wrappingOf])
  subst hk
  exact ⟨body, (Except.ok.inj hu).symm, hw⟩

/-! ## Functions -/

theorem given_written {args : List Node} {parts : List Text}
    (h : List.Forall₂ (Given commas) args parts) : ∀ u ∈ parts, Written commas u := by
  induction h with
  | nil => exact fun _ hu => absurd hu (by simp)
  | cons hn _ ih =>
      intro u hu
      rcases List.mem_cons.mp hu with rfl | hu
      · exact hn.written
      · exact ih u hu

/-- **Every function that fits has a written form.** -/
theorem format?_formed {name : FunctionName} {args : List Node} {parts : List Text}
    (h : Node.Fits name args) (hp : List.Forall₂ (Given commas) args parts) :
    Formed commas (format? name parts) := by
  have hall := given_written hp
  have hlen := h.arity
  rw [hp.length_eq] at hlen
  have one : parts.length ∈ [1] → ∃ x, parts = [x] := fun h1 =>
    List.length_eq_one_iff.mp (List.mem_singleton.mp h1)
  have two : parts.length ∈ [2] → ∃ x y, parts = [x, y] := fun h2 =>
    List.length_eq_two.mp (List.mem_singleton.mp h2)
  have three : parts.length ∈ [3] → ∃ x y z, parts = [x, y, z] := fun h3 =>
    List.length_eq_three.mp (List.mem_singleton.mp h3)
  cases name with
  | regular =>
      obtain ⟨cs, s, arg, rfl⟩ := h.named rfl
      obtain _ | ⟨hf, _ | ⟨hx, _ | _⟩⟩ := hp
      exact formed_regular hf.unit hx.written
  | definition =>
      obtain ⟨letter, ns, s, body, rfl⟩ := h.defined (Or.inl rfl)
      obtain _ | ⟨hf, _ | ⟨hx, _ | ⟨hbody, _ | _⟩⟩⟩ := hp
      obtain ⟨v, rfl, hv⟩ := hx.round
      exact formed_definition (by decide) (by decide) hf.written hv hbody.written
  | inverseDefinition =>
      obtain ⟨letter, ns, s, body, rfl⟩ := h.defined (Or.inr rfl)
      obtain _ | ⟨hf, _ | ⟨hx, _ | ⟨hbody, _ | _⟩⟩⟩ := hp
      obtain ⟨v, rfl, hv⟩ := hx.round
      exact formed_definition (by decide) (by decide) hf.written hv hbody.written
  | fraction =>
      obtain ⟨a, b, rfl⟩ := two hlen
      exact formed_fraction (hall a (by simp)) (hall b (by simp))
  | derivative =>
      -- the sign above the line is not written
      obtain ⟨d, x, f, rfl⟩ := three hlen
      exact formed_call (by decide) (by decide) fun u hu => hall u (List.mem_cons_of_mem _ hu)
  | abs | logarithm10 | logarithmLn | mean | degrees =>
      obtain ⟨x, rfl⟩ := one hlen
      exact formed_call (by decide) (by decide) hall
  | binomial | logarithm =>
      obtain ⟨x, y, rfl⟩ := two hlen
      exact formed_call (by decide) (by decide) hall
  | limit =>
      obtain ⟨x, y, z, rfl⟩ := three hlen
      exact formed_call (by decide) (by decide) hall
  | sqrt =>
      rcases List.mem_cons.mp hlen with h1 | h2
      · obtain ⟨x, rfl⟩ := one (by simp [h1])
        exact formed_call (by decide) (by decide) hall
      · obtain ⟨x, y, rfl⟩ := two h2
        exact formed_call (by decide) (by decide) hall
  | integral =>
      rcases List.mem_cons.mp hlen with h2 | h4
      · obtain ⟨x, y, rfl⟩ := two (by simp [h2])
        exact formed_call (by decide) (by decide) hall
      · match parts, List.mem_singleton.mp h4, hall with
        | [a, b, f, x], _, hall => exact formed_call (by decide) (by decide) hall
  | other n =>
      -- an unknown function takes no number of arguments
      exact absurd hlen (by simp [arities])

theorem format_renders {node : Node} {name : FunctionName} {args : List Node} {parts : List Text}
    (h : Node.Fits name args) (hp : List.Forall₂ (Given commas) args parts) :
    Renders size (format node name parts) fun t => Written commas t ∧ Closed commas t := by
  obtain ⟨t, ht, hw, hc⟩ := format?_formed h hp
  unfold format
  rw [ht]
  exact ⟨hw, hc⟩

/-! ## Trees -/

theorem tooDeep_renders {post : α → Prop} (limit : Nat) :
    Renders size (.error (tooDeep limit)) post := rfl

/-- A node of a tree renders at every depth. -/
def Rendered (commas : Bool) (size : Nat) (n : Node) : Prop :=
  ∀ limit depth, Renders size (renderAt limit depth n) (Shape commas n)

theorem renderList_renders {ns : List Node} (h : ∀ n ∈ ns, Rendered commas size n)
    (limit depth : Nat) :
    Renders size (renderList limit depth ns) fun parts => ∀ t ∈ parts, Written commas t := by
  induction ns with
  | nil => exact fun _ ht => absurd ht (by simp)
  | cons n ns ih =>
      rw [renderList]
      refine Renders.bind (h n (by simp) limit depth) fun t ht => ?_
      refine Renders.bind (ih fun m hm => h m (List.mem_cons_of_mem _ hm)) fun ts hts => ?_
      intro u hu
      rcases List.mem_cons.mp hu with rfl | hu
      · exact ht.written
      · exact hts u hu

theorem renderArguments_renders {args : List Node} (h : ∀ n ∈ args, Rendered commas size n)
    (limit depth : Nat) :
    Renders size (renderArguments limit depth args) (List.Forall₂ (Given commas) args) := by
  induction args with
  | nil => exact .nil
  | cons n ns ih =>
      rw [renderArguments]
      refine Renders.bind (h n (by simp) limit depth) fun t ht => ?_
      obtain ⟨u, hu, _⟩ := ht.stripped
      rw [hu]
      refine Renders.bind (P := fun u => Given commas n u) ⟨t, ht, hu⟩ fun u hu => ?_
      refine Renders.bind (ih fun m hm => h m (List.mem_cons_of_mem _ hm)) fun us hus => ?_
      exact .cons hu hus

/-- The nodes of an expression, with or without brackets. -/
theorem expression_renders {w : Wrapping} {ns : List Node} {s : Span}
    (h : ∀ n ∈ ns, Rendered commas size n) (limit depth : Nat) :
    Renders size (renderAt limit depth (.expression w ns s)) fun t =>
      ∃ body, t = w.delimiters.1 ++ body ++ w.delimiters.2 ∧ Written commas body := by
  rw [renderAt]
  split
  · exact tooDeep_renders limit
  · refine Renders.bind (renderList_renders h limit _) fun parts hparts => ?_
    exact ⟨parts.flatten, rfl, written_flatten hparts⟩

theorem renderPresent_renders {missing : StageError} {rows : List (List Node × Span)}
    (h : ∀ r ∈ rows, ∀ n ∈ r.1, Rendered commas size n) (limit depth : Nat) :
    Renders size (renderPresent limit depth missing (rows.map Node.row)) fun parts =>
      ∀ t ∈ parts, Written commas t := by
  induction rows with
  | nil => exact fun _ ht => absurd ht (by simp)
  | cons r rows ih =>
      rw [List.map_cons, renderPresent]
      rw [if_neg (by simp [Node.row, isAbsent])]
      refine Renders.bind (expression_renders (h r (by simp)) limit depth) fun t ht => ?_
      refine Renders.bind (ih fun q hq => h q (List.mem_cons_of_mem _ hq)) fun ts hts => ?_
      obtain ⟨body, rfl, hbody⟩ := ht
      intro u hu
      rcases List.mem_cons.mp hu with rfl | hu
      · simpa [Wrapping.delimiters] using hbody
      · exact hts u hu

theorem wrappingOf_delimiters (k : Bracket) (t : Text) :
    (Grammar.wrappingOf k).delimiters.1 ++ t ++ (Grammar.wrappingOf k).delimiters.2
      = k.around t := by
  cases k <;> rfl

/-- Rows are written as a call with nothing but commas between them. -/
theorem rowsCall_shape (name : Text) {t : Text} {parts : List Text} (hname : isPlain name = true)
    (hne : name ≠ []) (ht : t = name ++ Bracket.around .round (Text.join "," parts))
    (h : ∀ u ∈ parts, Written commas u) : Written commas t ∧ Closed commas t := by
  subst ht
  have hlit : LiteralText commas name := literalText_of_isPlain hname
  refine ⟨?_, closed_literal hlit hne _⟩
  exact (written_literal hlit).append
    ((written_join written_comma fun u hu => (h u hu).loosen).around .round)

theorem formatEnvironment_renders {type : EnvironmentType} {es : List Node} {s : Span}
    {parts : List Text} (htype : type.isKnown = true) (h0 : 0 ≤ s.start) (h1 : s.start < s.stop)
    (h2 : s.start < size) (h : ∀ t ∈ parts, Written commas t) :
    Renders size (formatEnvironment (.environment type es s) type parts) fun t =>
      Written commas t ∧ Closed commas t := by
  unfold formatEnvironment
  split
  · exact rowsCall_shape "system" (by decide) (by decide) rfl h
  · split
    · exact rowsCall_shape "det2" (by decide) (by decide) rfl h
    · split
      · exact rowsCall_shape "det3" (by decide) (by decide) rfl h
      · -- neither four cells nor nine
        exact ⟨rfl, es, s, rfl, h0, h1, h2⟩
  · exact absurd htype (by simp [EnvironmentType.isKnown])

theorem renderPower_renders {base : Text} {exponent : Option Node} (hbase : Written commas base)
    (h : ∀ e ∈ exponent, Rendered commas size e) (limit depth : Nat) :
    Renders size (renderPower limit depth base exponent) fun t =>
      match exponent with
      | none => t = base
      | some _ => ∃ b e, t = power b e ∧ Written commas b ∧ Written commas e := by
  cases exponent with
  | none => exact rfl
  | some n =>
      rw [renderPower]
      refine Renders.bind (h n rfl limit depth) fun e he => ?_
      exact ⟨base, e, rfl, hbase, he.written⟩

/-- **Every node that is built renders as its shape says.** -/
theorem built_renders {n : Node} (h : Built commas size n) : Rendered commas size n := by
  -- on the derivation: each constructor gives its children at every depth
  induction h with
  | unit hcs =>
      intro limit depth
      rw [renderAt]
      split
      · exact tooDeep_renders limit
      · exact hcs.unitText
  | @expression k ns s _ ih =>
      intro limit depth
      refine (expression_renders ih limit depth).mono fun t ht => ?_
      obtain ⟨body, rfl, hbody⟩ := ht
      exact ⟨k, body, rfl, wrappingOf_delimiters k body, hbody⟩
  | @function name args exponent s hfits _ _ ihargs ihexp =>
      intro limit depth
      rw [renderAt]
      split
      · exact tooDeep_renders limit
      · refine Renders.bind (renderArguments_renders ihargs limit _) fun parts hparts => ?_
        refine Renders.bind (format_renders hfits hparts) fun base hbase => ?_
        refine (renderPower_renders hbase.1 ihexp limit _).mono fun t ht => ?_
        cases exponent with
        | none => subst ht; exact hbase
        | some e => exact ht
  | @environment type rows s htype h0 h1 h2 _ ih =>
      intro limit depth
      rw [renderAt]
      split
      · exact tooDeep_renders limit
      · refine Renders.bind (renderPresent_renders ih limit _) fun parts hparts => ?_
        exact formatEnvironment_renders htype h0 h1 h2 hparts

end Solver

end MathMarkup
