import MathMarkup.Proofs.Parsing
import MathMarkup.Proofs.Rendering

/-!
# What stripping takes from an argument

Rendering strips the brackets of an argument by looking at the first byte of its text. For the trees
that are read from a text this removes one pair of brackets and nothing else, with one exception: a
degree sign behind a function that is raised to a power takes the whole function for its operand,
and then the bracket in front closes before the exponent (`argument_bracket_closes_iff`).
-/

namespace MathMarkup

namespace Node

/-- A node stands somewhere in a tree. -/
inductive Occurs (m : Node) : Node → Prop where
  | here : Occurs m m
  | child {n c : Node} : c ∈ n.children → Occurs m c → Occurs m n

/-- What stands in a tree that is built: nodes that are built, rows and single characters. -/
def Part (commas : Bool) (size : Nat) (n : Node) : Prop :=
  Built commas size n ∨ (∃ r, n = row r ∧ BuiltAll commas size r.1) ∨ ∃ c, n = .char c

variable {commas : Bool} {size : Nat}

theorem Part.child {n c : Node} (h : Part commas size n) (hc : c ∈ n.children) :
    Part commas size c := by
  rcases h with h | ⟨r, rfl, hr⟩ | ⟨x, rfl⟩
  · cases h with
    | unit hcs =>
        obtain ⟨x, _, rfl⟩ := List.mem_map.mp hc
        exact Or.inr (Or.inr ⟨x, rfl⟩)
    | expression hns => exact Or.inl (hns c hc)
    | function hfits hargs hexp =>
        rcases List.mem_append.mp hc with hc | hc
        · exact Or.inl (hargs c hc)
        · exact Or.inl (hexp c (Option.mem_toList.mp hc))
    | environment _ _ _ _ hrows =>
        obtain ⟨r, hr, rfl⟩ := List.mem_map.mp hc
        exact Or.inr (Or.inl ⟨r, rfl, hrows r hr⟩)
  · exact Or.inl (hr c hc)
  · exact absurd hc (by simp [children])

theorem Occurs.part {m n : Node} (ho : Occurs m n) (h : Part commas size n) :
    Part commas size m := by
  induction ho with
  | here => exact h
  | child hc _ ih => exact ih (h.child hc)

/-- A function that stands in a part of a tree is built. -/
theorem Part.function {name : FunctionName} {args : List Node} {exponent : Option Node} {s : Span}
    (h : Part commas size (.function name args exponent s)) :
    Fits name args ∧ ∀ a ∈ args, Built commas size a := by
  rcases h with h | ⟨r, hr, _⟩ | ⟨x, hx⟩
  · cases h with
    | function hfits hargs _ => exact ⟨hfits, hargs⟩
  · exact absurd hr (by simp [row])
  · exact absurd hx (by simp)

end Node

namespace Grammar

open MathMarkup.Node (Occurs Part)

/-- The functions of a tree that is read from a text. -/
theorem parse_function {limit : Nat} {t : Text} {tree : Node} {name : FunctionName}
    {args : List Node} {exponent : Option Node} {s : Span} (hparse : parse limit t = .ok tree)
    (ho : Occurs (.function name args exponent s) tree) :
    Node.Fits name args ∧ ∀ a ∈ args, Node.Built true t.length a := by
  have hout := parse_outcome true limit t (by simp)
  rw [hparse] at hout
  obtain ⟨ns, rfl, hns⟩ := hout
  -- the root is no function, so it stands in the one expression below it
  cases ho with
  | child hc ho =>
      have hrow : Part true t.length (.expression .none ns ⟨0, t.length⟩) :=
        Or.inr (Or.inl ⟨(ns, _), rfl, hns⟩)
      rw [List.mem_singleton.mp hc] at ho
      exact (ho.part hrow).function

end Grammar

namespace Solver

open MathMarkup.Bracket (findEnd inner)

variable {commas : Bool}

/-- An argument that is no power and begins with a bracket is enclosed by it. -/
theorem Shape.enclosed {n : Node} {t : Text} {k : Bracket} (h : Shape commas n t)
    (hn : n.isPower = false) (hhead : t.head? = some k.opening) :
    ∃ body, t = k.around body ∧ inner t 0 = .ok body ∧ findEnd t 0 = .ok (t.length - 1) := by
  obtain ⟨r, hr⟩ := List.head?_eq_some_iff.mp hhead
  obtain ⟨body, rfl, hbody⟩ := h.closed hn k r hr
  have hinner := Bracket.inner_around (k := k) hbody.nested []
  have hend := Bracket.findEnd_around (k := k) hbody.nested []
  rw [List.append_nil] at hinner hend
  exact ⟨body, rfl, hinner, by rw [hend]; simp⟩

/-- A power begins with a bracket that closes before the exponent. -/
theorem Shape.cut {n : Node} {t : Text} (h : Shape commas n t) (hn : n.isPower = true) :
    ∃ base exponent, t = power base exponent ∧ inner t 0 = .ok base
      ∧ findEnd t 0 ≠ .ok (t.length - 1) := by
  obtain ⟨base, exponent, rfl, hbase, _⟩ := h.raised hn
  refine ⟨base, exponent, rfl, by rw [power_eq, Bracket.inner_around hbase.nested], ?_⟩
  rw [power_eq, Bracket.findEnd_around hbase.nested]
  -- at least the caret stands behind the partner
  intro he
  have := Except.ok.inj he
  simp only [List.length_append, Bracket.around_length, List.length_cons] at this
  omega

/--
**Stripping an argument loses text exactly where a degree sign has taken back a function raised to a
power.** Everywhere else in a tree that is read from a text, a curly or square bracket that begins
the text of an argument closes at its end, and stripping removes this one pair. Where it does lose
something, what is lost is the exponent.
-/
theorem argument_bracket_closes_iff {limit : Nat} {t : Text} {tree : Node}
    (hparse : Grammar.parse limit t = .ok tree) {name : FunctionName} {args : List Node}
    {exponent : Option Node} {span : Span}
    (hocc : Node.Occurs (.function name args exponent span) tree) {arg : Node} (harg : arg ∈ args)
    {deepest depth : Nat} {s : Text} (hs : renderAt deepest depth arg = .ok s)
    (hhead : s.head? = some Bracket.curly.opening ∨ s.head? = some Bracket.square.opening) :
    (findEnd s 0 = .ok (s.length - 1) ↔ ¬ (name = .degrees ∧ arg.isPower = true))
      ∧ (¬ (name = .degrees ∧ arg.isPower = true) →
        ∃ k : Bracket, ∃ body, s = k.opening :: (body ++ [k.closing]) ∧ inner s 0 = .ok body)
      ∧ (name = .degrees ∧ arg.isPower = true →
        ∃ base power, s = Text.byte '{' :: (base ++ Text.byte '}' :: Text.byte '^' :: power)
          ∧ inner s 0 = .ok base) := by
  obtain ⟨hfits, hargs⟩ := Grammar.parse_function hparse hocc
  have hshape : Shape true arg s := by
    have hrenders := built_renders (hargs arg harg) deepest depth
    rw [hs] at hrenders
    exact hrenders
  cases hp : arg.isPower with
  | true =>
      -- a power is an argument of a degree sign only, and its first bracket closes too early
      obtain ⟨base, power, rfl, hinner, hend⟩ := hshape.cut hp
      have hname := hfits.powers arg harg hp
      refine ⟨by simp [hend, hname], by simp [hname], fun _ => ⟨base, power, ?_, hinner⟩⟩
      rw [power_eq, Bracket.around_append]
      rfl
  | false =>
      have hk : ∃ k : Bracket, s.head? = some k.opening := by
        rcases hhead with h | h
        · exact ⟨.curly, h⟩
        · exact ⟨.square, h⟩
      obtain ⟨k, hk⟩ := hk
      obtain ⟨body, hbody, hinner, hend⟩ := hshape.enclosed hp hk
      exact ⟨by simp [hend], fun _ => ⟨k, body, hbody, hinner⟩, by simp⟩

/-- The square of the sine of `x`, as it is read from the beginning of `\sin^2x^\circ`. -/
def squaredSine : Node :=
  .function .regular
    [.unit [⟨0x73, ⟨0, 1⟩⟩, ⟨0x69, ⟨1, 2⟩⟩, ⟨0x6E, ⟨2, 3⟩⟩] ⟨0, 4⟩, .unit [⟨0x78, ⟨6, 7⟩⟩] ⟨6, 7⟩]
    (some (.unit [⟨0x32, ⟨5, 6⟩⟩] ⟨5, 6⟩)) ⟨0, 7⟩

/-- The square is lost when it is measured in degrees. -/
theorem degrees_of_squaredSine :
    ∃ tree, Grammar.parse 256 "\\sin^2x^\\circ" = .ok tree
      ∧ Node.Occurs (.function .degrees [squaredSine] none ⟨0, 13⟩) tree
      ∧ renderAt 256 4 squaredSine = .ok "\x7bsin(x)\x7d^2"
      ∧ findEnd "\x7bsin(x)\x7d^2" 0 ≠ .ok ((Text.ofString "\x7bsin(x)\x7d^2").length - 1)
      ∧ render 256 tree = .ok "deg(sin(x))" := by
  have hparse : Grammar.parse 256 "\\sin^2x^\\circ" = .ok (.root [.expression .none
      [.function .degrees [squaredSine] none ⟨0, 13⟩] ⟨0, 13⟩] ⟨0, 13⟩) := rfl
  have hocc : Node.Occurs (.function .degrees [squaredSine] none ⟨0, 13⟩) (.root [.expression .none
      [.function .degrees [squaredSine] none ⟨0, 13⟩] ⟨0, 13⟩] ⟨0, 13⟩) :=
    .child (List.mem_singleton_self _) (.child (List.mem_singleton_self _) .here)
  have hs : renderAt 256 4 squaredSine = .ok "\x7bsin(x)\x7d^2" := rfl
  have hiff := (argument_bracket_closes_iff hparse hocc (List.mem_singleton_self _) hs
    (Or.inl rfl)).1
  exact ⟨_, hparse, hocc, hs, fun hend => hiff.mp hend ⟨rfl, rfl⟩, rfl⟩

end Solver

end MathMarkup
