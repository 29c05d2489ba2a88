import MathMarkup.Grammar.Environment
import MathMarkup.Solver.Render

/-!
# What is left without places

Tokens, nodes and failures say which bytes of the text they were read from. `bare` takes these
places out. Two things follow from comparing a value with its bare form:

* a tree is rendered the same way wherever its parts stood (`Solver.render_bare`);
* what the grammar asks about the tokens ahead, and what a builder does with the nodes so far, does
  not depend on places either, so it is the same for any two texts with the same bare tokens.
-/

namespace MathMarkup

/-- A character without the bytes it was read from. -/
def Character.bare (c : Character) : Character := { c with span := ⟨0, 0⟩ }

@[simp] theorem Character.bare_text (c : Character) : c.bare.text = c.text := rfl

@[simp] theorem Character.bare_code (c : Character) : c.bare.code = c.code := rfl

namespace Node

mutual

/-- A tree without the spans of its parts. -/
def bare : Node → Node
  | absent k => absent k
  | root es _ => root (bareList es) ⟨0, 0⟩
  | expression w ns _ => expression w (bareList ns) ⟨0, 0⟩
  | function name args exponent _ => function name (bareList args) (bareOption exponent) ⟨0, 0⟩
  | unit cs _ => unit (cs.map Character.bare) ⟨0, 0⟩
  | char c => char c.bare
  | environment type es _ => environment type (bareList es) ⟨0, 0⟩

/-- The trees of a list without their spans. -/
def bareList : List Node → List Node
  | [] => []
  | n :: ns => bare n :: bareList ns

/-- A tree that may be missing, without its spans. -/
def bareOption : Option Node → Option Node
  | none => none
  | some n => some (bare n)

end

@[simp] theorem bareList_eq (ns : List Node) : bareList ns = ns.map bare := by
  induction ns with
  | nil => rfl
  | cons n ns ih => rw [bareList, ih, List.map_cons]

@[simp] theorem bareOption_eq (o : Option Node) : bareOption o = o.map bare := by cases o <;> rfl

/-- Of two trees that may be missing and differ in places only, both are missing or none is. -/
theorem bareOption_cases {o o' : Option Node} (h : o.map bare = o'.map bare) :
    (o = none ∧ o' = none) ∨ ∃ n n', o = some n ∧ o' = some n' ∧ n.bare = n'.bare := by
  cases o with
  | none => exact Or.inl ⟨rfl, Option.map_eq_none_iff.mp h.symm⟩
  | some n =>
      obtain ⟨n', hn', hbare⟩ := Option.map_eq_some_iff.mp h.symm
      exact Or.inr ⟨n, n', rfl, hn', hbare.symm⟩

@[simp] theorem unitText_bare (cs : List Character) :
    unitText (cs.map Character.bare) = unitText cs := by
  unfold unitText
  rw [List.flatMap_map]
  rfl

end Node

/-! ## Failures -/

/-- A syntax error without its place. -/
def SyntaxError.bare (e : SyntaxError) : SyntaxError :=
  { e with start := 0, stop := 0, line := 0, column := 0 }

/-- A rendering failure whose node is bare. -/
def RenderError.bare (e : RenderError) : RenderError := { e with node := e.node.map Node.bare }

/-- A failure of reading or rendering without the places it names. -/
def StageError.bare : StageError → StageError
  | .markup e => .markup e.bare
  | .rendering e => .rendering e.bare
  | e => e

/-! ## Rendering

Only a failure shows the node it is about; the written text comes from the characters. -/

namespace Solver

/-- Taking the places out of the failure of a run. -/
abbrev bareFailure {α : Type} (r : Except StageError α) : Except StageError α :=
  r.mapError StageError.bare

theorem bareFailure_bind {α β : Type} (r : Except StageError α) (f : α → Except StageError β) :
    bareFailure (r >>= f) = bareFailure r >>= fun a => bareFailure (f a) := by
  cases r <;> rfl

theorem stripArgument_bare (t : Text) : bareFailure (stripArgument t) = stripArgument t := by
  unfold stripArgument
  split
  · cases Bracket.inner t 0 <;> rfl
  · rfl

theorem format_bare (n : Node) (name : FunctionName) (parts : List Text) :
    format n.bare name parts = bareFailure (format n name parts) := by
  unfold format
  split
  · rfl
  · rfl
  · split <;> rfl

theorem formatEnvironment_bare (n : Node) (type : EnvironmentType) (parts : List Text) :
    formatEnvironment n.bare type parts = bareFailure (formatEnvironment n type parts) := by
  unfold formatEnvironment
  split
  · rfl
  · split
    · rfl
    · split <;> rfl
  · rfl

theorem isAbsent_bare (n : Node) : isAbsent n.bare = isAbsent n := by cases n <;> rfl

mutual

theorem renderAt_bare (limit depth : Nat) :
    ∀ n : Node, renderAt limit depth n.bare = bareFailure (renderAt limit depth n)
  | .absent k => by
      rw [Node.bare, renderAt]
      split <;> rfl
  | .root es s => by
      rw [Node.bare, renderAt, renderAt]
      split
      · rfl
      · rw [bareFailure_bind, ← renderPresent_bare limit (depth + 1) _ es]
        rfl
  | .expression w ns s => by
      rw [Node.bare, renderAt, renderAt]
      split
      · rfl
      · rw [bareFailure_bind, ← renderList_bare limit (depth + 1) ns]
        rfl
  | .function name args exponent s => by
      rw [Node.bare, renderAt, renderAt]
      split
      · rfl
      · rw [bareFailure_bind, ← renderArguments_bare limit (depth + 1) args]
        congr 1
        funext parts
        rw [bareFailure_bind, ← format_bare, Node.bare]
        congr 1
        funext base
        exact renderPower_bare limit (depth + 1) base exponent
  | .unit cs s => by
      rw [Node.bare, renderAt, renderAt, Node.unitText_bare]
      split <;> rfl
  | .char c => by
      rw [Node.bare, renderAt, renderAt, Character.bare_text]
      split <;> rfl
  | .environment type es s => by
      rw [Node.bare, renderAt, renderAt]
      split
      · rfl
      · split
        · rw [bareFailure_bind, ← renderPresent_bare limit (depth + 1) _ es]
          congr 1
          funext parts
          exact formatEnvironment_bare (.environment type es s) type parts
        · rfl

theorem renderList_bare (limit depth : Nat) :
    ∀ ns : List Node, renderList limit depth (Node.bareList ns)
      = bareFailure (renderList limit depth ns)
  | [] => rfl
  | n :: ns => by
      rw [Node.bareList, renderList, renderList, bareFailure_bind, ← renderAt_bare limit depth n]
      congr 1
      funext first
      rw [bareFailure_bind, ← renderList_bare limit depth ns]
      rfl

theorem renderPresent_bare (limit depth : Nat) (missing : StageError) :
    ∀ ns : List Node, renderPresent limit depth missing.bare (Node.bareList ns)
      = bareFailure (renderPresent limit depth missing ns)
  | [] => rfl
  | n :: ns => by
      rw [Node.bareList, renderPresent, renderPresent, isAbsent_bare]
      split
      · rfl
      · rw [bareFailure_bind, ← renderAt_bare limit depth n]
        congr 1
        funext first
        rw [bareFailure_bind, ← renderPresent_bare limit depth missing ns]
        rfl

theorem renderArguments_bare (limit depth : Nat) :
    ∀ ns : List Node, renderArguments limit depth (Node.bareList ns)
      = bareFailure (renderArguments limit depth ns)
  | [] => rfl
  | n :: ns => by
      rw [Node.bareList, renderArguments, renderArguments, bareFailure_bind,
        ← renderAt_bare limit depth n]
      congr 1
      funext first
      rw [bareFailure_bind, stripArgument_bare]
      congr 1
      funext stripped
      rw [bareFailure_bind, ← renderArguments_bare limit depth ns]
      rfl

theorem renderPower_bare (limit depth : Nat) (base : Text) :
    ∀ o : Option Node, renderPower limit depth base (Node.bareOption o)
      = bareFailure (renderPower limit depth base o)
  | none => rfl
  | some n => by
      rw [Node.bareOption, renderPower, renderPower, bareFailure_bind,
        ← renderAt_bare limit depth n]
      rfl

end

/-- **Trees that differ in places only are rendered alike**, into the same text or with the same
failure. -/
theorem render_bare (limit : Nat) {m n : Node} (h : m.bare = n.bare) :
    bareFailure (render limit m) = bareFailure (render limit n) := by
  unfold render
  rw [← renderAt_bare, ← renderAt_bare, h]

end Solver

namespace Grammar

/-! ## Tokens -/

/-- A token without its place. -/
def Token.bare (t : Token) : Token := { t with start := 0, stop := 0 }

/-- The tokens of a list without their places. -/
abbrev bareTokens (ts : List Token) : List Token := ts.map Token.bare

theorem Token.bare_eq_iff {t u : Token} : t.bare = u.bare ↔ t.kind = u.kind ∧ t.text = u.text := by
  simp [Token.bare]

@[simp] theorem Token.bare_kind (t : Token) : t.bare.kind = t.kind := rfl

@[simp] theorem Token.bare_text (t : Token) : t.bare.text = t.text := rfl

@[simp] theorem Token.bare_isLetter (t : Token) : t.bare.isLetter = t.isLetter := rfl

@[simp] theorem Token.bare_isOperand (t : Token) : t.bare.isOperand = t.isOperand := rfl

@[simp] theorem Token.bare_isChar (t : Token) (c : Text) : t.bare.isChar c = t.isChar c := rfl

@[simp] theorem Token.bare_isCommand (t : Token) (names : List Text) :
    t.bare.isCommand names = t.isCommand names := rfl

@[simp] theorem Token.bare_display (t : Token) : t.bare.display = t.display := rfl

/-- What does not look at places is the same for tokens that differ in them only. -/
theorem Token.eq_of_bare {α : Type} {p : Token → α} (hp : ∀ t : Token, p t.bare = p t)
    {t u : Token} (h : t.bare = u.bare) : p t = p u := by
  rw [← hp t, ← hp u, h]

theorem Stop.holds_bare (stop : Stop) (ts : List Token) :
    stop.holds (bareTokens ts) = stop.holds ts := by
  rcases ts with _ | ⟨t, _ | ⟨u, ts⟩⟩ <;> cases stop <;> rfl

theorem degreeWidth?_bare (ts : List Token) : degreeWidth? (bareTokens ts) = degreeWidth? ts := by
  rcases ts with _ | ⟨t, _ | ⟨u, _ | ⟨v, _ | ⟨w, ts⟩⟩⟩⟩ <;> rfl

theorem startsInverse_bare (ts : List Token) :
    startsInverse (bareTokens ts) = startsInverse ts := by
  rcases ts with _ | ⟨a, _ | ⟨b, _ | ⟨c, _ | ⟨d, _ | ⟨e, ts⟩⟩⟩⟩⟩ <;> rfl

theorem derivativeHead?_bare (ts : List Token) :
    derivativeHead? (bareTokens ts)
      = (derivativeHead? ts).map fun p => (p.1.bare, p.2.bare) := by
  rcases ts with _ | ⟨a, _ | ⟨d, _ | ⟨b, _ | ⟨c, _ | ⟨e, _ | ⟨x, _ | ⟨f, ts⟩⟩⟩⟩⟩⟩⟩ <;> try rfl
  simp only [derivativeHead?, bareTokens, List.map_cons, Token.bare_kind, Token.bare_isChar,
    Token.bare_isLetter]
  rw [apply_ite (Option.map _)]
  rfl

theorem matchingParen?_bare (depth : Nat) (ts : List Token) :
    matchingParen? depth (bareTokens ts) = matchingParen? depth ts := by
  fun_induction matchingParen? depth ts with
  | case1 => rfl
  | case2 depth t ts hopen ih => simp_all [matchingParen?]
  | case3 t ts hopen hclose => simp_all [matchingParen?]
  | case4 t ts hopen hclose => simp_all [matchingParen?]
  | case5 t ts hopen hclose outer ih => simp_all [matchingParen?]
  | case6 depth t ts hopen hclose ih => simp_all [matchingParen?]

theorem startsVariable_bare (ts : List Token) :
    startsVariable (bareTokens ts) = startsVariable ts := by
  cases ts with
  | nil => rfl
  | cons t ts =>
      have hk := matchingParen?_bare 0 (t :: ts)
      simp only [bareTokens, List.map_cons] at hk
      simp only [startsVariable, bareTokens, List.map_cons, Token.bare_kind, hk]
      cases matchingParen? 0 (t :: ts) with
      | none => rfl
      | some k =>
          simp only [List.getElem?_cons_succ, List.getElem?_map]
          cases ts[k]? <;> rfl

theorem definitionHead?_bare (ts : List Token) :
    definitionHead? (bareTokens ts) = definitionHead? ts := by
  cases ts with
  | nil => rfl
  | cons t ts =>
      have hinverse := startsInverse_bare ts
      have hvariable := startsVariable_bare ts
      have hbehind := startsVariable_bare (ts.drop 5)
      simp only [bareTokens, List.map_drop] at hinverse hvariable hbehind
      simp only [definitionHead?, bareTokens, List.map_cons, Token.bare_isLetter, hinverse,
        hvariable, hbehind]

theorem takeWhile_bare (p : Token → Bool) (hp : ∀ t : Token, p t.bare = p t) (ts : List Token) :
    bareTokens (ts.takeWhile p) = (bareTokens ts).takeWhile p := by
  rw [List.takeWhile_map]
  congr 2
  funext t
  exact (hp t).symm

theorem flatMap_text_bare (ts : List Token) :
    (bareTokens ts).flatMap (·.text) = ts.flatMap (·.text) := by
  rw [List.flatMap_map]
  rfl

/-! ## Building a sequence -/

theorem layOut_bare (offset offset' : Int) (cs : List Char) :
    (layOut offset cs).map Character.bare = (layOut offset' cs).map Character.bare := by
  induction cs generalizing offset offset' with
  | nil => rfl
  | cons c cs ih =>
      rw [layOut, layOut, List.map_cons, List.map_cons]
      exact congrArg (List.cons _) (ih _ _)

theorem unitAt_bare (t : Text) (s s' : Span) : (unitAt t s).bare = (unitAt t s').bare := by
  unfold unitAt
  rw [Node.bare, Node.bare, layOut_bare]

/-- An open unit without its places. -/
def Pending.bare (p : Pending) : Pending := ⟨p.chars.map Character.bare, ⟨0, 0⟩⟩

/-- A sequence under construction without its places. -/
def Builder.bare (b : Builder) : Builder :=
  { nodes := b.nodes.map Node.bare, pending := b.pending.map Pending.bare }

namespace Builder

variable {b b' : Builder}

theorem bare_nodes (h : b.bare = b'.bare) : b.nodes.map Node.bare = b'.nodes.map Node.bare :=
  congrArg Builder.nodes h

theorem bare_pending (h : b.bare = b'.bare) :
    b.pending.map Pending.bare = b'.pending.map Pending.bare := congrArg Builder.pending h

theorem addText_bare (h : b.bare = b'.bare) (t : Text) (start start' : Int) :
    (b.addText t start).bare = (b'.addText t start').bare := by
  have hchars : ∀ p p' : Option Pending, p.map Pending.bare = p'.map Pending.bare →
      (p.getD ⟨[], ⟨start, start⟩⟩).chars.map Character.bare
        = (p'.getD ⟨[], ⟨start', start'⟩⟩).chars.map Character.bare := by
    intro p p' hp
    cases p <;> cases p' <;> simp_all [Pending.bare]
  simp only [addText, Builder.bare, Option.map_some, Pending.bare, List.map_append,
    List.map_reverse, hchars _ _ (bare_pending h), layOut_bare start start', bare_nodes h]

theorem flush_bare (b : Builder) : b.flush.bare = b.bare.flush := by
  obtain ⟨nodes, pending⟩ := b
  rcases pending with _ | ⟨_ | ⟨c, cs⟩, span⟩
  · rfl
  · rfl
  · simp only [flush, Builder.bare, Pending.bare, Option.map_some, List.map_cons, Option.map_none,
      Node.bare, List.map_reverse]

theorem add_bare {m n : Node} (h : b.bare = b'.bare) (hn : m.bare = n.bare) :
    (b.add m).bare = (b'.add n).bare := by
  have hflush : b.flush.bare = b'.flush.bare := by rw [flush_bare, flush_bare, h]
  simp only [add, Builder.bare, List.map_cons, hn, bare_nodes hflush, bare_pending hflush]

theorem finish_bare (h : b.bare = b'.bare) :
    b.finish.map Node.bare = b'.finish.map Node.bare := by
  have hflush : b.flush.bare = b'.flush.bare := by rw [flush_bare, flush_bare, h]
  rw [finish, finish, List.map_reverse, List.map_reverse, bare_nodes hflush]

/-- An operand taken back and what is left, without places. -/
def bareOperand (r : Option (Node × Builder)) : Option (Node × Builder) :=
  r.map fun p => (p.1.bare, p.2.bare)

theorem takeWhile_operandCode_bare (cs : List Character) :
    (cs.map Character.bare).takeWhile (isOperandCode ·.code)
      = (cs.takeWhile (isOperandCode ·.code)).map Character.bare := by
  rw [List.takeWhile_map]
  rfl

theorem dropWhile_operandCode_bare (cs : List Character) :
    (cs.map Character.bare).dropWhile (isOperandCode ·.code)
      = (cs.dropWhile (isOperandCode ·.code)).map Character.bare := by
  rw [List.dropWhile_map]
  rfl

/-- The characters of a bare unit have no place to end at. -/
theorem headStop_bare (cs : List Character) :
    ((cs.map Character.bare).head?.map (·.span.stop)).getD 0 = 0 := by
  cases cs <;> rfl

theorem popPending_bare (nodes : List Node) (p : Pending) :
    popPending (nodes.map Node.bare) p.bare = bareOperand (popPending nodes p) := by
  unfold popPending
  simp only [Pending.bare, takeWhile_operandCode_bare, dropWhile_operandCode_bare, headStop_bare,
    ← List.map_reverse]
  cases (p.chars.takeWhile (isOperandCode ·.code)).reverse with
  | nil => rfl
  | cons first more =>
      simp only [List.map_cons, bareOperand, Option.map_some, Node.bare, Builder.bare, Pending.bare]
      rfl

theorem bare_popOperand (b : Builder) : b.bare.popOperand = bareOperand b.popOperand := by
  obtain ⟨nodes, pending⟩ := b
  rcases pending with _ | ⟨_ | ⟨c, cs⟩, span⟩
  -- nothing waits, so it is the last node that is taken back
  case some.cons => exact popPending_bare nodes ⟨c :: cs, span⟩
  all_goals
    rcases nodes with _ | ⟨n, before⟩
    · rfl
    · cases n with
      | unit chars s =>
          cases chars with
          | nil => rfl
          | cons c cs =>
              have h := popPending_bare before ⟨(c :: cs).reverse, s⟩
              simp only [Pending.bare, List.map_reverse] at h
              exact h
      | _ => rfl

theorem popOperand_bare (h : b.bare = b'.bare) :
    bareOperand b.popOperand = bareOperand b'.popOperand := by
  rw [← bare_popOperand, ← bare_popOperand, h]

end Builder

end Grammar

end MathMarkup
