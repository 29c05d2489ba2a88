import MathMarkup.Proofs.Framing

/-!
# What stands behind a text

A text is read on its own, or with something behind it that ends the sequence around it: the
separator of a cell or row, the end of an environment, or the differential of an integral
(`Boundary`). Whatever looks ahead over the end of the text sees the same there as at the end of the
input. Only one thing goes on over a boundary: a run of letters and digits does not stop before the
letters of a differential.

A definition is found by counting round brackets over all that is left. It is found in the text or
not at all, because the tokens of an accepted text are framed (`definitionHead?_followed`).
-/

namespace MathMarkup.Grammar

open MathMarkup.Grammar.Parser

/-- Tokens behind a text, and the sequence that ends there. -/
inductive Boundary : Stop → List Token → Prop where
  | separator {matrix : Bool} {u : Token} {rest : List Token} :
      (Stop.cell matrix).holds (u :: rest) = true → Boundary (.cell matrix) (u :: rest)
  | differential {u x : Token} : u.isChar "d" = true → x.isLetter = true →
      Boundary .differential [u, x]

/-- A token that no production asks for when it looks ahead, apart from runs. -/
structure Token.Inert (u : Token) : Prop where
  opening : ∀ k : Bracket, u.kind ≠ .opening k
  closing : ∀ k : Bracket, u.kind ≠ .closing k
  caret : u.kind ≠ .caret
  command : u.isCommand ["circ", "limits"] = false
  char : u.isChar "-" = false ∧ u.isChar "1" = false ∧ u.isChar "=" = false

variable {halt : Stop} {tail ts : List Token} {u : Token}

/-- The kinds of tokens that separate cells and rows. -/
theorem cell_holds_iff {matrix : Bool} {rest : List Token} :
    (Stop.cell matrix).holds (u :: rest) = true
      ↔ u.kind = .rowBreak ∨ (matrix = true ∧ u.kind = .ampersand)
        ∨ u.isCommand ["end"] = true := by
  simp only [Stop.holds, Bool.or_eq_true, Bool.and_eq_true, beq_iff_eq, or_assoc]

theorem Token.Inert.not_command {name : Text} (hu : u.Inert)
    (hname : name ∈ (["circ", "limits"] : List Text)) : u.isCommand [name] = false := by
  rw [← Bool.not_eq_true]
  intro h
  obtain ⟨hk, htext⟩ := isCommand_iff.mp h
  rw [List.mem_singleton] at htext
  subst htext
  have hcommand : u.isCommand ["circ", "limits"] = true := isCommand_iff.mpr ⟨hk, hname⟩
  rw [hu.command] at hcommand
  exact absurd hcommand (by simp)

theorem inert_of_kind {kind : TokenKind} (hu : u.kind = kind)
    (hkind : kind = .rowBreak ∨ kind = .ampersand) : u.Inert := by
  subst hu
  have hchar : ∀ t : Text, u.isChar t = false := by
    intro t
    rcases hkind with hk | hk <;> simp [Token.isChar, hk]
  refine ⟨?_, ?_, ?_, ?_, hchar _, hchar _, hchar _⟩
  all_goals rcases hkind with hk | hk <;> simp [Token.isCommand, hk]

theorem inert_of_end (hu : u.isCommand ["end"] = true) : u.Inert := by
  obtain ⟨hk, htext⟩ := isCommand_iff.mp hu
  have hchar : ∀ t : Text, u.isChar t = false := fun t => by simp [Token.isChar, hk]
  refine ⟨by simp [hk], by simp [hk], by simp [hk], ?_, hchar _, hchar _, hchar _⟩
  rw [← Bool.not_eq_true, isCommand_iff]
  rintro ⟨-, hmem⟩
  rw [List.mem_singleton.mp htext] at hmem
  exact absurd hmem (by decide)

theorem inert_of_differential (hu : u.isChar "d" = true) : u.Inert := by
  obtain ⟨hk, htext⟩ : u.kind = .char ∧ u.text = "d" := by simpa [Token.isChar] using hu
  refine ⟨by simp [hk], by simp [hk], by simp [hk], ?_, ?_⟩
  · simp [Token.isCommand, hk]
  · simp only [Token.isChar, hk, htext]
    decide

namespace Boundary

theorem head (h : Boundary halt tail) : ∃ u rest, tail = u :: rest ∧ u.Inert := by
  cases h with
  | @separator matrix u rest hu =>
      refine ⟨u, rest, rfl, ?_⟩
      rcases cell_holds_iff.mp hu with hk | ⟨-, hk⟩ | hend
      · exact inert_of_kind hk (Or.inl rfl)
      · exact inert_of_kind hk (Or.inr rfl)
      · exact inert_of_end hend
  | @differential u x hu hx => exact ⟨u, [x], rfl, inert_of_differential hu⟩

theorem holds (h : Boundary halt tail) : halt.holds tail = true := by
  cases h with
  | separator hu => exact hu
  | differential hu hx => simp [Stop.holds, hu, hx]

end Boundary

/-! ## Looking ahead over the end of a text -/

theorem degreeWidth?_followed (hu : u.Inert) (a : Token) (ts rest : List Token) :
    degreeWidth? (a :: ts ++ u :: rest) = degreeWidth? (a :: ts) := by
  have hcirc : u.isCommand ["circ"] = false := hu.not_command (by simp)
  have hopen : (u.kind == .opening .curly) = false := beq_eq_false_iff_ne.mpr (hu.opening _)
  have hclose : (u.kind == .closing .curly) = false := beq_eq_false_iff_ne.mpr (hu.closing _)
  rcases ts with _ | ⟨b, _ | ⟨c, _ | ⟨d, ts⟩⟩⟩
  · rcases rest with _ | ⟨v, _ | ⟨w, rest⟩⟩ <;> simp [degreeWidth?, hcirc, hopen]
  · rcases rest with _ | ⟨v, rest⟩ <;> simp [degreeWidth?, hcirc]
  · simp [degreeWidth?, hclose]
  · rfl

theorem startsInverse_followed (hu : u.Inert) (ts rest : List Token) :
    startsInverse (ts ++ u :: rest) = startsInverse ts := by
  have hcaret : (u.kind == .caret) = false := beq_eq_false_iff_ne.mpr hu.caret
  have hopen : (u.kind == .opening .curly) = false := beq_eq_false_iff_ne.mpr (hu.opening _)
  have hclose : (u.kind == .closing .curly) = false := beq_eq_false_iff_ne.mpr (hu.closing _)
  obtain ⟨hminus, hone, -⟩ := hu.char
  rcases ts with _ | ⟨a, _ | ⟨b, _ | ⟨c, _ | ⟨d, _ | ⟨e, ts⟩⟩⟩⟩⟩
  · rcases rest with _ | ⟨p, _ | ⟨q, _ | ⟨r, _ | ⟨v, rest⟩⟩⟩⟩ <;> simp [startsInverse, hcaret]
  · rcases rest with _ | ⟨p, _ | ⟨q, _ | ⟨r, rest⟩⟩⟩ <;> simp [startsInverse, hopen]
  · rcases rest with _ | ⟨p, _ | ⟨q, rest⟩⟩ <;> simp [startsInverse, hminus]
  · rcases rest with _ | ⟨p, rest⟩ <;> simp [startsInverse, hone]
  · simp [startsInverse, hclose]
  · rfl

/-- A token of a derivative's differentials is a brace or a character. -/
theorem derivativeHead?_kinds {d x : Token} (hd : derivativeHead? ts = some (d, x)) :
    7 ≤ ts.length ∧ (∀ t ∈ ts.take 7,
      t.kind = .opening .curly ∨ t.kind = .closing .curly ∨ t.kind = .char)
      ∧ (ts[6]?).map (·.kind) = some (.closing .curly) := by
  obtain ⟨a, b, o, e, z, rest, rfl, ha, hd', hb, ho, he, hx, hz⟩ := derivativeHead?_split hd
  refine ⟨by simp, ?_, by simp [hz]⟩
  simp only [List.take_succ_cons, List.take_zero, List.forall_mem_cons, ha, hb, ho, hz,
    Token.isChar_char hd', Token.isChar_char he, Token.isLetter_char hx]
  simp

theorem derivativeHead?_append {p : Token × Token} (hd : derivativeHead? ts = some p)
    (tail : List Token) : derivativeHead? (ts ++ tail) = some p := by
  obtain ⟨a, b, o, e, z, rest, rfl, -⟩ := derivativeHead?_split (d := p.1) (x := p.2) hd
  exact hd

theorem derivativeHead?_followed (h : Boundary halt tail) (ts : List Token) :
    derivativeHead? (ts ++ tail) = derivativeHead? ts := by
  cases hd : derivativeHead? (ts ++ tail) with
  | none =>
      cases hd' : derivativeHead? ts with
      | none => rfl
      | some p =>
          rw [derivativeHead?_append hd'] at hd
          exact absurd hd (by simp)
  | some p =>
      obtain ⟨hlen, hkinds, hlast⟩ := derivativeHead?_kinds (d := p.1) (x := p.2) hd
      -- the seven tokens all stand before the boundary
      have hseven : 7 ≤ ts.length := by
        refine Nat.le_of_not_lt fun hshort => ?_
        cases h with
        | @separator matrix u rest hu =>
            have hmem : u ∈ (ts ++ u :: rest).take 7 := by
              rw [List.take_append]
              refine List.mem_append_right _ ?_
              rw [show 7 - ts.length = 6 - ts.length + 1 by omega, List.take_succ_cons]
              exact List.mem_cons_self
            have hk := hkinds u hmem
            rcases cell_holds_iff.mp hu with hu | ⟨-, hu⟩ | hu
            · simp [hu] at hk
            · simp [hu] at hk
            · simp [(isCommand_iff.mp hu).1] at hk
        | @differential u x hu hx =>
            rw [List.getElem?_append_right (by omega)] at hlast
            have hu := Token.isChar_char hu
            have hx := Token.isLetter_char hx
            rcases hi : 6 - ts.length with _ | _ | i
            · simp [hi, hu] at hlast
            · simp [hi, hx] at hlast
            · simp [hi] at hlast
      rcases ts with _ | ⟨a, _ | ⟨d, _ | ⟨b, _ | ⟨c, _ | ⟨e, _ | ⟨x, _ | ⟨f, ts⟩⟩⟩⟩⟩⟩⟩
      all_goals first
        | exact hd.symm
        | exact absurd hseven (by simp)

/-- A run that ends in the text ends where it does. -/
theorem takeWhile_followed {α : Type} {p : α → Bool} (xs : List α) {y : α} (hy : p y = false)
    (rest : List α) : (xs ++ y :: rest).takeWhile p = xs.takeWhile p := by
  rw [List.takeWhile_append]
  split
  · rename_i hall
    rw [List.takeWhile_cons, if_neg (by simp [hy]), List.append_nil]
    exact ((List.takeWhile_prefix p).eq_of_length hall).symm
  · rfl

/-! ## Definitions -/

variable {xs ys zs : List Token}

theorem matchingParen?_append {d k : Nat} (h : matchingParen? d ts = some k) (zs : List Token) :
    matchingParen? d (ts ++ zs) = some k ∧ k < ts.length := by
  fun_induction matchingParen? d ts generalizing k with
  | case1 => exact absurd h (by simp)
  | case2 d t ts hopen ih =>
      obtain ⟨i, hi, rfl⟩ := Option.map_eq_some_iff.mp h
      obtain ⟨hrun, hlt⟩ := ih hi
      refine ⟨?_, Nat.succ_lt_succ hlt⟩
      rw [List.cons_append, matchingParen?_cons, if_pos (by simpa using hopen), hrun,
        Option.map_some]
  | case3 t ts hopen hclose => exact absurd h (by simp)
  | case4 t ts hopen hclose =>
      cases h
      refine ⟨?_, Nat.zero_lt_succ _⟩
      exact matchingParen?_last (by simpa using hclose) _
  | case5 t ts hopen hclose outer ih =>
      obtain ⟨i, hi, rfl⟩ := Option.map_eq_some_iff.mp h
      obtain ⟨hrun, hlt⟩ := ih hi
      refine ⟨?_, Nat.succ_lt_succ hlt⟩
      rw [List.cons_append, matchingParen?_closing (by simpa using hclose), hrun, Option.map_some]
  | case6 d t ts hopen hclose ih =>
      obtain ⟨i, hi, rfl⟩ := Option.map_eq_some_iff.mp h
      obtain ⟨hrun, hlt⟩ := ih hi
      refine ⟨?_, Nat.succ_lt_succ hlt⟩
      rw [List.cons_append, matchingParen?_other (by simpa using hopen) (by simpa using hclose),
        hrun, Option.map_some]

/-- Brackets that are not closed from one depth leave two open from the next. -/
theorem matchingParen?_deeper {d : Nat} (h : matchingParen? (d + 1) ts = none) (z : Token) :
    matchingParen? (d + 2) (ts ++ [z]) = none := by
  induction ts generalizing d with
  | nil =>
      rw [List.nil_append, matchingParen?_cons]
      split
      · rfl
      · split <;> rfl
  | cons t ts ih =>
      rw [matchingParen?_cons] at h
      rw [List.cons_append, matchingParen?_cons]
      split at h
      · rename_i hopen
        rw [if_pos hopen, ih (Option.map_eq_none_iff.mp h), Option.map_none]
      · rename_i hopen
        rw [if_neg hopen]
        split at h
        · rename_i hclose
          rw [if_pos hclose]
          cases d with
          | zero => exact absurd h (by simp)
          | succ d =>
              show (matchingParen? (d + 2) (ts ++ [z])).map (· + 1) = none
              rw [ih (Option.map_eq_none_iff.mp h), Option.map_none]
        · rename_i hclose
          rw [if_neg hclose, ih (Option.map_eq_none_iff.mp h), Option.map_none]

/-- What is left of tokens that the count passes over is passed over. -/
theorem Level.of_append (hx : Level xs) (h : Level (xs ++ ys)) : Level ys := by
  intro d zs
  have hboth := h d zs
  rw [List.append_assoc, hx] at hboth
  have hinj : Function.Injective (Option.map (· + xs.length)) :=
    Option.map_injective fun _ _ hij => Nat.add_right_cancel hij
  refine hinj (hboth.trans ?_)
  rw [Option.map_map, List.length_append]
  congr 1
  funext i
  show i + (xs.length + ys.length) = i + ys.length + xs.length
  omega

/-- A bracket among tokens that the count passes over is closed there. -/
theorem Level.closed {o : Token} (ho : o.kind = .opening .round) (h : Level (o :: xs)) :
    ∃ k, matchingParen? 0 (o :: xs) = some k := by
  rw [matchingParen?_opening ho]
  cases hrun : matchingParen? (0 + 1) xs with
  | some k => exact ⟨k + 1, rfl⟩
  | none =>
      -- a closing bracket behind them would be found by one count and not by the other
      obtain ⟨z, hz⟩ : ∃ z : Token, z.kind = .closing .round := ⟨⟨.closing .round, [], 0, 0⟩, rfl⟩
      have hlevel := h 0 [z]
      rw [List.cons_append, matchingParen?_opening ho, matchingParen?_deeper hrun,
        matchingParen?_last hz] at hlevel
      exact absurd hlevel (by simp)

/-- Whether a definition's variable stands at the head of passed-over tokens depends on what comes
next only if it closes with them. -/
theorem startsVariable_level (h : Level ys) (hne : ys ≠ []) (zs : List Token)
    (hzs : zs.head?.any (·.isChar "=") = ts.head?.any (·.isChar "=")) :
    startsVariable (ys ++ zs) = startsVariable (ys ++ ts) := by
  cases ys with
  | nil => exact absurd rfl hne
  | cons o ys =>
      by_cases ho : o.kind = .opening .round
      · obtain ⟨k, hk⟩ := h.closed ho
        have hat : ∀ ws : List Token, startsVariable (o :: ys ++ ws)
            = ((o :: ys ++ ws)[k + 1]?).any (·.isChar "=") := by
          intro ws
          have hparen := (matchingParen?_append hk ws).1
          rw [List.cons_append] at hparen ⊢
          unfold startsVariable
          simp only [ho, beq_self_eq_true, Bool.true_and, hparen]
        rw [hat, hat]
        rcases Nat.lt_or_ge (k + 1) (o :: ys).length with hlt | hge
        · rw [List.getElem?_append_left hlt, List.getElem?_append_left hlt]
        · have hlt := (matchingParen?_append hk zs).2
          rw [List.getElem?_append_right hge, List.getElem?_append_right hge,
            show k + 1 - (o :: ys).length = 0 by omega, ← List.head?_eq_getElem?,
            ← List.head?_eq_getElem?]
          exact hzs
      · have hopen : (o.kind == .opening .round) = false := beq_eq_false_iff_ne.mpr ho
        simp only [List.cons_append, startsVariable, hopen, Bool.false_and]

/-- A sequence that may begin with a definition. -/
def Stop.Definable : Stop → Prop
  | finish | cell _ => True
  | _ => False

/-- Where such a sequence ends, none of the tokens of a definition's head stands. -/
theorem Stop.Definable.head {stop : Stop} (hstop : stop.Definable) {t : Token}
    (h : stop.holds (t :: ts) = true) :
    t.kind = .rowBreak ∨ t.kind = .ampersand ∨ t.kind = .command := by
  cases stop with
  | finish => exact absurd h (by simp [Stop.holds])
  | cell matrix =>
      rcases cell_holds_iff.mp h with hk | ⟨-, hk⟩ | hend
      · exact Or.inl hk
      · exact Or.inr (Or.inl hk)
      · exact Or.inr (Or.inr (isCommand_iff.mp hend).1)
  | kind _ | differential | arrow => exact hstop.elim

/-- The kinds of the tokens before the variable of a definition. -/
def headKinds : List TokenKind := [.char, .caret, .opening .curly, .closing .curly]

/-- The variable of a definition is looked for in the text. -/
theorem startsVariable_followed (h : Boundary halt tail) {stop : Stop} (hstop : stop.Definable)
    {rest : List Token} (hx : Level xs) (hholds : stop.holds rest = true) (pre : List Token)
    (hcut : pre ++ ys = xs ++ rest) (hpre : ∀ t ∈ pre, t.kind ∈ headKinds) :
    startsVariable (ys ++ tail) = startsVariable ys := by
  obtain ⟨u, behind, rfl, hu⟩ := h.head
  -- the tokens before the variable are among those that the count passes over
  obtain ⟨ys', rfl, rfl⟩ : ∃ ys', xs = pre ++ ys' ∧ ys = ys' ++ rest := by
    rcases List.append_eq_append_iff.mp hcut with ⟨ys', hxs, hys⟩ | ⟨zs, hpre', hrest⟩
    · exact ⟨ys', hxs, hys⟩
    · cases zs with
      | nil =>
          rw [List.append_nil] at hpre'
          rw [List.nil_append] at hrest
          exact ⟨[], by rw [hpre', List.append_nil], hrest.symm⟩
      | cons z zs =>
          rw [hrest] at hholds
          have hmem : z.kind ∈ headKinds := hpre z (by rw [hpre']; simp)
          rcases hstop.head hholds with hk | hk | hk <;> rw [hk] at hmem <;>
            exact absurd hmem (by decide)
  have hlevel : Level ys' := by
    refine Level.of_append (level_of_forall fun t ht => ?_) hx
    have hmem := hpre t ht
    constructor <;> intro hk <;> rw [hk] at hmem <;> exact absurd hmem (by decide)
  have hopen : (u.kind == .opening .round) = false := beq_eq_false_iff_ne.mpr (hu.opening _)
  rw [List.append_assoc]
  cases ys' with
  | nil =>
      cases rest with
      | nil => simp [startsVariable, hopen]
      | cons r rest =>
          have hr : (r.kind == .opening .round) = false := by
            rcases hstop.head hholds with hk | hk | hk <;> rw [hk] <;> rfl
          simp only [List.nil_append, List.cons_append, startsVariable, hr, Bool.false_and]
  | cons o ys' =>
      refine startsVariable_level hlevel (by simp) _ ?_
      cases rest with
      | nil => simp [hu.char.2.2]
      | cons r rest => rfl

/-- **A definition is found in the text or not at all.** -/
theorem definitionHead?_followed (h : Boundary halt tail) {stop : Stop} (hstop : stop.Definable)
    {rest : List Token} (hx : Framed false xs) (hholds : stop.holds rest = true) :
    definitionHead? (xs ++ rest ++ tail) = definitionHead? (xs ++ rest) := by
  obtain ⟨u, behind, htail, hu⟩ := h.head
  cases hts : xs ++ rest with
  | nil =>
      cases h with
      | @separator matrix u rest hsep =>
          have hletter : u.isLetter = false := by
            rcases cell_holds_iff.mp hsep with hk | ⟨-, hk⟩ | hend
            · simp [Token.isLetter, hk]
            · simp [Token.isLetter, hk]
            · simp [Token.isLetter, (isCommand_iff.mp hend).1]
          simp [definitionHead?, hletter]
      | @differential u x hd hletter =>
          have hx : (x.kind == .opening .round) = false := by rw [Token.isLetter_char hletter]; rfl
          simp [definitionHead?, startsInverse, startsVariable, hx]
  | cons f ts =>
      by_cases hf : f.isLetter = true
      · have hinverse : startsInverse (ts ++ tail) = startsInverse ts := by
          rw [htail]
          exact startsInverse_followed hu ts behind
        have hletter : f.kind ∈ headKinds := by rw [Token.isLetter_char hf]; decide
        have hvariable : startsVariable (ts ++ tail) = startsVariable ts := by
          refine startsVariable_followed h hstop hx.level hholds [f] ?_ ?_
          · rw [hts, List.singleton_append]
          · intro t ht
            rw [List.mem_singleton.mp ht]
            exact hletter
        simp only [List.cons_append, definitionHead?, hinverse, hvariable]
        by_cases hi : startsInverse ts = true
        · have hbehind : startsVariable ((ts ++ tail).drop 5) = startsVariable (ts.drop 5) := by
            unfold startsInverse at hi
            split at hi
            · rename_i a b c d e ts
              simp only [Bool.and_eq_true, beq_iff_eq] at hi
              obtain ⟨⟨⟨⟨ha, hb⟩, hc⟩, hd⟩, he⟩ := hi
              refine startsVariable_followed h hstop hx.level hholds [f, a, b, c, d, e] ?_ ?_
              · rw [hts]
                rfl
              · simp only [List.forall_mem_cons, ha, hb, he, Token.isChar_char hc,
                  Token.isChar_char hd, hletter]
                simp [headKinds]
            · exact absurd hi (by simp)
          rw [hbehind]
        · rw [if_neg hi, if_neg hi]
      · simp [definitionHead?, hf]

end MathMarkup.Grammar
