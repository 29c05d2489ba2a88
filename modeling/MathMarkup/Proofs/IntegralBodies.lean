import MathMarkup.Proofs.Joining

/-!
# Integrals of accepted texts

A text that is accepted on its own can be put behind `\int` as a body without brackets. The integral
is accepted and has the nodes of the text as its body, with one exception: if the text ends in
letters or digits that are the operand of a function, the operand takes in the differential as well,
and nothing is left to end the integral (`integral_composes_iff`).
-/

namespace MathMarkup

/-! ## Loose ends without places -/

namespace Node

mutual

theorem isLoose_bare : ∀ n : Node, n.bare.isLoose = n.isLoose
  | absent _ | root _ _ | expression _ _ _ | unit _ _ | char _ | environment _ _ _ => rfl
  | function name args _ _ => lastLoose_bare name.takesOperand args

theorem lastLoose_bare (operand : Bool) : ∀ args : List Node,
    lastLoose operand (bareList args) = lastLoose operand args
  | [] => rfl
  | [n] => argumentLoose_bare operand n
  | _ :: n :: ns => lastLoose_bare operand (n :: ns)

theorem argumentLoose_bare (operand : Bool) : ∀ n : Node,
    argumentLoose operand n.bare = argumentLoose operand n
  | absent _ | root _ _ | function _ _ _ _ | unit _ _ | char _ | environment _ _ _ => rfl
  | expression .curly ns _ => singleLoose_bare ns
  | expression .none _ _ | expression .round _ _ | expression .square _ _
  | expression (.other _) _ _ => rfl

theorem singleLoose_bare : ∀ ns : List Node, singleLoose (bareList ns) = singleLoose ns
  | [] => rfl
  | [n] => isLoose_bare n
  | _ :: _ :: _ => rfl

end

theorem endsLoose_bare {ms ns : List Node} (h : ms.map bare = ns.map bare) :
    endsLoose ms = endsLoose ns := by
  have hany : ∀ ns : List Node, endsLoose ns = (ns.map bare).getLast?.any isLoose := by
    intro ns
    rw [endsLoose, List.getLast?_map]
    cases ns.getLast? with
    | none => rfl
    | some n => exact (isLoose_bare n).symm
  rw [hany, hany, h]

end Node

namespace Grammar

open MathMarkup.Grammar.Parser
open MathMarkup.Text (byte)

/-! ## Bodies -/

/-- A token that can begin a body without brackets behind `\int`. -/
def BeginsBody (t : Token) : Prop :=
  t.kind ∉ [.opening .curly, .underscore, .caret] ∧ t.isCommand ["limits"] = false

instance (t : Token) : Decidable (BeginsBody t) := inferInstanceAs (Decidable (_ ∧ _))

/-- The tokens of a text that is a body without brackets when it stands behind `\int`: nothing in it
looks like a differential, a definition, a brace, a bound or `\limits`. -/
structure IsBody (ts : List Token) : Prop where
  literal : ∀ t ∈ ts, t.isChar "d" = false
  definition : definitionHead? ts = none
  head : ∀ t ∈ ts.head?, BeginsBody t

/-- Whether a text takes in the differential behind it: it ends in letters or digits that are the
operand of a function. -/
def takesDifferential (ts : List Token) (nodes : List Node) : Bool :=
  ts.getLast?.any Token.isOperand && Node.endsLoose nodes

/-- An integral as it is written, with a body and the letter of its variable. -/
def integralText (body : Text) (x : UInt8) : Text :=
  "\\int " ++ body ++ " d" ++ [x]

/-- The tree of an integral, without places. -/
def integralTree (nodes : List Node) (x : UInt8) : Node :=
  (Node.root [.expression .none [.function .integral
    [argument nodes ⟨0, 0⟩, unitAt [x] ⟨0, 0⟩] none ⟨0, 0⟩] ⟨0, 0⟩] ⟨0, 0⟩).bare

variable {limit limit' : Nat} {body : Text} {x : UInt8} {ts xs : List Token} {nodes : List Node}

/-- The tokens of an integral: the command, those of its body and the differential. -/
theorem tokens_integralText (ht : tokens body = .ok ts) (hx : Text.isLetter x = true) :
    ∃ h d v xs, tokens (integralText body x) = .ok (h :: (xs ++ [d, v]))
      ∧ h.isCommand ["int"] = true ∧ Tokenized body xs ∧ d.isChar "d" = true ∧ v.kind = .char
      ∧ v.text = [x] := by
  have htext : integralText body x
      = byte '\\'
        :: (Text.ofString "int" ++ byte ' ' :: (body ++ byte ' ' :: byte 'd' :: [x])) := by
    simp [integralText]
    rfl
  -- from the variable back to the command
  obtain ⟨v, hv, hvtext, -, -, hvariable⟩ : ∃ v : Token, v.kind = .char ∧ v.text = [x] ∧ v.start = _
      ∧ v.stop = _ ∧ Cut (5 + body.length + 1 + 1) [x] [v] :=
    Cut.cons (headLexeme_letter hx []) .finish
  obtain ⟨d, hd, hdtext, -, -, hdifferential⟩ : ∃ d : Token, d.kind = .char ∧ d.text = [byte 'd']
      ∧ d.start = _ ∧ d.stop = _ ∧ Cut (5 + body.length + 1) (byte 'd' :: [x]) [d, v] :=
    Cut.cons (headLexeme_letter (by decide) [x]) hvariable
  have hbody := (tokens_cut ht).shift 5 (Nat.le_refl 0)
  rw [Nat.zero_add] at hbody
  have hbehind : Cut 5 (body ++ byte ' ' :: byte 'd' :: [x]) (ts.map (Token.moved 0 5) ++ [d, v]) :=
    hbody.append ⟨by decide, by decide⟩ (.blank rfl hdifferential)
  have hint : headLexeme (byte '\\') (Text.ofString "int") = .token .command "int" 4 := rfl
  obtain ⟨h, hh, hhtext, -, -, hcut⟩ : ∃ h : Token, h.kind = .command ∧ h.text = "int" ∧ h.start = _
      ∧ h.stop = _ ∧ Cut 0 (integralText body x) (h :: (ts.map (Token.moved 0 5) ++ [d, v])) := by
    rw [htext]
    exact Cut.cons (headLexeme_append ⟨by decide, by decide⟩ hint _) (.blank rfl hbehind)
  refine ⟨h, d, v, _, hcut.tokens_eq, isCommand_iff.mpr ⟨hh, by simp [hhtext]⟩,
    ⟨ts, ht, bareTokens_moved 0 5 ts⟩, ?_, hv, hvtext⟩
  rw [Token.isChar, hd, hdtext]
  rfl

/-! ## Reading an integral -/

section Runs

variable {s : Scope} {rest : List Token} {h d v : Token} {k : Nat}

/-- What follows the bounds of an integral that has none. -/
def integralRest (head : Token) : Parser Node := do
  let body ← integralBody grammar
  let d ← peek
  let letter ← peekAt 1
  if d.isChar "d" && letter.isLetter then do
    Parser.skip 2
    pure (.function .integral [body, unitAt letter.text letter.span] none ⟨head.start, letter.stop⟩)
  else unexpected d ["differential"]

theorem integral_unbounded {f : Token} (hf : BeginsBody f) :
    integral grammar s ⟨h :: f :: rest, k⟩ = integralRest h s ⟨f :: rest, h.stop⟩ := by
  have hkind : f.kind ≠ .underscore ∧ f.kind ≠ .caret := by
    have := hf.1
    simp only [List.mem_cons, not_or] at this
    exact ⟨this.2.1, this.2.2.1⟩
  have hnext : next s ⟨h :: f :: rest, k⟩ = .ok (h, ⟨f :: rest, h.stop⟩) := rfl
  have hpeek : peek s ⟨f :: rest, h.stop⟩ = .ok (f, ⟨f :: rest, h.stop⟩) := rfl
  have hlimits : skipLimits s ⟨f :: rest, h.stop⟩ = .ok ((), ⟨f :: rest, h.stop⟩) := by
    show Parser.skip ((f :: rest).takeWhile (·.isCommand ["limits"])).length s _ = _
    rw [List.takeWhile_cons_of_neg (by simp [hf.2])]
    rfl
  have hscript : script grammar true {} s ⟨f :: rest, h.stop⟩ = .ok ({}, ⟨f :: rest, h.stop⟩) := by
    rw [script, bind_of_ok hpeek, if_neg (fun h => hkind.1 h.1), if_neg (fun h => hkind.2 h.1)]
    rfl
  rw [integral, bind_of_ok hnext, bind_of_ok hlimits, bind_of_ok hscript, bind_of_ok hlimits,
    bind_of_ok hscript, bind_of_ok hlimits]
  rfl

theorem integralBody_unbraced {f : Token} (hf : BeginsBody f) :
    integralBody grammar s ⟨f :: rest, k⟩
      = (do
          let nodes ← grammar.sequence .differential false
          pure (argument nodes ⟨f.start, (← peek).start⟩)) s ⟨f :: rest, k⟩ := by
  have hkind : f.kind ≠ .opening .curly := by
    have := hf.1
    simp only [List.mem_cons, not_or] at this
    exact this.1
  have hpeek : peek s ⟨f :: rest, k⟩ = .ok (f, ⟨f :: rest, k⟩) := rfl
  rw [integralBody, bind_of_ok hpeek, if_neg hkind]

/-- The body ends before the differential, and the integral behind it. -/
theorem integralRest_ends {f : Token} (hf : BeginsBody f) (hd : d.isChar "d" = true)
    (hv : v.isLetter = true)
    (hbody : grammar.sequence .differential false s ⟨f :: rest, h.stop⟩
      = .ok (nodes, ⟨[d, v], k⟩)) :
    ∃ span span', integralRest h s ⟨f :: rest, h.stop⟩
      = .ok (.function .integral [argument nodes span, unitAt v.text v.span] none span',
        ⟨[], v.stop⟩) := by
  refine ⟨⟨f.start, d.start⟩, ⟨h.start, v.stop⟩, ?_⟩
  rw [integralRest, run_bind, integralBody_unbraced hf, bind_of_ok hbody]
  show (if (d.isChar "d" && v.isLetter) = true then _ else _ : Parser Node) s ⟨[d, v], k⟩ = _
  rw [if_pos (by simp [hd, hv])]
  rfl

/-- Nothing is left behind the body, so that the integral is refused. -/
theorem integralRest_fails {f : Token} (hf : BeginsBody f)
    (hbody : grammar.sequence .differential false s ⟨f :: rest, h.stop⟩ = .ok (nodes, ⟨[], k⟩)) :
    ∃ e, integralRest h s ⟨f :: rest, h.stop⟩ = .error e := by
  rw [integralRest, run_bind, integralBody_unbraced hf, bind_of_ok hbody]
  exact ⟨_, rfl⟩

theorem command_int {b : Token} {ts : List Token} (hb : b.isCommand ["int"] = true) :
    command grammar s ⟨b :: ts, k⟩ = (some <$> integral grammar) s ⟨b :: ts, k⟩ := by
  have htext := List.mem_singleton.mp (isCommand_iff.mp hb).2
  have other : ∀ {names : List Text}, Text.ofString "int" ∉ names → ¬ b.isCommand names = true :=
    not_isCommand htext
  rw [command_construct (by rw [htext]; decide) (by rw [htext]; decide) (by rw [htext]; decide),
    if_neg (other (by decide)), if_neg (other (by decide)), if_pos hb]

end Runs

/-! ## Integrals of accepted texts -/

/-- What holds of the tokens of a text holds of them wherever they stand. -/
theorem Tokenized.forall {P : Token → Prop} (hP : ∀ t u : Token, t.bare = u.bare → P t → P u)
    (hxs : Tokenized body xs) (ht : tokens body = .ok ts) (h : ∀ t ∈ ts, P t) : ∀ t ∈ xs, P t := by
  obtain ⟨ts', ht', hbare⟩ := hxs
  obtain rfl : ts = ts' := Except.ok.inj (ht.symm.trans ht')
  intro u hu
  have hmem : u.bare ∈ bareTokens ts := by
    rw [← hbare]
    exact List.mem_map_of_mem hu
  obtain ⟨t, htmem, htu⟩ := List.mem_map.mp hmem
  exact hP t u htu (h t htmem)

theorem Tokenized.runs (hxs : Tokenized body xs) (ht : tokens body = .ok ts) :
    xs.getLast?.any Token.isOperand = ts.getLast?.any Token.isOperand := by
  obtain ⟨ts', ht', hbare⟩ := hxs
  obtain rfl : ts = ts' := Except.ok.inj (ht.symm.trans ht')
  have hany : ∀ ts : List Token,
      ts.getLast?.any Token.isOperand = (bareTokens ts).getLast?.any Token.isOperand := by
    intro ts
    rw [bareTokens, List.getLast?_map]
    cases ts.getLast? <;> rfl
  rw [hany xs, hany ts, hbare]

theorem BeginsBody.of_bare {t u : Token} (h : t.bare = u.bare) (ht : BeginsBody t) :
    BeginsBody u := by
  obtain ⟨hkind, htext⟩ := Token.bare_eq_iff.mp h
  unfold BeginsBody Token.isCommand at *
  rw [← hkind, ← htext]
  exact ht

/-- A body and the differential behind it begin as a body does. -/
theorem IsBody.first {d : Token} (hbody : IsBody ts) (hxs : Tokenized body xs)
    (ht : tokens body = .ok ts) (hd : d.isChar "d" = true) (rest : List Token) :
    ∃ f rest', xs ++ d :: rest = f :: rest' ∧ BeginsBody f := by
  cases xs with
  | nil =>
      refine ⟨d, rest, rfl, ?_⟩
      have hk := Token.isChar_char hd
      simp [BeginsBody, Token.isCommand, hk]
  | cons f xs =>
      obtain ⟨ts', ht', hbare⟩ := hxs
      obtain rfl : ts = ts' := Except.ok.inj (ht.symm.trans ht')
      cases ts with
      | nil => exact absurd hbare (by simp [bareTokens])
      | cons t ts =>
        exact ⟨f, xs ++ d :: rest, rfl, (hbody.head t rfl).of_bare (List.cons.inj hbare).1.symm⟩

/-- An integral is read with the nodes of its body, or its operand takes in the differential. -/
theorem integral_read (ht : tokens body = .ok ts) (hbody : IsBody ts)
    (h : Accepted limit body nodes) (hx : Text.isLetter x = true) (hroom : limit < limit') :
    (takesDifferential ts nodes = false ∧
      ∃ tree, parse limit' (integralText body x) = .ok tree ∧ tree.bare = integralTree nodes x)
    ∨ (takesDifferential ts nodes = true ∧ ∃ e, parse limit' (integralText body x) = .error e) := by
  obtain ⟨b, d, v, xs, htokens, hb, hxs, hd, hvkind, hvtext⟩ := tokens_integralText ht hx
  have hv : v.isLetter = true := by simp [Token.isLetter, hvkind, hvtext, hx]
  have hletter : d.isLetter = true := by
    obtain ⟨hk, htext⟩ := Token.isChar_text hd
    rw [Token.isLetter, hk, htext]
    rfl
  have hclear : d.isLetter = true → ∀ x ∈ xs, x.isChar "d" = false := fun _ =>
    hxs.forall
      (fun t u htu => by rw [Token.eq_of_bare (p := (·.isChar "d")) (fun _ => rfl) htu]; exact id)
      ht hbody.literal
  have hundefined : definitionHead? xs = none := by
    rw [definitionHead?_tokenized ht hxs]
    exact hbody.definition
  have hends : runsInto xs [d, v] = ts.getLast?.any Token.isOperand := by
    rw [runsInto, hxs.runs ht]
    simp [Token.isLetter_operand hletter]
  obtain ⟨nodes', c, hbare, hrest, hrun⟩ : ∃ nodes' c, nodes'.map Node.bare = nodes.map Node.bare
      ∧ c.rest = [] ∧ Carried [d, v] (runsInto xs [d, v]) sequenceLoose nodes' c
        (grammar.sequence .differential false ⟨integralText body x, limit', 1⟩
          ⟨xs ++ [d, v], b.stop⟩) :=
    h.before (s := ⟨integralText body x, limit', 1⟩) hxs (.differential hd hv) hclear
      (fun _ => hundefined) (fun h => absurd h (by simp)) hroom b.stop
  obtain ⟨f, rest, hfirst, hf⟩ := hbody.first hxs ht hd [v]
  obtain ⟨left, k⟩ := c
  cases hrest
  rw [hends, hfirst] at hrun
  rw [hfirst] at htokens
  have hk : b.kind = .command := (isCommand_iff.mp hb).1
  have hcommand : grammar.command ⟨integralText body x, limit', 1⟩ ⟨b :: f :: rest, 0⟩
      = (integralRest b >>= fun n => pure (some n)) ⟨integralText body x, limit', 1⟩
        ⟨f :: rest, b.stop⟩ := by
    rw [command_unfold, command_int hb]
    show (integral grammar >>= fun n => pure (some n)) _ _ = _
    rw [run_bind, run_bind, integral_unbounded hf]
  generalize hrun' : grammar.sequence .differential false ⟨integralText body x, limit', 1⟩
    ⟨f :: rest, b.stop⟩ = run at hrun
  cases hrun with
  | same _ hshut =>
      left
      obtain ⟨span, span', hintegral⟩ := integralRest_ends hf hd hv hrun'
      rw [bind_of_ok hintegral] at hcommand
      refine ⟨?_, _, parse_construct htokens hk (by omega) hcommand, ?_⟩
      · rw [takesDifferential, ← Node.endsLoose_bare hbare]
        cases hlast : ts.getLast?.any Token.isOperand with
        | false => rfl
        | true => exact Option.some.inj (hshut rfl hlast)
      · rw [hvtext]
        simp only [integralTree, Node.bare, Node.bareList_eq, List.map_cons, List.map_nil,
          argument, hbare, unitAt_bare [x] v.span ⟨0, 0⟩, Node.bareOption_eq, Option.map_none]
  | @grown _ c' _ _ hlast hloose _ hleft =>
      right
      obtain ⟨left, k'⟩ := c'
      have hnil : left = [] := by
        rw [show left = [d, v].dropWhile Token.isOperand from hleft,
          List.dropWhile_cons_of_pos (Token.isLetter_operand hletter),
          List.dropWhile_cons_of_pos (Token.isLetter_operand hv)]
        rfl
      subst hnil
      obtain ⟨e, hintegral⟩ := integralRest_fails hf hrun'
      rw [run_bind, hintegral] at hcommand
      refine ⟨?_, parse_refused htokens hk (by omega) hcommand⟩
      rw [takesDifferential, hlast, ← Node.endsLoose_bare hbare]
      exact Option.some.inj hloose

/-- **When integrals compose.** A body that is accepted on its own with a nesting of at most `limit`
sequences is read behind `\int`, with any larger limit, as the body of an integral over the letter
behind the `d`, unless it ends in letters or digits that are the operand of a function. Such an
operand goes on with the differential, and the text is refused. -/
theorem integral_composes_iff (ht : tokens body = .ok ts) (hbody : IsBody ts)
    (h : Accepted limit body nodes) (hx : Text.isLetter x = true) (hroom : limit < limit') :
    ((∃ tree, parse limit' (integralText body x) = .ok tree ∧ tree.bare = integralTree nodes x)
      ↔ takesDifferential ts nodes = false)
    ∧ ((∃ e, parse limit' (integralText body x) = .error e)
      ↔ takesDifferential ts nodes = true) := by
  rcases integral_read ht hbody h hx hroom with ⟨htakes, hread⟩ | ⟨htakes, hfailed⟩
  · obtain ⟨tree, hparse, htree⟩ := hread
    simp [htakes, hparse, htree]
  · obtain ⟨e, hparse⟩ := hfailed
    simp [htakes, hparse]

/-- A sine that takes in the differential, and one whose brackets keep it out. -/
theorem sine_takes_differential :
    (∃ ts nodes, tokens "\\sin x" = .ok ts ∧ IsBody ts ∧ Accepted 2 "\\sin x" nodes
      ∧ takesDifferential ts nodes = true
      ∧ ∃ e, parse 3 (integralText "\\sin x" (byte 'x')) = .error e)
    ∧ ∃ ts nodes tree, tokens "\\sin(x)" = .ok ts ∧ IsBody ts ∧ Accepted 2 "\\sin(x)" nodes
      ∧ takesDifferential ts nodes = false
      ∧ parse 3 (integralText "\\sin(x)" (byte 'x')) = .ok tree
      ∧ tree.bare = integralTree nodes (byte 'x') := by
  have hloose : Accepted 2 "\\sin x"
      [.function .regular [unitAt "sin" ⟨0, 4⟩, unitAt "x" ⟨5, 6⟩] none ⟨0, 6⟩] :=
    ⟨1, by decide, rfl⟩
  have hclosed : Accepted 2 "\\sin(x)"
      [.function .regular [unitAt "sin" ⟨0, 4⟩, .expression .curly [unitAt "x" ⟨5, 6⟩] ⟨4, 7⟩] none
        ⟨0, 7⟩] := ⟨2, by decide, rfl⟩
  have ht : tokens "\\sin x" = .ok [⟨.command, "sin", 0, 4⟩, ⟨.char, "x", 5, 6⟩] := rfl
  have ht' : tokens "\\sin(x)" = .ok [⟨.command, "sin", 0, 4⟩, ⟨.opening .round, "(", 4, 5⟩,
      ⟨.char, "x", 5, 6⟩, ⟨.closing .round, ")", 6, 7⟩] := rfl
  have hbody : IsBody [⟨.command, "sin", 0, 4⟩, ⟨.char, "x", 5, 6⟩] :=
    ⟨by decide, rfl, by decide⟩
  have hbody' : IsBody [⟨.command, "sin", 0, 4⟩, ⟨.opening .round, "(", 4, 5⟩,
      ⟨.char, "x", 5, 6⟩, ⟨.closing .round, ")", 6, 7⟩] := ⟨by decide, rfl, by decide⟩
  have hx : Text.isLetter (byte 'x') = true := by decide
  have hfails := (integral_composes_iff ht hbody hloose hx (Nat.lt_succ_self 2)).2.mpr rfl
  obtain ⟨tree, hparse, htree⟩ :=
    (integral_composes_iff ht' hbody' hclosed hx (Nat.lt_succ_self 2)).1.mpr rfl
  exact ⟨⟨_, _, ht, hbody, hloose, rfl, hfails⟩, _, _, tree, ht', hbody', hclosed, rfl,
    hparse, htree⟩

end Grammar

end MathMarkup
