import MathMarkup.Proofs.CarriedCommands
import MathMarkup.Proofs.Shifting

/-!
# Texts put behind each other

A text keeps its tokens when another is put behind it that begins with a byte no token goes on with
(`Cut.append`). So a text that is accepted on its own is read in the same way where it stands in a
larger text, up to letters of a differential that follow an operand without brackets
(`Accepted.before`).
-/

namespace MathMarkup.Grammar

open MathMarkup.Grammar.Parser
open MathMarkup.Text (byte)

/-! ## Tokens -/

/-- A byte that is never part of a token which began before it, unless a backslash stands there. -/
structure StartsAnew (x : UInt8) : Prop where
  ascii : x < 0x80
  letter : Text.isLetter x = false

variable {x : UInt8} {r q : Text}

theorem headRune_append (hx : StartsAnew x) (b : UInt8) (r q : Text) :
    (Text.headRune b (r ++ x :: q)).width = (Text.headRune b r).width := by
  obtain ⟨hone, hlength, -⟩ := headRune_width b r
  obtain ⟨hone', -, hbytes⟩ := headRune_width b (r ++ x :: q)
  have htake : ∀ {n : Nat}, n ≤ r.length → (r ++ x :: q).take n = r.take n := fun hn =>
    List.take_append_of_le_length hn
  by_cases hlong : 1 < (Text.headRune b r).width
  · rw [Text.headRune_congr hlong (htake (by omega))]
  by_cases hlong' : 1 < (Text.headRune b (r ++ x :: q)).width
  · -- a character of several bytes does not reach over the byte, and so it is there without it
    have hend : (Text.headRune b (r ++ x :: q)).width ≤ r.length + 1 := by
      refine Nat.le_of_not_lt fun hlt => ?_
      have hmem : x ∈ (b :: (r ++ x :: q)).take (Text.headRune b (r ++ x :: q)).width := by
        refine List.mem_of_getElem? (i := r.length + 1) ?_
        rw [List.getElem?_take_of_lt (by omega), List.getElem?_cons_succ,
          List.getElem?_append_right (Nat.le_refl _)]
        simp
      rcases hbytes x hmem with rfl | hhigh
      · rw [headRune_ascii hx.ascii] at hlong'
        exact absurd hlong' (by simp)
      · exact absurd hhigh (UInt8.not_le.mpr hx.ascii)
    rw [Text.headRune_congr hlong' (htake (by omega)).symm]
  · omega

theorem headLexeme_append {b : UInt8} {kind : TokenKind} {text : Text} {width : Nat}
    (hx : StartsAnew x) (h : headLexeme b r = .token kind text width) (q : Text) :
    headLexeme b (r ++ x :: q) = .token kind text width := by
  have hwidth := headLexeme_width h
  rcases headLexeme_cases h with ⟨rfl, hs⟩ | ⟨hslash, hblank, rfl, rfl, rfl⟩
  · have hcommand : ∀ q, headLexeme (byte '\\') q = commandLexeme q := fun _ => rfl
    rw [hcommand] at h ⊢
    cases hs with
    | rowBreak r => rfl
    | name c r hc =>
        have hne : ¬ (c == byte '\\') = true := by simpa using isLetter_ne_slash hc
        rw [List.cons_append, commandLexeme, if_neg hne, if_pos hc, ← List.cons_append]
        dsimp only
        rw [takeWhile_followed (c :: r) hx.letter q, List.takeWhile_cons_of_pos hc]
        rfl
    | sign c r hc hl =>
        rw [List.cons_append, commandLexeme, if_neg (by simpa using hc), if_neg (by simp [hl])]
  · unfold headLexeme
    rw [if_neg (by simp [hblank]), if_neg (by simpa using hslash)]
    dsimp only
    rw [headRune_append hx, ← List.cons_append, List.take_append_of_le_length hwidth.2]

/-- **The tokens of two texts put behind each other.** -/
theorem Cut.append {pos : Nat} {t : Text} {ts us : List Token} (h : Cut pos t ts)
    (hx : StartsAnew x) (hbehind : Cut (pos + t.length) (x :: q) us) :
    Cut pos (t ++ x :: q) (ts ++ us) := by
  induction h with
  | finish => exact hbehind
  | @blank pos b r ts hb _ ih =>
      refine .blank (headLexeme_of_blank (headLexeme_blank hb) _) (ih ?_)
      rw [List.length_cons] at hbehind
      rw [show pos + 1 + r.length = pos + (r.length + 1) by omega]
      exact hbehind
  | @token pos b r kind text width ts hb _ ih =>
      have hwidth := (headLexeme_width hb).2
      refine .token (headLexeme_append hx hb q) ?_
      show Cut (pos + width) (((b :: r) ++ x :: q).drop width) (ts ++ us)
      rw [List.drop_append_of_le_length hwidth]
      refine ih ?_
      rw [List.length_drop, show pos + width + ((b :: r).length - width) = pos + (b :: r).length by
        omega]
      exact hbehind

/-- A token in front of a text. -/
theorem Cut.cons {pos : Nat} {us : List Token} {b : UInt8} {kind : TokenKind} {text : Text}
    {width : Nat} (hb : headLexeme b r = .token kind text width)
    (h : Cut (pos + width) ((b :: r).drop width) us) :
    ∃ u : Token, u.kind = kind ∧ u.text = text ∧ u.start = pos ∧ u.stop = pos + width
      ∧ Cut pos (b :: r) (u :: us) :=
  ⟨_, rfl, rfl, rfl, rfl, .token hb h⟩

theorem headLexeme_letter (hx : Text.isLetter x = true) (r : Text) :
    headLexeme x r = .token .char [x] 1 := by
  have hblank : ¬ Text.isBlank x = true := fun h => blank_not_letter h hx
  have hslash : ¬ (x == byte '\\') = true := by simpa using isLetter_ne_slash hx
  rw [headLexeme, if_neg hblank, if_neg hslash, headRune_ascii (letter_ascii hx),
    byteKind_letter hx]
  rfl

/-! ## Accepted texts -/

/-- A text that is accepted with a nesting of at most `limit` sequences, and its nodes. -/
def Accepted (limit : Nat) (t : Text) (nodes : List Node) : Prop :=
  ∃ l ≤ limit, parse l t = .ok (.root [.expression .none nodes ⟨0, t.length⟩] ⟨0, t.length⟩)

/-- The tokens of a text, wherever they stand. -/
def Tokenized (t : Text) (xs : List Token) : Prop :=
  ∃ ts, tokens t = .ok ts ∧ bareTokens xs = bareTokens ts

/-- The tokens of a text that stands `k` bytes into another. -/
def TokenizedAt (k : Nat) (t : Text) (xs : List Token) : Prop :=
  ∃ ts, tokens t = .ok ts ∧ xs = ts.map (Token.shift k)

theorem TokenizedAt.tokenized {k : Nat} {t : Text} {xs : List Token} (h : TokenizedAt k t xs) :
    Tokenized t xs := by
  obtain ⟨ts, ht, rfl⟩ := h
  exact ⟨ts, ht, bareTokens_shift ts⟩

/-- Whether letters and digits at the end of some tokens go on behind them. -/
def runsInto (xs tail : List Token) : Bool :=
  xs.getLast?.any Token.isOperand && tail.head?.any Token.isOperand

variable {limit : Nat} {t : Text} {nodes : List Node} {xs tail : List Token} {halt : Stop}

theorem definitionHead?_tokenized {ts : List Token} (ht : tokens t = .ok ts)
    (hxs : Tokenized t xs) : definitionHead? xs = definitionHead? ts := by
  obtain ⟨ts', ht', hbare⟩ := hxs
  obtain rfl : ts = ts' := Except.ok.inj (ht.symm.trans ht')
  rw [← definitionHead?_bare xs, ← definitionHead?_bare ts, hbare]

/-- A sequence that begins with no definition is read as one that may not. -/
theorem sequence_undefined {rules : Rules} {stop : Stop} {s : Scope} {c : Cursor}
    (h : definitionHead? c.rest = none) :
    sequence rules stop true s c = sequence rules stop false s c := by
  have hnone : ∀ s, definition rules stop s c = .ok (none, c) := by
    intro s
    have hlook : lookahead s c = .ok (c.rest, c) := rfl
    unfold definition
    rw [bind_of_ok hlook, h]
    rfl
  unfold sequence nested
  dsimp only
  split
  · rfl
  · rw [if_pos rfl, bind_of_ok (hnone _)]
    rfl

/-- An accepted text is read to its end. -/
theorem Accepted.run (h : Accepted limit t nodes) :
    ∃ l ≤ limit, ∃ ts c, tokens t = .ok ts
      ∧ (rulesTo (unfoldings ts)).sequence .finish true ⟨t, l, 0⟩ ⟨ts, 0⟩ = .ok (nodes, c)
      ∧ c.rest = [] := by
  obtain ⟨l, hl, hparse⟩ := h
  obtain ⟨ts, ht, -⟩ := parse_framed hparse
  rcases parse_grammar ht l with ⟨nodes', c, hrun, hrest, hparse'⟩ | ⟨e, atEnd, -, hparse'⟩
  · rw [hparse] at hparse'
    obtain rfl : nodes = nodes' := by simpa using hparse'
    exact ⟨l, hl, ts, c, ht, hrun, hrest⟩
  · rw [hparse] at hparse'
    exact absurd hparse' (by simp)

/-- An accepted text is read alike from its tokens wherever they stand. -/
theorem Accepted.placed (h : Accepted limit t nodes) (hxs : Tokenized t xs) (place : Text)
    (k : Nat) :
    ∃ l ≤ limit, ∃ nodes' c, (rulesTo (unfoldings xs)).sequence .finish true ⟨place, l, 0⟩ ⟨xs, k⟩
        = .ok (nodes', c) ∧ c.rest = [] ∧ nodes'.map Node.bare = nodes.map Node.bare := by
  obtain ⟨l, hl, ts, c0, ht, hrun, hrest⟩ := h.run
  obtain ⟨ts', ht', hbare⟩ := hxs
  obtain rfl : ts = ts' := Except.ok.inj (ht.symm.trans ht')
  have hlength : unfoldings ts = unfoldings xs := by
    have := congrArg List.length hbare
    rw [List.length_map, List.length_map] at this
    rw [unfoldings, unfoldings, this]
  rw [hlength] at hrun
  have halike : Alike (List.map Node.bare)
      ((rulesTo (unfoldings xs)).sequence .finish true ⟨t, l, 0⟩ ⟨ts, 0⟩)
      ((rulesTo (unfoldings xs)).sequence .finish true ⟨place, l, 0⟩ ⟨xs, k⟩) :=
    (rulesTo_blind (unfoldings xs)).sequence _ _ _ _ rfl rfl hbare.symm
  rw [hrun] at halike
  refine ⟨l, hl, ?_⟩
  generalize (rulesTo (unfoldings xs)).sequence .finish true ⟨place, l, 0⟩ ⟨xs, k⟩ = run at halike
  cases halike with
  | @ok _ nodes' _ c hnodes hleft =>
      refine ⟨nodes', c, rfl, ?_, hnodes.symm⟩
      rw [hrest] at hleft
      exact List.map_eq_nil_iff.mp hleft.symm

/-- An accepted text is read further on as it is on its own. -/
theorem Accepted.shifted {k : Nat} (h : Accepted limit t nodes) (hxs : TokenizedAt k t xs)
    (place : Text) (hplace : place.length = t.length + k) :
    ∃ l ≤ limit, ∃ c, (rulesTo (unfoldings xs)).sequence .finish true ⟨place, l, 0⟩ ⟨xs, k⟩
        = .ok (nodes.map (Node.shift k), c) ∧ c.rest = [] := by
  obtain ⟨l, hl, ts, c, ht, hrun, hrest⟩ := h.run
  obtain ⟨ts', ht', rfl⟩ := hxs
  obtain rfl : ts = ts' := Except.ok.inj (ht.symm.trans ht')
  have hshifted := ((rulesTo_shifting k (unfoldings ts)).sequence ⟨t, l, 0⟩ ⟨place, l, 0⟩ ⟨ts, 0⟩
    nodes c ⟨hplace, rfl, rfl⟩ hrun).2
  refine ⟨l, hl, c.shift k, ?_, by rw [Cursor.shift, hrest]; rfl⟩
  rw [unfoldings, List.length_map, ← unfoldings, ← hshifted, Cursor.shift, Nat.zero_add]

section Before

variable {definable : Bool} {s : Scope} {u : Token} {behind : List Token} {k : Nat}

/-- A sequence that is read to the end of its text is read in the same way before a boundary. -/
theorem sequence_before {l : Nat} {c : Cursor}
    (hrun : (rulesTo (unfoldings xs)).sequence .finish true ⟨List.replicate u.start 0, l, 0⟩ ⟨xs, k⟩
      = .ok (nodes, c))
    (hb : Boundary halt (u :: behind))
    (hclear : u.isLetter = true → ∀ x ∈ xs, x.isChar "d" = false)
    (hdefinition : definable = false → definitionHead? xs = none)
    (hends : definable = true → runsInto xs (u :: behind) = false) (hroom : l + s.depth ≤ s.limit) :
    Carried (u :: behind) (runsInto xs (u :: behind)) sequenceLoose nodes c
      (grammar.sequence halt definable s ⟨xs ++ u :: behind, k⟩) := by
  have hrun' : (rulesTo (unfoldings xs)).sequence .finish definable
      ⟨List.replicate u.start 0, l, 0⟩ ⟨xs, k⟩ = .ok (nodes, c) := by
    cases definable with
    | true => exact hrun
    | false =>
        rw [← hrun]
        exact (sequence_undefined (hdefinition rfl)).symm
  have hfits : Scope.Fits (u :: behind) ⟨List.replicate u.start 0, l, 0⟩ s := by
    refine ⟨fun v hv => ?_, ?_⟩
    · obtain rfl : u = v := by simpa using hv
      simp
    · show l + s.depth ≤ s.limit + 0
      omega
  have hapart : Cursor.Apart (u :: behind) (runsInto xs (u :: behind)) ⟨xs, k⟩ := by
    refine ⟨fun v hv => ?_, fun z hz => ?_⟩
    · obtain rfl : u = v := by simpa using hv
      exact hclear
    · rw [runsInto, show xs.getLast? = some z from hz]
      rfl
  exact (rulesTo_carrying hb _).outer hends hfits hapart nodes c hrun'

/-- **An accepted text is read in the same way before a boundary.** -/
theorem Accepted.before (h : Accepted limit t nodes) (hxs : Tokenized t xs)
    (hb : Boundary halt (u :: behind)) (hclear : u.isLetter = true → ∀ x ∈ xs, x.isChar "d" = false)
    (hdefinition : definable = false → definitionHead? xs = none)
    (hends : definable = true → runsInto xs (u :: behind) = false)
    (hroom : limit + s.depth ≤ s.limit) (k : Nat) :
    ∃ nodes' c, nodes'.map Node.bare = nodes.map Node.bare ∧ c.rest = []
      ∧ Carried (u :: behind) (runsInto xs (u :: behind)) sequenceLoose nodes' c
        (grammar.sequence halt definable s ⟨xs ++ u :: behind, k⟩) := by
  obtain ⟨l, hl, nodes', c, hrun, hrest, hbare⟩ := h.placed hxs (List.replicate u.start 0) k
  exact ⟨nodes', c, hbare, hrest, sequence_before hrun hb hclear hdefinition hends (by omega)⟩

end Before

/-! ## Texts of one construct -/

theorem command_unfold : grammar.command = command grammar :=
  congrArg Rules.command grammar_unfold.symm

/-- The construct of a command that is in none of the tables. -/
theorem command_construct {rules : Rules} {s : Scope} {b : Token} {ts : List Token} {k : Nat}
    (hignored : b.text ∉ ignored) (hconstants : b.text ∉ constants)
    (hnamed : namedFunctions.lookup b.text = none) :
    command rules s ⟨b :: ts, k⟩
      = (if b.isCommand ["frac", "dfrac", "tfrac"] then some <$> fraction rules
          else if b.isCommand ["sqrt"] then some <$> root rules
          else if b.isCommand ["int"] then some <$> integral rules
          else if b.isCommand ["lim"] then some <$> Grammar.limit rules
          else if b.isCommand ["log", "lg", "ln"] then some <$> logarithm rules
          else if b.isCommand ["binom"] then some <$> binary rules .binomial
          else if b.isCommand ["overline", "bar"] then some <$> unary rules .mean
          else if b.isCommand ["begin"] then some <$> environment rules
          else unsupported b : Parser (Option Node)) s ⟨b :: ts, k⟩ := by
  have hpeek : peek s ⟨b :: ts, k⟩ = .ok (b, ⟨b :: ts, k⟩) := rfl
  rw [command, bind_of_ok hpeek, if_neg (by simpa using hignored),
    if_neg (by simpa using hconstants), hnamed]

/-- A text that begins with a command is read as what the command introduces. -/
theorem sequence_command {b : Token} {ts : List Token} {k : Nat} (hb : b.kind = .command)
    (hlimit : 0 < limit) :
    grammar.sequence .finish true ⟨t, limit, 0⟩ ⟨b :: ts, k⟩
      = (do
          match ← grammar.command with
          | some n => grammar.items .finish (Builder.add {} n)
          | none => grammar.items .finish {}) ⟨t, limit, 1⟩ ⟨b :: ts, k⟩ := by
  have hhead : definitionHead? (b :: ts) = none := by simp [definitionHead?, Token.isLetter, hb]
  have hlook : lookahead ⟨t, limit, 1⟩ ⟨b :: ts, k⟩ = .ok (b :: ts, ⟨b :: ts, k⟩) := rfl
  have hpeek : peek ⟨t, limit, 1⟩ ⟨b :: ts, k⟩ = .ok (b, ⟨b :: ts, k⟩) := rfl
  rw [sequence_unfold, sequence_undefined hhead]
  show nested (items grammar .finish {}) ⟨t, limit, 0⟩ _ = _
  rw [nested, if_neg (show ¬ 0 + 1 > limit by omega)]
  show items grammar .finish {} ⟨t, limit, 1⟩ _ = _
  rw [items, bind_of_ok hlook, if_neg (by simp [Stop.holds])]
  obtain ⟨kind, text, start, stop⟩ := b
  obtain rfl : kind = .command := hb
  exact (bind_of_ok hpeek).trans rfl

/-- A text that is one construct. -/
theorem parse_construct {b : Token} {ts : List Token} {n : Node} {k : Nat}
    (ht : tokens t = .ok (b :: ts)) (hb : b.kind = .command) (hlimit : 0 < limit)
    (h : grammar.command ⟨t, limit, 1⟩ ⟨b :: ts, 0⟩ = .ok (some n, ⟨[], k⟩)) :
    parse limit t = .ok (.root [.expression .none [n] ⟨0, t.length⟩] ⟨0, t.length⟩) := by
  have hrun : grammar.sequence .finish true ⟨t, limit, 0⟩ ⟨b :: ts, 0⟩ = .ok ([n], ⟨[], k⟩) := by
    rw [sequence_command hb hlimit, bind_of_ok h]
    exact items_ends rfl
  rcases parse_grammar ht limit with ⟨nodes, c, hrun', -, hparse⟩ | ⟨e, atEnd, hrun', -⟩
  · rw [hrun] at hrun'
    cases hrun'
    exact hparse
  · rw [hrun] at hrun'
    exact absurd hrun' (by simp)

/-- A text whose first construct is refused. -/
theorem parse_refused {b : Token} {ts : List Token} {e : Halt} (ht : tokens t = .ok (b :: ts))
    (hb : b.kind = .command) (hlimit : 0 < limit)
    (h : grammar.command ⟨t, limit, 1⟩ ⟨b :: ts, 0⟩ = .error e) :
    ∃ e', parse limit t = .error e' := by
  have hrun : grammar.sequence .finish true ⟨t, limit, 0⟩ ⟨b :: ts, 0⟩ = .error e := by
    rw [sequence_command hb hlimit, run_bind, h]
  rcases parse_grammar ht limit with ⟨nodes, c, hrun', -, hparse⟩ | ⟨e', atEnd, -, hparse⟩
  · rw [hrun] at hrun'
    exact absurd hrun' (by simp)
  · exact ⟨e', hparse⟩

end MathMarkup.Grammar
