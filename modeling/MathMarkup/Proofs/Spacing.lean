import MathMarkup.Proofs.Alike
import MathMarkup.Proofs.Origins
import MathMarkup.Proofs.Parsing
import MathMarkup.Proofs.Runes

/-!
# Blanks between tokens

Blanks are dropped between tokens, so putting some in where no token is cut in two only moves the
tokens behind them (`Cut.insertAt`). Together with the two runs of the grammar this says that white
space is insignificant: texts of the same tokens are read and rendered alike, and so are a text and
the same text with more blanks in it.
-/

namespace MathMarkup.Grammar

open MathMarkup.Text (byte)

/-! ## From lexemes to tokens -/

theorem Cut.tokensFrom_eq {pos : Nat} {t : Text} {ts : List Token} (h : Cut pos t ts) :
    tokensFrom pos 0 t = .ok ts := by
  induction h with
  | finish => rfl
  | @blank pos b r ts hb _ ih =>
      rw [tokensFrom, hb]
      exact ih
  | @token pos b r kind text width ts hb _ ih =>
      obtain ⟨hw1, hw2⟩ := headLexeme_width hb
      rw [List.length_cons] at hw2
      obtain ⟨w, rfl⟩ : ∃ w, width = w + 1 := ⟨width - 1, by omega⟩
      have hmore : tokensFrom (pos + 1) w r = .ok ts := by
        rw [tokensFrom_skip (by omega), show pos + 1 + w = pos + (w + 1) by omega]
        exact ih
      rw [tokensFrom, hb]
      dsimp only
      rw [Nat.add_sub_cancel, hmore]
      rfl

/-- A cut of a text into tokens is the one that is made. -/
theorem Cut.tokens_eq {t : Text} {ts : List Token} (h : Cut 0 t ts) : tokens t = .ok ts := by
  unfold tokens
  rw [h.tokensFrom_eq]

/-! ## Putting bytes into a text -/

/-- A text with `ws` put in before its byte at index `i`, or behind it if it is shorter. -/
def insertAt (t : Text) (i : Nat) (ws : Text) : Text := t.take i ++ ws ++ t.drop i

variable {t r ws : Text} {i : Nat}

theorem insertAt_zero : insertAt t 0 ws = ws ++ t := rfl

theorem insertAt_nil : insertAt t i [] = t := by
  unfold insertAt
  rw [List.append_nil, List.take_append_drop]

theorem insertAt_cons {b : UInt8} : insertAt (b :: r) (i + 1) ws = b :: insertAt r i ws := rfl

theorem insertAt_take {n : Nat} (hi : n ≤ i) (ht : n ≤ t.length) :
    (insertAt t i ws).take n = t.take n := by
  unfold insertAt
  rw [List.append_assoc, List.take_append_of_le_length (by rw [List.length_take]; omega),
    List.take_take, Nat.min_eq_left hi]

theorem insertAt_drop {n : Nat} (hi : n ≤ i) (ht : n ≤ t.length) :
    (insertAt t i ws).drop n = insertAt (t.drop n) (i - n) ws := by
  unfold insertAt
  rw [List.append_assoc, List.drop_append_of_le_length (by rw [List.length_take]; omega),
    List.drop_take, List.drop_drop, Nat.add_sub_cancel' hi, List.append_assoc]

/-! ## The lexeme before the blanks -/

/-- Blanks behind a character do not change its width, and none is taken for a part of it. -/
theorem headRune_insertAt {b : UInt8} (hb : Text.isBlank b = false)
    (hws : ∀ w ∈ ws, Text.isBlank w = true) (hi : (Text.headRune b r).width ≤ i + 1) :
    (Text.headRune b (insertAt r i ws)).width = (Text.headRune b r).width := by
  obtain ⟨hone, hlength, -⟩ := headRune_width b r
  obtain ⟨hone', hlength', hbytes⟩ := headRune_width b (insertAt r i ws)
  by_cases hlong : 1 < (Text.headRune b r).width
  · rw [Text.headRune_congr hlong (insertAt_take (by omega) (by omega))]
  by_cases hlong' : 1 < (Text.headRune b (insertAt r i ws)).width
  · -- it would end before the blanks, and so be there without them
    cases ws with
    | nil => rw [insertAt_nil]
    | cons w ws =>
        have hend : (Text.headRune b (insertAt r i (w :: ws))).width ≤ min i r.length + 1 := by
          refine Nat.le_of_not_lt fun hlt => ?_
          have hget : (insertAt r i (w :: ws))[min i r.length]? = some w := by
            unfold insertAt
            rw [List.append_assoc, List.getElem?_append_right (Nat.le_of_eq List.length_take)]
            simp
          have hmem : w ∈ (b :: insertAt r i (w :: ws)).take
              (Text.headRune b (insertAt r i (w :: ws))).width := by
            refine List.mem_of_getElem? (i := min i r.length + 1) ?_
            rw [List.getElem?_take_of_lt (by omega), List.getElem?_cons_succ, hget]
          have hw := hws w (by simp)
          rcases hbytes w hmem with rfl | hhigh
          · rw [hw] at hb
            exact absurd hb (by simp)
          · exact absurd hhigh (UInt8.not_le.mpr (blank_ascii hw))
        have hsame : Text.headRune b r = Text.headRune b (insertAt r i (w :: ws)) :=
          Text.headRune_congr hlong' (insertAt_take (by omega) (by omega)).symm
        rw [hsame]
  · omega

theorem takeWhile_insertAt (hws : ∀ w ∈ ws, Text.isBlank w = true)
    (hi : (r.takeWhile Text.isLetter).length ≤ i) :
    (insertAt r i ws).takeWhile Text.isLetter = r.takeWhile Text.isLetter := by
  induction r generalizing i with
  | nil =>
      unfold insertAt
      rw [List.take_nil, List.drop_nil, List.nil_append, List.append_nil]
      cases ws with
      | nil => rfl
      | cons w ws => exact List.takeWhile_cons_of_neg (blank_not_letter (hws w (by simp)))
  | cons b r ih =>
      by_cases hb : Text.isLetter b = true
      · rw [List.takeWhile_cons_of_pos hb] at hi ⊢
        rw [List.length_cons] at hi
        obtain ⟨j, rfl⟩ : ∃ j, i = j + 1 := ⟨i - 1, by omega⟩
        rw [insertAt_cons, List.takeWhile_cons_of_pos hb, ih (by omega)]
      · rw [List.takeWhile_cons_of_neg hb]
        cases i with
        | succ i => rw [insertAt_cons, List.takeWhile_cons_of_neg hb]
        | zero =>
            rw [insertAt_zero]
            cases ws with
            | nil => exact List.takeWhile_cons_of_neg hb
            | cons w ws => exact List.takeWhile_cons_of_neg (blank_not_letter (hws w (by simp)))

/-- Blanks behind a token leave it as it is. -/
theorem headLexeme_insertAt {b : UInt8} {kind : TokenKind} {text : Text} {width : Nat}
    (h : headLexeme b r = .token kind text width) (hws : ∀ w ∈ ws, Text.isBlank w = true)
    (hi : width ≤ i + 1) : headLexeme b (insertAt r i ws) = .token kind text width := by
  have hwidth := headLexeme_width h
  rw [List.length_cons] at hwidth
  rcases headLexeme_cases h with ⟨rfl, hs⟩ | ⟨hslash, hblank, rfl, rfl, rfl⟩
  · have hcommand : ∀ q, headLexeme (byte '\\') q = commandLexeme q := fun _ => rfl
    rw [hcommand] at h ⊢
    cases hs with
    | rowBreak r =>
        obtain ⟨j, rfl⟩ : ∃ j, i = j + 1 := ⟨i - 1, by omega⟩
        rfl
    | name c r hc =>
        obtain ⟨j, rfl⟩ : ∃ j, i = j + 1 := ⟨i - 1, by omega⟩
        have hne : ¬ (c == byte '\\') = true := by simpa using isLetter_ne_slash hc
        rw [insertAt_cons, commandLexeme, if_neg hne, if_pos hc]
        dsimp only
        rw [List.takeWhile_cons_of_pos hc, takeWhile_insertAt hws (by omega)]
        rfl
    | sign c r hc hl =>
        obtain ⟨j, rfl⟩ : ∃ j, i = j + 1 := ⟨i - 1, by omega⟩
        rw [insertAt_cons, commandLexeme, if_neg (by simpa using hc), if_neg (by simp [hl])]
  · unfold headLexeme
    rw [if_neg (by simp [hblank]), if_neg (by simpa using hslash)]
    dsimp only
    rw [headRune_insertAt hblank hws hi, ← insertAt_cons,
      insertAt_take (by omega) (by simpa using hwidth.2)]

/-! ## The tokens of the whole text -/

/-- A token when `k` bytes are put in before index `i` of the text. -/
def Token.moved (i k : Nat) (t : Token) : Token :=
  if i ≤ t.start then { t with start := t.start + k, stop := t.stop + k } else t

theorem Token.moved_bare (i k : Nat) (t : Token) : (t.moved i k).bare = t.bare := by
  unfold Token.moved
  split <;> rfl

theorem bareTokens_moved (i k : Nat) (ts : List Token) :
    bareTokens (ts.map (Token.moved i k)) = bareTokens ts := by
  rw [bareTokens, List.map_map]
  exact List.map_congr_left fun t _ => t.moved_bare i k

theorem headLexeme_of_blank {b : UInt8} (hb : Text.isBlank b = true) (r : Text) :
    headLexeme b r = .blank := by
  unfold headLexeme
  rw [if_pos hb]

theorem cut_blanks {pos : Nat} {ts : List Token} (hws : ∀ w ∈ ws, Text.isBlank w = true)
    (h : Cut (pos + ws.length) r ts) : Cut pos (ws ++ r) ts := by
  induction ws generalizing pos with
  | nil => exact h
  | cons w ws ih =>
      refine .blank (headLexeme_of_blank (hws w (by simp)) _)
        (ih (fun x hx => hws x (by simp [hx])) ?_)
      rw [List.length_cons] at h
      rw [show pos + 1 + ws.length = pos + (ws.length + 1) by omega]
      exact h

/-- Reading from a later offset moves all tokens. -/
theorem Cut.shift {pos : Nat} {ts : List Token} (h : Cut pos t ts) (k : Nat) {i : Nat}
    (hi : i ≤ pos) : Cut (pos + k) t (ts.map (Token.moved i k)) := by
  induction h with
  | finish => exact .finish
  | @blank pos b r ts hb _ ih =>
      refine .blank hb ?_
      rw [show pos + k + 1 = pos + 1 + k by omega]
      exact ih (by omega)
  | @token pos b r kind text width ts hb _ ih =>
      have hmoved : Token.moved i k ⟨kind, text, pos, pos + width⟩
          = ⟨kind, text, pos + k, pos + k + width⟩ := by
        unfold Token.moved
        rw [if_pos hi, show pos + k + width = pos + width + k by omega]
      rw [List.map_cons, hmoved]
      refine .token hb ?_
      rw [show pos + k + width = pos + width + k by omega]
      exact ih (by omega)

/-- **Blanks put in between tokens** move the tokens behind them and change nothing else. -/
theorem Cut.insertAt {pos i : Nat} {ts : List Token} (h : Cut pos t ts)
    (hws : ∀ w ∈ ws, Text.isBlank w = true)
    (hi : ∀ k ∈ ts, pos + i ≤ k.start ∨ k.stop ≤ pos + i) :
    Cut pos (Grammar.insertAt t i ws) (ts.map (Token.moved (pos + i) ws.length)) := by
  induction h generalizing i with
  | finish =>
      rw [Grammar.insertAt, List.take_nil, List.drop_nil]
      exact cut_blanks hws .finish
  | @blank pos b r ts hb hcut ih =>
      cases i with
      | zero => exact cut_blanks hws ((Cut.blank hb hcut).shift _ (Nat.le_refl _))
      | succ i =>
          rw [insertAt_cons, show pos + (i + 1) = pos + 1 + i by omega] at *
          exact .blank (headLexeme_of_blank (headLexeme_blank hb) _) (ih hi)
  | @token pos b r kind text width ts hb hcut ih =>
      cases i with
      | zero => exact cut_blanks hws ((Cut.token hb hcut).shift _ (Nat.le_refl _))
      | succ i =>
          obtain ⟨hw1, hw2⟩ := headLexeme_width hb
          -- the first token ends before the blanks
          have hstop : width ≤ i + 1 := by
            have := hi _ (List.mem_cons_self ..)
            dsimp only at this
            omega
          have hmoved : Token.moved (pos + (i + 1)) ws.length ⟨kind, text, pos, pos + width⟩
              = ⟨kind, text, pos, pos + width⟩ := by
            unfold Token.moved
            rw [if_neg (by dsimp only; omega)]
          have hrest : pos + (i + 1) = pos + width + (i + 1 - width) := by omega
          rw [insertAt_cons, List.map_cons, hmoved]
          refine .token (headLexeme_insertAt hb hws hstop) ?_
          rw [← insertAt_cons, insertAt_drop hstop hw2, hrest]
          refine ih fun k hk => ?_
          rw [← hrest]
          exact hi k (List.mem_cons_of_mem _ hk)

/-! ## Reading texts of the same tokens -/

/-- Two texts are read alike: into trees that differ in places only, which are rendered the same way
or fail for the same reason, or both are refused with errors that differ in their places only. -/
def ReadAlike (limit : Nat) (a b : Text) : Prop :=
  (∃ m n, parse limit a = .ok m ∧ parse limit b = .ok n ∧ m.bare = n.bare
    ∧ ∀ depth, (Solver.render depth m).mapError StageError.bare
      = (Solver.render depth n).mapError StageError.bare)
  ∨ ∃ e e', parse limit a = .error e ∧ parse limit b = .error e' ∧ e.bare = e'.bare

theorem readAlike_of_tokens {a b : Text} {ts us : List Token} (ha : tokens a = .ok ts)
    (hb : tokens b = .ok us) (h : bareTokens ts = bareTokens us) (limit : Nat) :
    ReadAlike limit a b := by
  have hlength : unfoldings us = unfoldings ts := by
    have := congrArg List.length h
    rw [List.length_map, List.length_map] at this
    rw [unfoldings, unfoldings, this]
  have hrun : Alike (List.map Node.bare)
      ((rulesTo (unfoldings ts)).sequence .finish true ⟨a, limit, 0⟩ ⟨ts, 0⟩)
      ((rulesTo (unfoldings ts)).sequence .finish true ⟨b, limit, 0⟩ ⟨us, 0⟩) :=
    (rulesTo_blind (unfoldings ts)).sequence _ _ _ _ rfl rfl h
  unfold ReadAlike
  rw [parse_of_tokens limit ha, parse_of_tokens limit hb]
  unfold parseTokens
  rw [hlength]
  generalize (rulesTo (unfoldings ts)).sequence .finish true ⟨a, limit, 0⟩ ⟨ts, 0⟩ = run at *
  generalize (rulesTo (unfoldings ts)).sequence .finish true ⟨b, limit, 0⟩ ⟨us, 0⟩ = run' at *
  cases hrun with
  | @ok nodes nodes' _ _ hnodes _ =>
      have hbare : (Node.root [.expression .none nodes ⟨0, a.length⟩] ⟨0, a.length⟩).bare
          = (Node.root [.expression .none nodes' ⟨0, b.length⟩] ⟨0, b.length⟩).bare := by
        simp only [Node.bare, Node.bareList_eq, List.map_cons, hnodes, List.map_nil]
      exact Or.inl ⟨_, _, rfl, rfl, hbare, fun depth => Solver.render_bare depth hbare⟩
  | failed he => exact Or.inr ⟨_, _, rfl, rfl, he⟩
  | spent => exact Or.inr ⟨_, _, rfl, rfl, rfl⟩

/--
**White space is insignificant.**

Texts that are cut into tokens of the same kinds and texts are read alike, wherever these tokens
stand. So are a text and the text with blanks put in where no token is cut in two: its tokens are
the same, moved by the number of blanks before them.
-/
theorem reading_ignores_blanks {a b : Text} {ts us : List Token} (ha : tokens a = .ok ts)
    (hb : tokens b = .ok us) (h : bareTokens ts = bareTokens us) (limit : Nat) :
    ReadAlike limit a b
    ∧ ∀ (i : Nat) (ws : Text), (∀ w ∈ ws, Text.isBlank w = true) →
      (∀ t ∈ ts, i ≤ t.start ∨ t.stop ≤ i) →
      tokens (insertAt a i ws) = .ok (ts.map (Token.moved i ws.length))
      ∧ ReadAlike limit a (insertAt a i ws) := by
  refine ⟨readAlike_of_tokens ha hb h limit, fun i ws hws hi => ?_⟩
  have hcut := (tokens_cut ha).insertAt (i := i) hws (by rw [Nat.zero_add]; exact hi)
  rw [Nat.zero_add] at hcut
  refine ⟨hcut.tokens_eq, readAlike_of_tokens ha hcut.tokens_eq ?_ limit⟩
  rw [bareTokens_moved]

/-- A sine with more or less space in it; blanks are put in before the sum sign. -/
theorem spacedSine_read_alike :
    (∃ ts us, tokens "\\sin x+1" = .ok ts ∧ tokens "\\sin  x +\n1" = .ok us
      ∧ bareTokens ts = bareTokens us)
    ∧ ReadAlike 256 "\\sin x+1" "\\sin  x +\n1"
    ∧ ReadAlike 256 "\\sin x+1" "\\sin x \t+1" := by
  have ha : tokens "\\sin x+1" = .ok
      [⟨.command, "sin", 0, 4⟩, ⟨.char, "x", 5, 6⟩, ⟨.char, "+", 6, 7⟩, ⟨.char, "1", 7, 8⟩] := rfl
  have hb : tokens "\\sin  x +\n1" = .ok
      [⟨.command, "sin", 0, 4⟩, ⟨.char, "x", 6, 7⟩, ⟨.char, "+", 8, 9⟩, ⟨.char, "1", 10, 11⟩] := rfl
  have hread := reading_ignores_blanks ha hb rfl 256
  have hblanks : ∀ b ∈ Text.ofString " \t", Text.isBlank b = true :=
    List.all_eq_true.mp (by decide)
  exact ⟨⟨_, _, ha, hb, rfl⟩, hread.1, (hread.2 6 " \t" hblanks (by decide)).2⟩

end MathMarkup.Grammar
