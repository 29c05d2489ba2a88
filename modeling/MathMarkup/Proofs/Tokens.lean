import MathMarkup.Cleaning.Separators
import MathMarkup.Proofs.Runes

/-!
# What the tokens of a text are

`tokensFrom` counts bytes that belong to a token already read. `Cut` is the same process one lexeme
at a time: a text is a blank and a rest, or a token and the text behind it. Everything said about
tokens is proved by induction on it:

* tokens follow one another without overlap and end within the text (`Cut.tiled`);
* a token stands where it says it does (`Cut.read`);
* the tokens that reach the leaves of a tree are literal text (`Cut.literal`), and in a text whose
  commas are all escaped no comma is among them.
-/

namespace MathMarkup.Grammar

open MathMarkup.Text (byte)

variable {commas : Bool}

/-- A text that starts at an offset is cut into tokens. -/
inductive Cut : Nat → Text → List Token → Prop where
  | finish {pos : Nat} : Cut pos [] []
  | blank {pos : Nat} {b : UInt8} {r : Text} {ts : List Token} :
      headLexeme b r = .blank → Cut (pos + 1) r ts → Cut pos (b :: r) ts
  | token {pos : Nat} {b : UInt8} {r : Text} {kind : TokenKind} {text : Text} {width : Nat}
      {ts : List Token} :
      headLexeme b r = .token kind text width → Cut (pos + width) ((b :: r).drop width) ts →
      Cut pos (b :: r) (⟨kind, text, pos, pos + width⟩ :: ts)

/-! ## One lexeme -/

theorem blank_cases {b : UInt8} (h : Text.isBlank b = true) :
    b = byte ' ' ∨ b = byte '\t' ∨ b = byte '\n' ∨ b = byte '\r' := by
  unfold Text.isBlank at h
  simpa [or_assoc] using h

theorem blank_ascii {b : UInt8} (h : Text.isBlank b = true) : b < 0x80 := by
  rcases blank_cases h with rfl | rfl | rfl | rfl <;> decide

theorem blank_not_letter {b : UInt8} (h : Text.isBlank b = true) : ¬ Text.isLetter b = true := by
  rcases blank_cases h with rfl | rfl | rfl | rfl <;> decide

theorem headRune_width (b : UInt8) (r : Text) :
    1 ≤ (Text.headRune b r).width ∧ (Text.headRune b r).width ≤ r.length + 1
      ∧ ∀ x ∈ (b :: r).take (Text.headRune b r).width, x = b ∨ 0x80 ≤ x := by
  have hshape := Text.headRune_shape b r
  obtain ⟨hone, hlength, -⟩ := hshape.width_bounds
  refine ⟨hone, hlength, fun x hx => ?_⟩
  obtain ⟨w, hw⟩ := Nat.exists_eq_add_of_le' hone
  rw [hw, List.take_succ_cons, List.mem_cons] at hx
  rcases hx with rfl | hx
  · exact .inl rfl
  · have htail := hshape.tails x (by rwa [hw, Nat.add_sub_cancel])
    simp only [Text.isTail, Bool.and_eq_true, decide_eq_true_eq] at htail
    exact .inr htail.1

/-- The three shapes of a token that starts with a backslash. -/
inductive CommandShape : Text → TokenKind → Text → Nat → Prop where
  | rowBreak (r : Text) : CommandShape (byte '\\' :: r) .rowBreak "\\\\" 2
  | name (c : UInt8) (r : Text) : Text.isLetter c = true →
      CommandShape (c :: r) .command (c :: r.takeWhile Text.isLetter)
        ((r.takeWhile Text.isLetter).length + 2)
  | sign (c : UInt8) (r : Text) : c ≠ byte '\\' → Text.isLetter c = false →
      CommandShape (c :: r) .command [c] 2

theorem commandLexeme_shape {r : Text} {kind : TokenKind} {text : Text} {width : Nat}
    (h : commandLexeme r = .token kind text width) : CommandShape r kind text width := by
  unfold commandLexeme at h
  split at h
  · exact absurd h (by simp)
  · rename_i c r
    split at h
    · rename_i hc
      obtain ⟨rfl, rfl, rfl⟩ := Lexeme.token.inj h
      rw [eq_of_beq hc]
      exact .rowBreak r
    · rename_i hc
      split at h
      · rename_i hl
        rw [List.takeWhile_cons_of_pos hl] at h
        obtain ⟨rfl, rfl, rfl⟩ := Lexeme.token.inj h
        exact .name c r hl
      · rename_i hl
        obtain ⟨rfl, rfl, rfl⟩ := Lexeme.token.inj h
        exact .sign c r (by simpa using hc) (by simpa using hl)

/-- A token is a control sequence or starts with a byte that is no backslash and no blank. -/
theorem headLexeme_cases {b : UInt8} {r : Text} {kind : TokenKind} {text : Text} {width : Nat}
    (h : headLexeme b r = .token kind text width) :
    (b = byte '\\' ∧ CommandShape r kind text width)
      ∨ (b ≠ byte '\\' ∧ Text.isBlank b = false ∧ kind = byteKind b
        ∧ text = (b :: r).take width ∧ width = (Text.headRune b r).width) := by
  unfold headLexeme at h
  split at h
  · exact absurd h (by simp)
  · rename_i hblank
    split at h
    · rename_i hb
      exact Or.inl ⟨eq_of_beq hb, commandLexeme_shape h⟩
    · rename_i hb
      obtain ⟨rfl, rfl, rfl⟩ := Lexeme.token.inj h
      exact Or.inr ⟨by simpa using hb, by simpa using hblank, rfl, rfl, rfl⟩

theorem byteKind_ne_command (b : UInt8) : byteKind b ≠ .command := by
  unfold byteKind
  split
  · simp
  · simp
  · repeat' split
    all_goals simp

theorem headLexeme_blank {b : UInt8} {r : Text} (h : headLexeme b r = .blank) :
    Text.isBlank b = true := by
  unfold headLexeme at h
  split at h
  · assumption
  · split at h
    · unfold commandLexeme at h
      split at h
      · exact absurd h (by simp)
      · split at h
        · exact absurd h (by simp)
        · split at h <;> exact absurd h (by simp)
    · exact absurd h (by simp)

theorem CommandShape.width_le {r : Text} {kind : TokenKind} {text : Text} {width : Nat}
    (h : CommandShape r kind text width) : 1 ≤ width ∧ width ≤ r.length + 1 := by
  cases h with
  | rowBreak r => exact ⟨by omega, by simp⟩
  | name c r hc =>
      have := (List.takeWhile_prefix Text.isLetter (l := r)).length_le
      exact ⟨by omega, by simpa using this⟩
  | sign c r _ _ => exact ⟨by omega, by simp⟩

theorem headLexeme_width {b : UInt8} {r : Text} {kind : TokenKind} {text : Text} {width : Nat}
    (h : headLexeme b r = .token kind text width) : 1 ≤ width ∧ width ≤ (b :: r).length := by
  rcases headLexeme_cases h with ⟨_, hs⟩ | ⟨_, _, _, _, rfl⟩
  · exact hs.width_le
  · exact ⟨(headRune_width b r).1, (headRune_width b r).2.1⟩

/-! ## From the byte counter to lexemes -/

theorem tokensFrom_skip {t : Text} {pos skip : Nat} (h : skip ≤ t.length) :
    tokensFrom pos skip t = tokensFrom (pos + skip) 0 (t.drop skip) := by
  induction t generalizing pos skip with
  | nil =>
      have : skip = 0 := by simpa using h
      subst this
      rfl
  | cons b r ih =>
      cases skip with
      | zero => rfl
      | succ n =>
          rw [tokensFrom, ih (by simpa using h), List.drop_succ_cons]
          congr 1
          omega

theorem tokensFrom_cut {t : Text} {pos : Nat} {ts : List Token}
    (h : tokensFrom pos 0 t = .ok ts) : Cut pos t ts := by
  -- a token takes several bytes at once, so the induction is on the length
  induction hn : t.length using Nat.strongRecOn generalizing t pos ts with
  | ind n ih =>
    cases t with
    | nil => cases h; exact .finish
    | cons b r =>
        rw [tokensFrom] at h
        split at h
        · rename_i hb
          exact .blank hb (ih r.length (by simp [← hn]) h rfl)
        · exact absurd h (by simp)
        · rename_i kind text width hb
          obtain ⟨hw1, hw2⟩ := headLexeme_width hb
          rw [List.length_cons] at hw2
          rw [tokensFrom_skip (by omega)] at h
          -- the rest behind the token is the rest after its other bytes
          have hdrop : r.drop (width - 1) = (b :: r).drop width := by
            obtain ⟨w, rfl⟩ : ∃ w, width = w + 1 := ⟨width - 1, by omega⟩
            rfl
          rw [hdrop, show pos + 1 + (width - 1) = pos + width by omega] at h
          cases hmore : tokensFrom (pos + width) 0 ((b :: r).drop width) with
          | error e => rw [hmore] at h; cases h
          | ok more =>
              rw [hmore] at h
              cases h
              exact .token hb (ih _ (by simp only [List.length_drop, List.length_cons, ← hn]; omega)
                hmore rfl)

/-- **The tokens of a text are a cut of it.** -/
theorem tokens_cut {t : Text} {ts : List Token} (h : tokens t = .ok ts) : Cut 0 t ts := by
  unfold tokens at h
  split at h
  · rename_i ts' hts
    cases h
    exact tokensFrom_cut hts
  · exact absurd h (by simp)

/-! ## Where tokens stand -/

/-- Tokens from an offset on, one behind the other, none of them empty, the last one ending by
`stop`. -/
def Tiled (stop : Nat) : Nat → List Token → Prop
  | lo, [] => lo ≤ stop
  | lo, t :: ts => lo ≤ t.start ∧ t.start < t.stop ∧ Tiled stop t.stop ts

theorem Tiled.mono {stop lo lo' : Nat} {ts : List Token} (h : Tiled stop lo ts) (hlo : lo' ≤ lo) :
    Tiled stop lo' ts := by
  cases ts with
  | nil => exact Nat.le_trans hlo h
  | cons t ts => exact ⟨Nat.le_trans hlo h.1, h.2⟩

theorem Tiled.le {stop lo : Nat} {ts : List Token} (h : Tiled stop lo ts) : lo ≤ stop := by
  induction ts generalizing lo with
  | nil => exact h
  | cons t ts ih => exact Nat.le_trans h.1 (Nat.le_trans (Nat.le_of_lt h.2.1) (ih h.2.2))

theorem Cut.tiled {pos : Nat} {t : Text} {ts : List Token} (h : Cut pos t ts) :
    Tiled (pos + t.length) pos ts := by
  induction h with
  | finish => simp [Tiled]
  | blank _ _ ih => exact Tiled.mono (by simpa [Nat.add_assoc, Nat.add_comm 1] using ih) (by omega)
  | @token pos b r kind text width ts hb _ ih =>
      obtain ⟨hw1, hw2⟩ := headLexeme_width hb
      refine ⟨Nat.le_refl _, by show pos < pos + width; omega, ?_⟩
      rw [List.length_drop, show pos + width + ((b :: r).length - width) = pos + (b :: r).length by
        omega] at ih
      exact ih

/-- A token is the lexeme of the text at its start. -/
theorem Cut.read {pos : Nat} {t : Text} {ts : List Token} (h : Cut pos t ts) :
    ∀ k ∈ ts, pos ≤ k.start ∧ ∃ b r, t.drop (k.start - pos) = b :: r
      ∧ headLexeme b r = .token k.kind k.text (k.stop - k.start) := by
  induction h with
  | finish => intro k hk; simp at hk
  | @blank pos b r ts _ _ ih =>
      intro k hk
      obtain ⟨hle, c, s, hdrop, hlex⟩ := ih k hk
      refine ⟨by omega, c, s, ?_, hlex⟩
      rw [show k.start - pos = k.start - (pos + 1) + 1 by omega, List.drop_succ_cons]
      exact hdrop
  | @token pos b r kind text width ts hb _ ih =>
      intro k hk
      rcases List.mem_cons.mp hk with rfl | hk
      · exact ⟨Nat.le_refl _, b, r, by simp, by simpa using hb⟩
      · obtain ⟨hle, c, s, hdrop, hlex⟩ := ih k hk
        refine ⟨by omega, c, s, ?_, hlex⟩
        rw [List.drop_drop] at hdrop
        rw [show k.start - pos = width + (k.start - (pos + width)) by omega]
        exact hdrop

/-- The first token of a text stands behind blanks. -/
theorem Cut.first {pos : Nat} {t : Text} {k : Token} {ts : List Token} (h : Cut pos t (k :: ts)) :
    ∃ w b r width, t = w ++ b :: r ∧ (∀ x ∈ w, Text.isBlank x = true) ∧ k.start = pos + w.length
      ∧ k.stop = k.start + width ∧ headLexeme b r = .token k.kind k.text width
      ∧ Cut k.start (b :: r) (k :: ts) ∧ Cut k.stop ((b :: r).drop width) ts := by
  generalize hks : k :: ts = us at h
  induction h with
  | finish => exact absurd hks (by simp)
  | @blank pos b r us hb _ ih =>
      obtain ⟨w, b', r', width, rfl, hw, hstart, hstop, hlexeme, hcut⟩ := ih hks
      refine ⟨b :: w, b', r', width, rfl, ?_, ?_, hstop, hlexeme, hcut⟩
      · exact List.forall_mem_cons.mpr ⟨headLexeme_blank hb, hw⟩
      · rw [hstart, List.length_cons]
        omega
  | @token pos b r kind text width us hb hcut _ =>
      obtain ⟨rfl, rfl⟩ := List.cons.inj hks
      exact ⟨[], b, r, width, rfl, by simp, rfl, rfl, hb, .token hb hcut, hcut⟩

/-! ## Literal tokens -/

/-- The tokens whose text can stand in a leaf are literal. -/
def Token.Sound (commas : Bool) (t : Token) : Prop :=
  t.kind = .char ∨ t.kind = .caret ∨ t.kind = .underscore → LiteralText commas t.text

theorem byteKind_literal {b : UInt8} (hslash : b ≠ byte '\\') (hblank : Text.isBlank b = false)
    (hcomma : b = byte ',' → commas = true)
    (h : byteKind b = .char ∨ byteKind b = .caret ∨ byteKind b = .underscore) :
    Literal commas b := by
  unfold byteKind at h
  split at h
  · exact absurd h (by simp)
  · exact absurd h (by simp)
  · rename_i ho hc
    refine ⟨ho, hc, hslash, ?_, ?_, hblank, hcomma⟩
    · rintro rfl; exact absurd h (by decide)
    · rintro rfl; exact absurd h (by decide)

theorem CommandShape.sound {r : Text} {kind : TokenKind} {text : Text} {width pos : Nat}
    (h : CommandShape r kind text width) : Token.Sound commas ⟨kind, text, pos, pos + width⟩ := by
  intro hk
  cases h <;> exact absurd hk (by simp)

theorem headLexeme_sound {b : UInt8} {r : Text} {kind : TokenKind} {text : Text} {width : Nat}
    (pos : Nat) (h : headLexeme b r = .token kind text width)
    (hcomma : b = byte ',' → commas = true) :
    Token.Sound commas ⟨kind, text, pos, pos + width⟩ := by
  rcases headLexeme_cases h with ⟨_, hs⟩ | ⟨hslash, hblank, rfl, rfl, rfl⟩
  · exact hs.sound
  · intro hk x hx
    rcases (headRune_width b r).2.2 x hx with rfl | hx
    · exact byteKind_literal hslash hblank hcomma hk
    · exact literal_of_high hx

/-! ## Escaped commas -/

open Cleaning (removeCommas removeCommasFrom)

theorem removeCommasFrom_length_le (odd : Bool) (t : Text) :
    (removeCommasFrom odd t).length ≤ t.length := by
  induction t generalizing odd with
  | nil => exact Nat.le_refl _
  | cons b r ih =>
      rw [removeCommasFrom]
      split
      · exact Nat.le_succ_of_le (ih _)
      · simpa using ih _

/-- A text from which no comma is removed starts with none that would be, and none is removed from
the rest. -/
theorem removeCommasFrom_cons {odd : Bool} {b : UInt8} {r : Text}
    (h : removeCommasFrom odd (b :: r) = b :: r) :
    ¬ (b = byte ',' ∧ odd = false)
      ∧ removeCommasFrom (b == byte '\\' && !odd) r = r := by
  rw [removeCommasFrom] at h
  split at h
  · have := congrArg List.length h
    have := removeCommasFrom_length_le false r
    simp only [List.length_cons] at *
    omega
  · rename_i hc
    exact ⟨by simpa using hc, (List.cons.inj h).2⟩

/-- Bytes other than backslashes leave the next comma as it was. -/
theorem removeCommasFrom_drop {t : Text} {n : Nat} (h : removeCommasFrom false t = t)
    (hn : ∀ x ∈ t.take n, x ≠ byte '\\') : removeCommasFrom false (t.drop n) = t.drop n := by
  induction n generalizing t with
  | zero => exact h
  | succ n ih =>
      cases t with
      | nil => rfl
      | cons b r =>
          have hb : (b == byte '\\' && !false) = false := by simpa using hn b (by simp)
          have hr := (removeCommasFrom_cons h).2
          rw [hb] at hr
          exact ih hr fun x hx => hn x (by simp [hx])

theorem isLetter_ne_slash {x : UInt8} (h : Text.isLetter x = true) : x ≠ byte '\\' := by
  rintro rfl
  exact absurd h (by decide)

/-- A token takes the parity of the backslashes with it: behind it every comma is still escaped. -/
theorem removeCommasFrom_token {b : UInt8} {r : Text} {kind : TokenKind} {text : Text} {width : Nat}
    (h : headLexeme b r = .token kind text width) (he : removeCommasFrom false (b :: r) = b :: r) :
    removeCommasFrom false ((b :: r).drop width) = (b :: r).drop width := by
  rcases headLexeme_cases h with ⟨rfl, hs⟩ | ⟨hslash, _, _, _, rfl⟩
  · have hr := (removeCommasFrom_cons he).2
    cases hs with
    | rowBreak r => exact (removeCommasFrom_cons hr).2
    | sign c r hc _ =>
        have hcr := (removeCommasFrom_cons hr).2
        simpa using hcr
    | name c r hc =>
        have hcr : removeCommasFrom false r = r := by simpa using (removeCommasFrom_cons hr).2
        refine removeCommasFrom_drop (n := (r.takeWhile Text.isLetter).length) hcr fun x hx => ?_
        rw [← (List.prefix_iff_eq_take.mp (List.takeWhile_prefix _))] at hx
        exact isLetter_ne_slash (List.all_eq_true.mp List.all_takeWhile x hx)
  · refine removeCommasFrom_drop he fun x hx => ?_
    rcases (headRune_width b r).2.2 x hx with rfl | hx
    · exact hslash
    · rintro rfl; exact absurd hx (by decide)

/-- **Every token that can stand in a leaf is literal**, without commas if all are escaped. -/
theorem Cut.literal {pos : Nat} {t : Text} {ts : List Token} (h : Cut pos t ts)
    (he : commas = false → removeCommas t = t) : ∀ k ∈ ts, k.Sound commas := by
  induction h with
  | finish => intro k hk; simp at hk
  | @blank pos b r ts hb _ ih =>
      refine ih fun hc => removeCommasFrom_drop (n := 1) (he hc) fun x hx => ?_
      have : x = b := by simpa using hx
      rintro rfl
      rw [← this] at hb
      exact absurd (headLexeme_blank hb) (by decide)
  | @token pos b r kind text width ts hb _ ih =>
      intro k hk
      rcases List.mem_cons.mp hk with rfl | hk
      · -- a comma that is not escaped would have been removed
        refine headLexeme_sound pos hb fun hbc => ?_
        cases commas with
        | true => rfl
        | false => exact absurd ⟨hbc, rfl⟩ (removeCommasFrom_cons (he rfl)).1
      · exact ih (fun hc => removeCommasFrom_token hb (he hc)) k hk

end MathMarkup.Grammar
