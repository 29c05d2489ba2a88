import MathMarkup.Grammar.Builder
import MathMarkup.Proofs.Nesting

/-!
# Literal text

The leaves of a tree are runs of literal characters, and they go into the output as they are. What
matters about them is what they are not: no bracket, no separator, no blank. This file says which
bytes are literal and that the property survives the way from bytes to characters and back: the
characters of a literal text are encoded by literal bytes, whether or not the text was well formed.
-/

namespace MathMarkup

/-- A byte that means nothing to the syntax of markup. Commas count as literal only if asked for:
cleaning removes them, but a text need not have been cleaned. -/
structure Literal (commas : Bool) (b : UInt8) : Prop where
  opening : Bracket.ofOpening? b = none
  closing : Bracket.ofClosing? b = none
  slash : b ≠ Text.byte '\\'
  pipe : b ≠ Text.byte '|'
  ampersand : b ≠ Text.byte '&'
  blank : Text.isBlank b = false
  comma : b = Text.byte ',' → commas = true

/-- A text of literal bytes. -/
def LiteralText (commas : Bool) (t : Text) : Prop := ∀ b ∈ t, Literal commas b

variable {commas : Bool}

/-- The bytes that are not literal: brackets and signs, blanks and the comma. -/
def marks : List UInt8 :=
  [Bracket.round, .square, .curly].flatMap (fun k => [k.opening, k.closing])
    ++ ['\\', '|', '&', ' ', '\t', '\n', '\r', ','].map Text.byte

theorem literal_of_not_mark {b : UInt8} (h : b ∉ marks) : Literal commas b := by
  have hne : ∀ x ∈ marks, b ≠ x := by
    rintro x hx rfl
    exact h hx
  refine ⟨?_, ?_, hne _ (by decide), hne _ (by decide), hne _ (by decide), ?_,
    fun he => absurd he (hne _ (by decide))⟩
  · cases ho : Bracket.ofOpening? b with
    | none => rfl
    | some k =>
        exact absurd (Bracket.ofOpening?_eq_some_iff.mp ho) (hne _ (by cases k <;> decide))
  · cases hc : Bracket.ofClosing? b with
    | none => rfl
    | some k =>
        exact absurd (Bracket.ofClosing?_eq_some_iff.mp hc) (hne _ (by cases k <;> decide))
  · simp [Text.isBlank, hne (Text.byte ' ') (by decide), hne (Text.byte '\t') (by decide),
      hne (Text.byte '\n') (by decide), hne (Text.byte '\r') (by decide)]

theorem literal_of_high {b : UInt8} (h : 0x80 ≤ b) : Literal commas b := by
  have ascii : marks.all (· < 0x80) = true := by decide
  refine literal_of_not_mark fun hb => ?_
  have := List.all_eq_true.mp ascii b hb
  exact absurd h (UInt8.not_le.mpr (of_decide_eq_true this))

/-- Whether none of the bytes of a text is a mark. -/
def isPlain (t : Text) : Bool := t.all fun b => !marks.contains b

theorem literalText_of_isPlain {t : Text} (h : isPlain t = true) : LiteralText commas t := by
  intro b hb
  have := List.all_eq_true.mp h b hb
  exact literal_of_not_mark (by simpa using this)

theorem literal_zero : Literal commas 0 := literal_of_not_mark (by decide)

/-- A literal text has no brackets. -/
theorem LiteralText.nested {t : Text} (h : LiteralText commas t) : Bracket.Nested t :=
  Bracket.nested_of_no_brackets fun b hb => ⟨(h b hb).opening, (h b hb).closing⟩

/-! ## Characters and their bytes -/

namespace Text

theorem ofChar_ascii {c : Char} (h : c.toNat < 0x80) : ofChar c = [UInt8.ofNat c.toNat] := by
  have hv : c.val.toNat ≤ 0x7f := Nat.le_of_lt_succ h
  simp only [ofChar, String.utf8EncodeChar, if_pos hv]
  rfl

/-- A character beyond ASCII is encoded by bytes beyond ASCII. -/
theorem ofChar_high {c : Char} (h : 0x80 ≤ c.toNat) : ∀ b ∈ ofChar c, 0x80 ≤ b := by
  have high : ∀ n : Nat, 0x80 ≤ n % 256 → 0x80 ≤ UInt8.ofNat n := by
    intro n hn
    rw [UInt8.le_iff_toNat_le, UInt8.toNat_ofNat']
    exact hn
  intro b hb
  unfold ofChar String.utf8EncodeChar at hb
  dsimp only at hb
  have hv : ¬ c.val.toNat ≤ 0x7f := by
    have : c.toNat = c.val.toNat := rfl
    omega
  -- every byte of the longer encodings has its high bit set
  rw [if_neg hv] at hb
  split at hb
  · simp only [List.mem_cons, List.not_mem_nil, or_false] at hb
    rcases hb with rfl | rfl <;> exact high _ (by omega)
  · split at hb
    · simp only [List.mem_cons, List.not_mem_nil, or_false] at hb
      rcases hb with rfl | rfl | rfl <;> exact high _ (by omega)
    · simp only [List.mem_cons, List.not_mem_nil, or_false] at hb
      rcases hb with rfl | rfl | rfl | rfl <;> exact high _ (by omega)

theorem toNat_ofNat_of_valid {n : Nat} (h : n.isValidChar) : (Char.ofNat n).toNat = n := by
  unfold Char.ofNat
  rw [dif_pos h]
  rfl

theorem toNat_ofNat_cases (n : Nat) :
    (Char.ofNat n).toNat = n ∨ (Char.ofNat n).toNat = 0 := by
  by_cases h : n.isValidChar
  · exact Or.inl (toNat_ofNat_of_valid h)
  · refine Or.inr ?_
    unfold Char.ofNat
    rw [dif_neg h]
    rfl

/-- A byte beyond ASCII begins a character beyond ASCII; a sequence that is a surrogate or past the
last character would read as the character zero. -/
theorem headRune_high {b : UInt8} (h : 0x80 ≤ b) (rest : Text) :
    0x80 ≤ (headRune b rest).char.toNat ∨ (headRune b rest).char.toNat = 0 := by
  have hb : ¬ b < 0x80 := UInt8.not_lt.mpr h
  have big : ∀ n : Nat, 0x80 ≤ n → 0x80 ≤ (Char.ofNat n).toNat ∨ (Char.ofNat n).toNat = 0 := by
    intro n hn
    rcases toNat_ofNat_cases n with he | he
    · rw [he]; exact Or.inl hn
    · exact Or.inr he
  -- a sequence that is cut short or not allowed reads as the replacement character
  have invalid : 0x80 ≤ replacementChar.toNat ∨ replacementChar.toNat = 0 := by decide
  unfold headRune
  dsimp only
  rw [if_neg hb]
  split
  · rename_i hr
    simp only [Bool.and_eq_true, decide_eq_true_eq, UInt8.le_iff_toNat_le] at hr
    split
    · split
      · exact big _ (by have := hr.1; have := hr.2; simp at *; omega)
      · exact invalid
    · exact invalid
  · split
    · rename_i hr
      simp only [Bool.and_eq_true, decide_eq_true_eq, UInt8.le_iff_toNat_le] at hr
      split
      · split
        · rename_i c d _ hs
          refine big _ ?_
          -- the first byte gives 0x1000 or more, unless it is 0xE0: then the second byte does
          by_cases he : b = 0xE0
          · subst he
            simp [secondAllowed, UInt8.le_iff_toNat_le] at hs
            simp only [tailBits]
            omega
          · have : b.toNat ≠ 0xE0 := fun hn => he (UInt8.toNat_inj.mp hn)
            simp at hr
            omega
        · exact invalid
      · exact invalid
    · split
      · rename_i hr
        simp only [Bool.and_eq_true, decide_eq_true_eq, UInt8.le_iff_toNat_le] at hr
        split
        · split
          · rename_i c d e _ hs
            refine big _ ?_
            -- and likewise for 0xF0
            by_cases he : b = 0xF0
            · subst he
              simp [secondAllowed, UInt8.le_iff_toNat_le] at hs
              simp only [tailBits]
              omega
            · have : b.toNat ≠ 0xF0 := fun hn => he (UInt8.toNat_inj.mp hn)
              simp at hr
              omega
          · exact invalid
        · exact invalid
      · exact invalid

/-- The character at the head of a text is encoded by literal bytes if the byte there is literal. -/
theorem headRune_literal {b : UInt8} (h : Literal commas b) (rest : Text) :
    LiteralText commas (ofChar (headRune b rest).char) := by
  by_cases hb : b < 0x80
  · have hb' : b.toNat < 0x80 := UInt8.lt_iff_toNat_lt.mp hb
    have hc : (headRune b rest).char = Char.ofNat b.toNat := by simp [headRune, hb]
    have hn : (Char.ofNat b.toNat).toNat = b.toNat := toNat_ofNat_of_valid (Or.inl (by omega))
    rw [hc, ofChar_ascii (by rw [hn]; exact hb'), hn, UInt8.ofNat_toNat]
    intro x hx
    rw [List.mem_singleton.mp hx]
    exact h
  · rcases headRune_high (UInt8.not_lt.mp hb) rest with hc | hc
    · exact fun x hx => literal_of_high (ofChar_high hc x hx)
    · rw [ofChar_ascii (by omega), hc]
      intro x hx
      rw [List.mem_singleton.mp hx]
      exact literal_zero

theorem runesFrom_literal {t : Text} (h : LiteralText commas t) (skip : Nat) :
    ∀ r ∈ runesFrom skip t, LiteralText commas (ofChar r.char) := by
  induction t generalizing skip with
  | nil => intro r hr; simp [runesFrom] at hr
  | cons b t ih =>
      have ht : LiteralText commas t := fun x hx => h x (List.mem_cons_of_mem _ hx)
      intro r hr
      cases skip with
      | succ skip => exact ih ht skip r hr
      | zero =>
          rw [runesFrom] at hr
          rcases List.mem_cons.mp hr with rfl | hr
          · exact headRune_literal (h b (by simp)) t
          · exact ih ht _ r hr

/-- **The characters of a literal text are encoded by literal bytes.** -/
theorem chars_literal {t : Text} (h : LiteralText commas t) :
    ∀ c ∈ t.chars, LiteralText commas (ofChar c) := by
  intro c hc
  obtain ⟨r, hr, rfl⟩ := List.mem_map.mp hc
  exact runesFrom_literal h 0 r hr

theorem charOfCode_toNat (c : Char) : charOfCode c.toNat = c := by
  unfold charOfCode
  rw [if_pos ⟨Int.natCast_nonneg _, c.valid⟩]
  exact Char.ofNat_toNat c

end Text

/-! ## Units -/

/-- Characters that are written with literal bytes. -/
def LiteralChars (commas : Bool) (cs : List Character) : Prop :=
  ∀ c ∈ cs, LiteralText commas c.text

theorem LiteralChars.unitText {cs : List Character} (h : LiteralChars commas cs) :
    LiteralText commas (Node.unitText cs) := by
  intro b hb
  obtain ⟨c, hc, hb⟩ := List.mem_flatMap.mp hb
  exact h c hc b hb

namespace Grammar

theorem layOut_text (cs : List Char) (offset : Int) :
    ∀ x ∈ layOut offset cs, ∃ c ∈ cs, x.text = Text.ofChar c := by
  induction cs generalizing offset with
  | nil => intro x hx; simp [layOut] at hx
  | cons c cs ih =>
      intro x hx
      rcases List.mem_cons.mp hx with rfl | hx
      · exact ⟨c, by simp, by simp [Character.text, Text.charOfCode_toNat]⟩
      · obtain ⟨d, hd, he⟩ := ih _ x hx
        exact ⟨d, List.mem_cons_of_mem _ hd, he⟩

/-- Laying out a literal text gives literal characters. -/
theorem layOut_literal {t : Text} (h : LiteralText commas t) (offset : Int) :
    LiteralChars commas (layOut offset t.chars) := by
  intro x hx
  obtain ⟨c, hc, he⟩ := layOut_text _ _ x hx
  rw [he]
  exact Text.chars_literal h c hc

end Grammar

end MathMarkup
