import MathMarkup.Proofs.Literal

/-!
# Characters and their bytes

The character at the head of a text is one byte of ASCII, two to four bytes whose ranges allow no
overlong form, no surrogate and nothing past the last code point, or a byte that encodes nothing
(`RuneShape`). A well formed sequence is found by its own bytes, whatever follows, and writing the
character gives them back.
-/

namespace MathMarkup.Text

/-- How the character at the head of a text whose first byte is `b` is encoded. -/
inductive RuneShape (b : UInt8) : Text → Rune → Prop where
  | ascii (r : Text) : b < 0x80 → RuneShape b r ⟨Char.ofNat b.toNat, 1⟩
  | two (c : UInt8) (r : Text) : 0xC2 ≤ b → b ≤ 0xDF → isTail c = true →
      RuneShape b (c :: r) ⟨Char.ofNat (b.toNat % 32 * 64 + tailBits c), 2⟩
  | three (c d : UInt8) (r : Text) : 0xE0 ≤ b → b ≤ 0xEF → secondAllowed b c = true →
      isTail d = true →
      RuneShape b (c :: d :: r)
        ⟨Char.ofNat (b.toNat % 16 * 4096 + tailBits c * 64 + tailBits d), 3⟩
  | four (c d e : UInt8) (r : Text) : 0xF0 ≤ b → b ≤ 0xF4 → secondAllowed b c = true →
      isTail d = true → isTail e = true →
      RuneShape b (c :: d :: e :: r)
        ⟨Char.ofNat (b.toNat % 8 * 262144 + tailBits c * 4096 + tailBits d * 64 + tailBits e), 4⟩
  | broken (r : Text) : RuneShape b r ⟨replacementChar, 1⟩

theorem headRune_shape (b : UInt8) (r : Text) : RuneShape b r (headRune b r) := by
  unfold headRune
  dsimp only
  split
  · exact .ascii r ‹_›
  · split
    · rename_i hb
      simp only [Bool.and_eq_true, decide_eq_true_eq] at hb
      split
      · split
        · exact .two _ _ hb.1 hb.2 ‹_›
        · exact .broken _
      · exact .broken _
    · split
      · rename_i hb
        simp only [Bool.and_eq_true, decide_eq_true_eq] at hb
        split
        · split
          · rename_i hc
            rw [Bool.and_eq_true] at hc
            exact .three _ _ _ hb.1 hb.2 hc.1 hc.2
          · exact .broken _
        · exact .broken _
      · split
        · rename_i hb
          simp only [Bool.and_eq_true, decide_eq_true_eq] at hb
          split
          · split
            · rename_i hc
              rw [Bool.and_eq_true, Bool.and_eq_true] at hc
              exact .four _ _ _ _ hb.1 hb.2 hc.1.1 hc.1.2 hc.2
            · exact .broken _
          · exact .broken _
        · exact .broken _

/-! ## Bytes that continue a character -/

theorem isTail_toNat {c : UInt8} (h : isTail c = true) : 0x80 ≤ c.toNat ∧ c.toNat ≤ 0xBF := by
  simp only [isTail, Bool.and_eq_true, decide_eq_true_eq, UInt8.le_iff_toNat_le] at h
  exact h

/-- What the second byte may be, as numbers. -/
theorem secondAllowed_toNat {b c : UInt8} (h : secondAllowed b c = true) :
    0x80 ≤ c.toNat ∧ c.toNat ≤ 0xBF ∧ (b.toNat = 0xE0 → 0xA0 ≤ c.toNat)
      ∧ (b.toNat = 0xED → c.toNat ≤ 0x9F) ∧ (b.toNat = 0xF0 → 0x90 ≤ c.toNat)
      ∧ (b.toNat = 0xF4 → c.toNat ≤ 0x8F) := by
  have other : ∀ n : UInt8, ¬ (b == n) = true → b.toNat ≠ n.toNat := by
    intro n hn heq
    exact hn (beq_iff_eq.mpr (UInt8.toNat_inj.mp heq))
  unfold secondAllowed at h
  split at h
  · rename_i hb
    obtain rfl := eq_of_beq hb
    simp only [Bool.and_eq_true, decide_eq_true_eq, UInt8.le_iff_toNat_le] at h
    simp at h ⊢
    omega
  rename_i h0
  split at h
  · rename_i hb
    obtain rfl := eq_of_beq hb
    simp only [Bool.and_eq_true, decide_eq_true_eq, UInt8.le_iff_toNat_le] at h
    simp at h ⊢
    omega
  rename_i h1
  split at h
  · rename_i hb
    obtain rfl := eq_of_beq hb
    simp only [Bool.and_eq_true, decide_eq_true_eq, UInt8.le_iff_toNat_le] at h
    simp at h ⊢
    omega
  rename_i h2
  split at h
  · rename_i hb
    obtain rfl := eq_of_beq hb
    simp only [Bool.and_eq_true, decide_eq_true_eq, UInt8.le_iff_toNat_le] at h
    simp at h ⊢
    omega
  rename_i h3
  obtain ⟨hlo, hhi⟩ := isTail_toNat h
  exact ⟨hlo, hhi, fun he => absurd he (other _ h0), fun he => absurd he (other _ h1),
    fun he => absurd he (other _ h2), fun he => absurd he (other _ h3)⟩

theorem isTail_of_secondAllowed {b c : UInt8} (h : secondAllowed b c = true) : isTail c = true := by
  obtain ⟨hlow, hhigh, -⟩ := secondAllowed_toNat h
  simp only [isTail, Bool.and_eq_true, decide_eq_true_eq, UInt8.le_iff_toNat_le]
  exact ⟨hlow, hhigh⟩

theorem isTail_eq_false {b : UInt8} (h : b < 0x80 ∨ 0xC2 ≤ b) : isTail b = false := by
  simp only [isTail, Bool.and_eq_false_iff, decide_eq_false_iff_not, UInt8.not_le]
  exact h.imp id (UInt8.lt_of_lt_of_le (by decide))

namespace RuneShape

variable {b : UInt8} {r : Text} {rune : Rune}

theorem width_bounds (h : RuneShape b r rune) :
    1 ≤ rune.width ∧ rune.width ≤ r.length + 1 ∧ rune.width ≤ 4 := by
  cases h <;> simp

theorem tails (h : RuneShape b r rune) : ∀ x ∈ r.take (rune.width - 1), isTail x = true := by
  cases h with
  | ascii r hb => simp
  | broken r => simp
  | two c r h1 h2 hc => simpa using hc
  | three c d r h1 h2 hc hd => simpa using ⟨isTail_of_secondAllowed hc, hd⟩
  | four c d e r h1 h2 hc hd he => simpa using ⟨isTail_of_secondAllowed hc, hd, he⟩

/-- The first byte of a well formed character continues none. -/
theorem head_not_tail (h : RuneShape b r rune) (hvalid : rune.isInvalid = false) :
    isTail b = false := by
  cases h with
  | ascii r hb => exact isTail_eq_false (.inl hb)
  | broken r => exact absurd hvalid (by decide)
  | two c r h1 h2 hc => exact isTail_eq_false (.inr h1)
  | three c d r h1 h2 hc hd => exact isTail_eq_false (.inr (UInt8.le_trans (by decide) h1))
  | four c d e r h1 h2 hc hd he => exact isTail_eq_false (.inr (UInt8.le_trans (by decide) h1))

end RuneShape

/-! ## Finding a character -/

/-- A sequence of several bytes is found. -/
theorem RuneShape.headRune_eq {b : UInt8} {r : Text} {rune : Rune} (h : RuneShape b r rune)
    (hw : 1 < rune.width) : headRune b r = rune := by
  cases h with
  | ascii r hb => exact absurd hw (by simp)
  | broken r => exact absurd hw (by simp)
  | two c r h1 h2 hc =>
      have h0 : ¬ b < 0x80 := UInt8.not_lt.mpr (UInt8.le_trans (by decide) h1)
      simp [headRune, h0, h1, h2, hc]
  | three c d r h1 h2 hc hd =>
      have h0 : ¬ b < 0x80 := UInt8.not_lt.mpr (UInt8.le_trans (by decide) h1)
      have h3 : ¬ b ≤ 0xDF := UInt8.not_le.mpr (UInt8.lt_of_lt_of_le (by decide) h1)
      simp [headRune, h0, h1, h2, h3, hc, hd]
  | four c d e r h1 h2 hc hd he =>
      have h0 : ¬ b < 0x80 := UInt8.not_lt.mpr (UInt8.le_trans (by decide) h1)
      have h3 : ¬ b ≤ 0xDF := UInt8.not_le.mpr (UInt8.lt_of_lt_of_le (by decide) h1)
      have h4 : ¬ b ≤ 0xEF := UInt8.not_le.mpr (UInt8.lt_of_lt_of_le (by decide) h1)
      simp [headRune, h0, h1, h2, h3, h4, hc, hd, he]

/-- Texts that begin alike begin with the same byte, and go on alike. -/
theorem take_succ_eq_cons {c : UInt8} {r r' : Text} {n : Nat}
    (h : r'.take (n + 1) = (c :: r).take (n + 1)) : ∃ q, r' = c :: q ∧ q.take n = r.take n := by
  cases r' with
  | nil => exact absurd h (by simp)
  | cons x q =>
      rw [List.take_succ_cons, List.take_succ_cons] at h
      obtain ⟨rfl, hq⟩ := List.cons.inj h
      exact ⟨q, rfl, hq⟩

/-- A sequence of several bytes is found by these bytes, whatever follows them. -/
theorem headRune_congr {b : UInt8} {r r' : Text} (hw : 1 < (headRune b r).width)
    (hr : r'.take ((headRune b r).width - 1) = r.take ((headRune b r).width - 1)) :
    headRune b r' = headRune b r := by
  have hshape := headRune_shape b r
  generalize headRune b r = rune at *
  cases hshape with
  | ascii r hb => exact absurd hw (by simp)
  | broken r => exact absurd hw (by simp)
  | two c r h1 h2 hc =>
      obtain ⟨q, rfl, -⟩ := take_succ_eq_cons hr
      exact (RuneShape.two c q h1 h2 hc).headRune_eq hw
  | three c d r h1 h2 hc hd =>
      obtain ⟨q, rfl, hq⟩ := take_succ_eq_cons hr
      obtain ⟨q', rfl, -⟩ := take_succ_eq_cons hq
      exact (RuneShape.three c d q' h1 h2 hc hd).headRune_eq hw
  | four c d e r h1 h2 hc hd he =>
      obtain ⟨q, rfl, hq⟩ := take_succ_eq_cons hr
      obtain ⟨q', rfl, hq'⟩ := take_succ_eq_cons hq
      obtain ⟨q'', rfl, -⟩ := take_succ_eq_cons hq'
      exact (RuneShape.four c d e q'' h1 h2 hc hd he).headRune_eq hw

/-! ## Writing a character -/

section Encoding

variable {n : Nat}

theorem ofChar_two (h1 : 0x80 ≤ n) (h2 : n ≤ 0x7FF) :
    ofChar (Char.ofNat n) = [UInt8.ofNat (n / 64 % 32 + 192), UInt8.ofNat (n % 64 + 128)] := by
  have hn : (Char.ofNat n).val.toNat = n := toNat_ofNat_of_valid (Or.inl (by omega))
  unfold ofChar String.utf8EncodeChar
  dsimp only
  rw [hn, if_neg (by omega), if_pos h2]

theorem ofChar_three (h1 : 0x800 ≤ n) (h2 : n ≤ 0xFFFF) (hvalid : n.isValidChar) :
    ofChar (Char.ofNat n)
      = [UInt8.ofNat (n / 4096 % 16 + 224), UInt8.ofNat (n / 64 % 64 + 128),
        UInt8.ofNat (n % 64 + 128)] := by
  have hn : (Char.ofNat n).val.toNat = n := toNat_ofNat_of_valid hvalid
  unfold ofChar String.utf8EncodeChar
  dsimp only
  rw [hn, if_neg (by omega), if_neg (by omega), if_pos h2]

theorem ofChar_four (h1 : 0x10000 ≤ n) (hvalid : n.isValidChar) :
    ofChar (Char.ofNat n)
      = [UInt8.ofNat (n / 262144 % 8 + 240), UInt8.ofNat (n / 4096 % 64 + 128),
        UInt8.ofNat (n / 64 % 64 + 128), UInt8.ofNat (n % 64 + 128)] := by
  have hn : (Char.ofNat n).val.toNat = n := toNat_ofNat_of_valid hvalid
  unfold ofChar String.utf8EncodeChar
  dsimp only
  rw [hn, if_neg (by omega), if_neg (by omega), if_neg (by omega)]

theorem ofNat_eq_of_toNat {x : UInt8} (h : n = x.toNat) : UInt8.ofNat n = x := by
  rw [h, UInt8.ofNat_toNat]

end Encoding

/-- **Writing a character that was read gives its bytes back.** -/
theorem ofChar_headRune {b : UInt8} {r : Text} (h : (headRune b r).isInvalid = false) :
    ofChar (headRune b r).char = (b :: r).take (headRune b r).width := by
  have hshape := headRune_shape b r
  generalize headRune b r = rune at *
  cases hshape with
  | ascii r hb =>
      have hb' : b.toNat < 0x80 := UInt8.lt_iff_toNat_lt.mp hb
      have hn : (Char.ofNat b.toNat).toNat = b.toNat := toNat_ofNat_of_valid (Or.inl (by omega))
      rw [ofChar_ascii (by rw [hn]; exact hb'), hn, UInt8.ofNat_toNat]
      rfl
  | broken r => exact absurd h (by decide)
  | two c r h1 h2 hc =>
      obtain ⟨hc1, hc2⟩ := isTail_toNat hc
      have h1 : 0xC2 ≤ b.toNat := UInt8.le_iff_toNat_le.mp h1
      have h2 : b.toNat ≤ 0xDF := UInt8.le_iff_toNat_le.mp h2
      unfold tailBits
      rw [ofChar_two (by omega) (by omega), ofNat_eq_of_toNat (x := b) (by omega),
        ofNat_eq_of_toNat (x := c) (by omega)]
      rfl
  | three c d r h1 h2 hc hd =>
      obtain ⟨hc1, hc2, hE0, hED, -, -⟩ := secondAllowed_toNat hc
      obtain ⟨hd1, hd2⟩ := isTail_toNat hd
      have h1 : 0xE0 ≤ b.toNat := UInt8.le_iff_toNat_le.mp h1
      have h2 : b.toNat ≤ 0xEF := UInt8.le_iff_toNat_le.mp h2
      unfold tailBits
      have hvalid : (b.toNat % 16 * 4096 + c.toNat % 64 * 64 + d.toNat % 64).isValidChar := by
        rcases Nat.lt_or_ge b.toNat 0xEE with hlt | hge
        · exact Or.inl (by omega)
        · exact Or.inr ⟨by omega, by omega⟩
      rw [ofChar_three (by omega) (by omega) hvalid, ofNat_eq_of_toNat (x := b) (by omega),
        ofNat_eq_of_toNat (x := c) (by omega), ofNat_eq_of_toNat (x := d) (by omega)]
      rfl
  | four c d e r h1 h2 hc hd he =>
      obtain ⟨hc1, hc2, -, -, hF0, hF4⟩ := secondAllowed_toNat hc
      obtain ⟨hd1, hd2⟩ := isTail_toNat hd
      obtain ⟨he1, he2⟩ := isTail_toNat he
      have h1 : 0xF0 ≤ b.toNat := UInt8.le_iff_toNat_le.mp h1
      have h2 : b.toNat ≤ 0xF4 := UInt8.le_iff_toNat_le.mp h2
      unfold tailBits
      have hvalid : (b.toNat % 8 * 262144 + c.toNat % 64 * 4096 + d.toNat % 64 * 64
          + e.toNat % 64).isValidChar := Or.inr ⟨by omega, by omega⟩
      rw [ofChar_four (by omega) hvalid, ofNat_eq_of_toNat (x := b) (by omega),
        ofNat_eq_of_toNat (x := c) (by omega), ofNat_eq_of_toNat (x := d) (by omega),
        ofNat_eq_of_toNat (x := e) (by omega)]
      rfl

/-! ## Runes of a text -/

theorem runesFrom_skip {t : Text} {k : Nat} : runesFrom k t = runesFrom 0 (t.drop k) := by
  induction t generalizing k with
  | nil => cases k <;> rfl
  | cons b r ih =>
      cases k with
      | zero => rfl
      | succ k => rw [runesFrom, ih, List.drop_succ_cons]

theorem runes_cons (b : UInt8) (r : Text) :
    runes (b :: r) = headRune b r :: runes (r.drop ((headRune b r).width - 1)) := by
  unfold runes
  rw [runesFrom, runesFrom_skip]

theorem isValidUtf8_cons_eq (b : UInt8) (r : Text) :
    isValidUtf8 (b :: r)
      = (!(headRune b r).isInvalid && isValidUtf8 (r.drop ((headRune b r).width - 1))) := by
  unfold isValidUtf8
  rw [runes_cons, List.all_cons]

theorem isValidUtf8_cons {b : UInt8} {r : Text} (h : isValidUtf8 (b :: r) = true) :
    (headRune b r).isInvalid = false ∧ isValidUtf8 (r.drop ((headRune b r).width - 1)) = true := by
  rw [isValidUtf8_cons_eq, Bool.and_eq_true, Bool.not_eq_true'] at h
  exact h

/-- A well formed character is found by its own bytes, whatever follows them. -/
theorem headRune_congr_of_valid {b : UInt8} {r r' : Text} (h : (headRune b r).isInvalid = false)
    (hr : r'.take ((headRune b r).width - 1) = r.take ((headRune b r).width - 1)) :
    headRune b r' = headRune b r := by
  by_cases hw : 1 < (headRune b r).width
  · exact headRune_congr hw hr
  · have hshape := headRune_shape b r
    generalize headRune b r = rune at *
    cases hshape with
    | ascii r hb => simp [headRune, hb]
    | broken r => exact absurd h (by decide)
    | two => exact absurd (by simp) hw
    | three => exact absurd (by simp) hw
    | four => exact absurd (by simp) hw

/-- A well formed character is found in its own bytes alone. -/
theorem headRune_alone {b : UInt8} {r : Text} (h : (headRune b r).isInvalid = false) :
    headRune b (r.take ((headRune b r).width - 1)) = headRune b r :=
  headRune_congr_of_valid h (by rw [List.take_take, Nat.min_self])

/-- The bytes of a well formed character are read as this character, behind which nothing is
left. -/
theorem runes_alone {b : UInt8} {r : Text} (h : (headRune b r).isInvalid = false)
    (hw : 1 ≤ (headRune b r).width) :
    runes ((b :: r).take (headRune b r).width) = [headRune b r] := by
  have htake : (b :: r).take (headRune b r).width = b :: r.take ((headRune b r).width - 1) := by
    obtain ⟨w, hw'⟩ : ∃ w, (headRune b r).width = w + 1 := ⟨(headRune b r).width - 1, by omega⟩
    rw [hw', List.take_succ_cons, Nat.add_sub_cancel]
  rw [htake, runes_cons, headRune_alone h, List.drop_eq_nil_of_le (by rw [List.length_take]; omega)]
  rfl

/-- The bytes of a well formed character are written as they are. -/
theorem toValid_headRune {b : UInt8} {r : Text} (h : (headRune b r).isInvalid = false)
    (hw : 1 ≤ (headRune b r).width) :
    toValid ((b :: r).take (headRune b r).width) = (b :: r).take (headRune b r).width := by
  unfold toValid chars ofChars
  rw [runes_alone h hw, List.map_singleton, List.flatMap_singleton, ofChar_headRune h]

end MathMarkup.Text
