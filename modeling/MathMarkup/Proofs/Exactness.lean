import MathMarkup.Proofs.SpannedSequences

/-!
# Characters and the bytes of their spans

A character is exact if the bytes of its span are its encoding. Characters that are laid out from an
offset on are all exact if and only if the text goes on with their encoding there
(`layOut_exact_iff`); everything else is about which offset they are laid out from.

* A character of a token is laid out from the start of the token. It is exact unless the token is a
  byte that encodes nothing, because then it is wider than the token (`Character.Read.exact_iff`).
* A run of letters and digits is laid out from the start of its first token as one text. It is exact
  unless there are blanks between its tokens (`Cut.run_prefix_iff`).
-/

namespace MathMarkup

open MathMarkup.Text (byte)

/-- The bytes of a span, if it lies in the text. -/
def Span.bytes? (s : Span) (t : Text) : Option Text :=
  if 0 ≤ s.start ∧ s.start ≤ s.stop ∧ s.stop ≤ t.length then
    some ((t.drop s.start.toNat).take (s.stop - s.start).toNat)
  else none

/-- The bytes of the span of a character are its encoding. -/
def Character.IsExact (t : Text) (c : Character) : Prop := c.span.bytes? t = some c.text

instance (t : Text) (c : Character) : Decidable (c.IsExact t) :=
  inferInstanceAs (Decidable (_ = _))

namespace Text

/-- Whether a character is encoded by the bytes at an offset. -/
def encodesAt (t : Text) (n : Nat) : Bool :=
  match t.drop n with
  | [] => false
  | b :: r => !(headRune b r).isInvalid

variable {t x y : Text} {pos : Nat}

theorem append_prefix_iff : x ++ y <+: t ↔ x <+: t ∧ y <+: t.drop x.length := by
  constructor
  · rintro ⟨z, rfl⟩
    rw [List.append_assoc, List.drop_left]
    exact ⟨List.prefix_append _ _, List.prefix_append _ _⟩
  · rintro ⟨⟨z, rfl⟩, hy⟩
    rw [List.drop_left] at hy
    exact (List.prefix_append_right_inj x).mpr hy

/-- The span of a text that is found at an offset. -/
theorem bytes?_eq_some_iff (hx : x ≠ []) :
    Span.bytes? ⟨pos, (pos + x.length : Nat)⟩ t = some x ↔ x <+: t.drop pos := by
  have hwidth : ((pos + x.length : Nat) - (pos : Int)).toNat = x.length := by omega
  unfold Span.bytes?
  dsimp only
  rw [hwidth, Int.toNat_natCast]
  constructor
  · intro h
    split at h
    · rw [← Option.some.inj h]
      exact List.take_prefix _ _
    · exact absurd h (by simp)
  · intro h
    have hpos : 0 < x.length := List.length_pos_iff.mpr hx
    have hle := h.length_le
    rw [List.length_drop] at hle
    rw [if_pos (by omega), ← List.prefix_iff_eq_take.mp h]

theorem ofChar_ne_nil (c : Char) : ofChar c ≠ [] := by
  intro h
  have hwidth := c.utf8Size_pos
  rw [← String.length_utf8EncodeChar] at hwidth
  rw [ofChar] at h
  rw [h] at hwidth
  exact absurd hwidth (by simp)

theorem headRune_ascii_valid {b : UInt8} (hb : b < 0x80) (r : Text) :
    (headRune b r).isInvalid = false := by
  have hlt : b.toNat < 0x80 := UInt8.lt_iff_toNat_lt.mp hb
  have hn : (Char.ofNat b.toNat).toNat = b.toNat := toNat_ofNat_of_valid (Or.inl (by omega))
  rw [Grammar.headRune_ascii hb]
  refine Bool.and_eq_false_iff.mpr (Or.inl (beq_eq_false_iff_ne.mpr fun heq => ?_))
  have hcode : b.toNat = 0xFFFD := by
    rw [← hn]
    exact congrArg Char.toNat heq
  omega

/-- A byte beyond ASCII encodes nothing when it stands alone. -/
theorem headRune_singleton {b : UInt8} (hb : ¬ b < 0x80) :
    headRune b [] = ⟨replacementChar, 1⟩ := by
  unfold headRune
  dsimp only
  rw [if_neg hb]
  split
  · rfl
  · split
    · rfl
    · split <;> rfl

/-- What is read as one character is read as this character when it stands alone, be it well formed
or not. -/
theorem chars_headRune (b : UInt8) (r : Text) :
    chars ((b :: r).take (headRune b r).width) = [(headRune b r).char] := by
  unfold chars
  cases h : (headRune b r).isInvalid with
  | false => rw [runes_alone h (Grammar.headRune_width b r).1, List.map_singleton]
  | true =>
      have hrune : (headRune b r).char = replacementChar ∧ (headRune b r).width = 1 := by
        simpa [Rune.isInvalid] using h
      have hb : ¬ b < 0x80 := by
        intro hb
        rw [headRune_ascii_valid hb] at h
        exact absurd h (by simp)
      rw [hrune.1, hrune.2, List.take_succ_cons, List.take_zero, runes_cons, headRune_singleton hb]
      rfl

/-- U+FFFD is not invalid where its own encoding stands. -/
theorem headRune_replacement {b : UInt8} {r : Text} (h : ofChar replacementChar <+: b :: r) :
    (headRune b r).isInvalid = false := by
  obtain ⟨z, hz⟩ := h
  have hbytes : ofChar replacementChar = [0xEF, 0xBF, 0xBD] := by decide
  rw [hbytes] at hz
  obtain ⟨rfl, rfl⟩ := List.cons.inj hz
  rfl

end Text

/-! ## Text laid out from an offset -/

namespace Grammar

variable {t : Text} {pos : Nat}

/-- **Characters are exact where their encoding stands.** -/
theorem layOut_exact_iff {cs : List Char} :
    (∀ c ∈ layOut pos cs, c.IsExact t) ↔ Text.ofChars cs <+: t.drop pos := by
  induction cs generalizing pos with
  | nil => simp [layOut, Text.ofChars]
  | cons c cs ih =>
      have hhead : Character.IsExact t ⟨c.toNat, ⟨pos, pos + Text.encodedWidth c⟩⟩
          ↔ Text.ofChar c <+: t.drop pos := by
        rw [← Text.bytes?_eq_some_iff (Text.ofChar_ne_nil c)]
        unfold Character.IsExact Character.text
        rw [Text.charOfCode_toNat]
        exact Iff.rfl
      have hcons : Text.ofChars (c :: cs) = Text.ofChar c ++ Text.ofChars cs := List.flatMap_cons
      rw [layOut, List.forall_mem_cons, hhead, hcons, Text.append_prefix_iff, List.drop_drop]
      refine and_congr_right fun _ => ?_
      rw [← ih, Text.encodedWidth, Int.natCast_add]

/-- Characters start within the text that is laid out. -/
theorem start_mem_layOut {c : Character} {cs : List Char} (h : c ∈ layOut pos cs) :
    ∃ i < (Text.ofChars cs).length, c.span.start = (pos + i : Nat) := by
  induction cs generalizing pos with
  | nil => exact absurd h List.not_mem_nil
  | cons x cs ih =>
      rw [length_ofChars_cons]
      rcases List.mem_cons.mp h with rfl | h
      · have hpos : 0 < Text.encodedWidth x := List.length_pos_iff.mpr (Text.ofChar_ne_nil x)
        exact ⟨0, by omega, rfl⟩
      · rw [← Int.natCast_add] at h
        obtain ⟨i, hi, hstart⟩ := ih h
        exact ⟨Text.encodedWidth x + i, by omega, by rw [hstart, Nat.add_assoc]⟩

end Grammar

/-! ## Characters of tokens -/

/-- A character that is laid out from the bytes at which it was read, which are no command. -/
def Character.Read (t : Text) (c : Character) : Prop :=
  ∃ (pos : Nat) (b : UInt8) (r : Text), t.drop pos = b :: r ∧ b ≠ byte '\\'
    ∧ c = ⟨(Text.headRune b r).char.toNat,
      ⟨pos, pos + Text.encodedWidth (Text.headRune b r).char⟩⟩

variable {t : Text}

/-- **A character is exact unless a byte that encodes nothing was read for it.** -/
theorem Character.Read.exact_iff {c : Character} (h : c.Read t) :
    c.IsExact t ↔ t.encodesAt c.span.start.toNat = true := by
  obtain ⟨pos, b, r, hdrop, -, rfl⟩ := h
  have hencodes : t.encodesAt pos = !(Text.headRune b r).isInvalid := by
    unfold Text.encodesAt
    rw [hdrop]
  have hexact : (∀ c ∈ Grammar.layOut pos [(Text.headRune b r).char], c.IsExact t)
      ↔ Text.ofChar (Text.headRune b r).char <+: b :: r := by
    rw [Grammar.layOut_exact_iff, hdrop, Text.ofChars, List.flatMap_singleton]
  rw [Int.toNat_natCast, hencodes]
  refine (List.forall_mem_singleton.symm.trans hexact).trans ?_
  cases hrune : (Text.headRune b r).isInvalid with
  | false =>
      rw [Text.ofChar_headRune hrune]
      exact ⟨fun _ => rfl, fun _ => List.take_prefix _ _⟩
  | true =>
      -- the encoding of U+FFFD would have been read as such
      have hchar : (Text.headRune b r).char = Text.replacementChar := by
        have hboth := hrune
        unfold Text.Rune.isInvalid at hboth
        exact eq_of_beq (Bool.and_eq_true_iff.mp hboth).1
      rw [hchar]
      refine ⟨fun h => ?_, fun h => absurd h (by simp)⟩
      rw [Text.headRune_replacement h] at hrune
      exact absurd hrune (by simp)

namespace Grammar

/-- A token is the lexeme of the text at its start. -/
def Token.Stands (t : Text) (k : Token) : Prop :=
  ∃ b r, t.drop k.start = b :: r ∧ headLexeme b r = .token k.kind k.text (k.stop - k.start)

/-- The kinds of tokens that go into units. -/
def TokenKind.isLiteral : TokenKind → Bool
  | char | caret | underscore => true
  | _ => false

/-- A token that goes into a unit is one character. -/
theorem Token.Stands.read {k : Token} (h : k.Stands t) (hk : k.kind.isLiteral = true) :
    ∃ c : Character, layOut k.start k.text.chars = [c] ∧ c.Read t ∧ c.span.start = k.start := by
  obtain ⟨kind, text, start, stop⟩ := k
  obtain ⟨b, r, hdrop, hlex⟩ := h
  dsimp only at hdrop hlex hk ⊢
  generalize stop - start = width at hlex
  rcases headLexeme_cases hlex with ⟨-, hs⟩ | ⟨hslash, -, -, rfl, rfl⟩
  · -- no command has such a kind
    cases hs <;> exact absurd hk (by simp [TokenKind.isLiteral])
  · rw [Text.chars_headRune]
    exact ⟨_, rfl, ⟨start, b, r, hdrop, hslash, rfl⟩, rfl⟩

/-- The token of a command starts with a backslash. -/
theorem Token.Stands.slash {k : Token} (h : k.Stands t) (hk : k.kind = .command) :
    t[k.start]? = some (byte '\\') := by
  obtain ⟨b, r, hdrop, hlex⟩ := h
  have hb : b = byte '\\' := by
    rcases headLexeme_cases hlex with ⟨hb, -⟩ | ⟨-, -, hkind, -⟩
    · exact hb
    · exact absurd (hkind.symm.trans hk) (byteKind_ne_command b)
  have hhead := congrArg List.head? hdrop
  rw [List.head?_drop, hb] at hhead
  exact hhead

/-! ## Runs of letters and digits -/

section Runs

variable {pos : Nat} {u : Text} {run ys : List Token}

/-- The byte of a letter, a digit or a point. -/
theorem Token.isOperand_byte {k : Token} (h : k.isOperand = true) :
    ∃ b, k.text = [b] ∧ b < 0x80 ∧ b ≠ byte '\\' ∧ Text.isBlank b = false := by
  have hascii := (Token.isOperand_ascii h).2
  unfold Token.isOperand at h
  rw [Bool.and_eq_true] at h
  obtain ⟨-, h⟩ := h
  split at h
  · rename_i b hb
    refine ⟨b, hb, hascii b (by rw [hb]; exact List.mem_cons_self), ?_, ?_⟩
    · rintro rfl
      exact absurd h (by decide)
    · refine Bool.eq_false_iff.mpr fun hblank => ?_
      rcases blank_cases hblank with rfl | rfl | rfl | rfl <;> exact absurd h (by decide)
  · exact absurd h (by simp)

/-- A token of a run is the one byte it starts with. -/
theorem headLexeme_operand {b : UInt8} {r text : Text} {kind : TokenKind} {start stop width : Nat}
    (h : headLexeme b r = .token kind text width)
    (hk : Token.isOperand ⟨kind, text, start, stop⟩ = true) : text = [b] ∧ width = 1 := by
  have hchar : kind = .char := Token.isOperand_char hk
  have hascii : ∀ x ∈ text, x < 0x80 := (Token.isOperand_ascii hk).2
  rcases headLexeme_cases h with ⟨-, hs⟩ | ⟨-, -, -, htext, hwidth⟩
  · cases hs <;> exact absurd hchar (by simp)
  · have hmem : b ∈ text := by
      obtain ⟨w, hw⟩ : ∃ w, width = w + 1 := ⟨width - 1, by have := headLexeme_width h; omega⟩
      rw [htext, hw, List.take_succ_cons]
      exact List.mem_cons_self
    rw [headRune_ascii (hascii b hmem)] at hwidth
    subst hwidth
    exact ⟨htext, rfl⟩

theorem mem_take_cons {x b : UInt8} {r : Text} {n : Nat} (h : x ∈ (b :: r).take n) :
    x = b ∨ x ∈ r.take n := by
  cases n with
  | zero => exact absurd h (by simp)
  | succ n =>
      rw [List.take_succ_cons] at h
      exact (List.mem_cons.mp h).imp_right fun hx => List.take_subset_take_left r (Nat.le_succ n) hx

/-- Over as many bytes as a run has tokens there are only their bytes and blanks. -/
theorem Cut.run_bytes (h : Cut pos u (run ++ ys)) (hrun : ∀ k ∈ run, k.isOperand = true) :
    run.length ≤ u.length ∧ ∀ b ∈ u.take run.length, b < 0x80 ∧ b ≠ byte '\\' := by
  generalize hts : run ++ ys = ts at h
  induction h generalizing run with
  | finish =>
      obtain ⟨rfl, -⟩ := List.append_eq_nil_iff.mp hts
      exact ⟨Nat.le_refl _, by simp⟩
  | @blank pos b r ts hb _ ih =>
      obtain ⟨hle, hbytes⟩ := ih hrun hts
      refine ⟨Nat.le_succ_of_le hle, fun x hx => ?_⟩
      rcases mem_take_cons hx with rfl | hx
      · have hblank := headLexeme_blank hb
        refine ⟨blank_ascii hblank, ?_⟩
        rintro rfl
        exact absurd hblank (by decide)
      · exact hbytes x hx
  | @token pos b r kind text width ts hb _ ih =>
      cases run with
      | nil => exact ⟨Nat.zero_le _, by simp⟩
      | cons k run =>
          obtain ⟨rfl, hmore⟩ := List.cons.inj hts
          obtain ⟨hk, hrest⟩ := List.forall_mem_cons.mp hrun
          obtain ⟨rfl, rfl⟩ := headLexeme_operand hb hk
          obtain ⟨hle, hbytes⟩ := ih hrest hmore
          obtain ⟨x, hx, hascii, hslash, -⟩ := Token.isOperand_byte hk
          obtain rfl : b = x := (List.cons.inj hx).1
          exact ⟨Nat.succ_le_succ hle, List.forall_mem_cons.mpr ⟨⟨hascii, hslash⟩, hbytes⟩⟩

/-- A run without blanks is found as it is written. -/
theorem Cut.run_prefix (h : Cut pos u (run ++ ys)) (hrun : ∀ k ∈ run, k.isOperand = true)
    (hblank : ∀ b ∈ u.take run.length, Text.isBlank b = false) : texts run <+: u := by
  generalize hts : run ++ ys = ts at h
  induction h generalizing run with
  | finish =>
      obtain ⟨rfl, -⟩ := List.append_eq_nil_iff.mp hts
      exact List.nil_prefix
  | @blank pos b r ts hb _ _ =>
      cases run with
      | nil => exact List.nil_prefix
      | cons k run =>
          have hno := hblank b List.mem_cons_self
          rw [headLexeme_blank hb] at hno
          exact absurd hno (by simp)
  | @token pos b r kind text width ts hb _ ih =>
      cases run with
      | nil => exact List.nil_prefix
      | cons k run =>
          obtain ⟨rfl, hmore⟩ := List.cons.inj hts
          obtain ⟨hk, hrest⟩ := List.forall_mem_cons.mp hrun
          obtain ⟨rfl, rfl⟩ := headLexeme_operand hb hk
          exact List.cons_prefix_cons.mpr
            ⟨rfl, ih hrest (fun x hx => hblank x (List.mem_cons_of_mem b hx)) hmore⟩

theorem run_length (hrun : ∀ k ∈ run, k.isOperand = true) :
    (texts run).length = run.length := by
  induction run with
  | nil => rfl
  | cons k run ih =>
      obtain ⟨hk, hrun⟩ := List.forall_mem_cons.mp hrun
      obtain ⟨b, hb, -⟩ := Token.isOperand_byte hk
      rw [texts_cons, List.length_append, ih hrun, hb, List.length_singleton, List.length_cons,
        Nat.add_comm]

/-- The characters of a run are encoded by its bytes. -/
theorem ofChars_run (hrun : ∀ k ∈ run, k.isOperand = true) :
    Text.ofChars (texts run).chars = texts run := by
  refine Text.toValid_ascii fun b hb => ?_
  obtain ⟨k, hk, hb⟩ := List.mem_flatMap.mp hb
  exact (Token.isOperand_ascii (hrun k hk)).2 b hb

/-- **A run is found as it is written if and only if there are no blanks in it.** -/
theorem Cut.run_prefix_iff (h : Cut pos u (run ++ ys)) (hrun : ∀ k ∈ run, k.isOperand = true) :
    texts run <+: u ↔ ∀ b ∈ u.take run.length, Text.isBlank b = false := by
  refine ⟨fun hprefix => ?_, h.run_prefix hrun⟩
  have htake := List.prefix_iff_eq_take.mp hprefix
  rw [run_length hrun] at htake
  rw [← htake]
  intro b hb
  obtain ⟨k, hk, hmem⟩ := List.mem_flatMap.mp hb
  obtain ⟨x, hx, -, -, hblank⟩ := Token.isOperand_byte (hrun k hk)
  rw [hx, List.mem_singleton] at hmem
  rw [hmem]
  exact hblank

end Runs

end Grammar

end MathMarkup
