import MathMarkup.Proofs.Framing
import MathMarkup.Proofs.Spans

/-!
# Tokens as wide as their text

The characters of a leaf are laid out from the start of a token, each as wide as its encoding, so
they end with the token if the token is as wide as its text (`Token.Fits`). In well formed text
every token is, up to the first command whose name is no ASCII: it takes one byte of a character,
and the bytes left over are read as characters that are wider than they are. No such command is one
of the grammar, so what is said about tokens is said up to there (`Fitting`).
-/

namespace MathMarkup

namespace Text

/-! ## Well formed text -/

theorem isValidUtf8_tail {b : UInt8} {r : Text} (hb : b < 0x80) (h : isValidUtf8 (b :: r) = true) :
    isValidUtf8 r = true := by
  have hrest := (isValidUtf8_cons h).2
  rw [Grammar.headRune_ascii hb] at hrest
  exact hrest

/-- Well formed text stays so behind ASCII. -/
theorem isValidUtf8_drop {t : Text} {n : Nat} (ht : ∀ b ∈ t.take n, b < 0x80)
    (h : isValidUtf8 t = true) : isValidUtf8 (t.drop n) = true := by
  induction n generalizing t with
  | zero => exact h
  | succ n ih =>
      cases t with
      | nil => exact h
      | cons b r =>
          refine ih (fun x hx => ht x ?_) (isValidUtf8_tail (ht b ?_) h)
          · rw [List.take_succ_cons]
            exact List.mem_cons_of_mem _ hx
          · rw [List.take_succ_cons]
            exact List.mem_cons_self

/-- Whether all bytes of a text are ASCII. -/
def isAscii (t : Text) : Bool := t.all (· < 0x80)

theorem isAscii_iff {t : Text} : isAscii t = true ↔ ∀ b ∈ t, b < 0x80 := by
  simp [isAscii]

/-- ASCII is laid out byte by byte. -/
theorem toValid_ascii {t : Text} (h : ∀ b ∈ t, b < 0x80) : toValid t = t := by
  induction t with
  | nil => rfl
  | cons b r ih =>
      have hb := h b List.mem_cons_self
      have hrest := ih fun x hx => h x (List.mem_cons_of_mem _ hx)
      have hn : (Char.ofNat b.toNat).toNat = b.toNat :=
        toNat_ofNat_of_valid (Or.inl (Nat.lt_trans (UInt8.lt_iff_toNat_lt.mp hb) (by decide)))
      have hchar : ofChar (Char.ofNat b.toNat) = [b] := by
        rw [ofChar_ascii (by rw [hn]; exact UInt8.lt_iff_toNat_lt.mp hb), hn, UInt8.ofNat_toNat]
      unfold toValid chars ofChars at hrest ⊢
      rw [runes_cons, Grammar.headRune_ascii hb, List.map_cons, List.flatMap_cons, hchar]
      exact congrArg (b :: ·) hrest

end Text

namespace Grammar

open MathMarkup.Text (byte)

/-! ## Tokens -/

/-- A token that is no command, or one with a name in ASCII. -/
def Token.Tame (t : Token) : Prop := t.kind = .command → ∀ b ∈ t.text, b < 0x80

/-- A token is as wide as the text it gives to a leaf. A command also has a backslash. -/
structure Token.Fits (t : Token) : Prop where
  literal : t.kind = .char ∨ t.kind = .caret ∨ t.kind = .underscore →
    (t.start : Int) + extent t.text ≤ t.stop
  command : t.kind = .command → t.start + t.text.length + 1 ≤ t.stop

/-- The tokens of a list fit, up to the first that is not tame. -/
def Fitting : List Token → Prop
  | [] => True
  | t :: ts => t.Tame → t.Fits ∧ Fitting ts

variable {t : Token} {ts xs ys : List Token}

theorem tame_of_kind {kind : TokenKind} (hk : t.kind = kind) (hne : kind ≠ .command) : t.Tame :=
  fun hc => absurd (hk.symm.trans hc) hne

theorem tame_of_mem {names : List Text} (ht : t.text ∈ names)
    (hnames : names.all Text.isAscii = true) : t.Tame := fun _ =>
  Text.isAscii_iff.mp (List.all_eq_true.mp hnames t.text ht)

theorem tame_of_isCommand {names : List Text} (ht : t.isCommand names = true)
    (hnames : names.all Text.isAscii = true) : t.Tame :=
  tame_of_mem (isCommand_iff.mp ht).2 hnames

theorem tame_of_isChar {x : Text} (ht : t.isChar x = true) : t.Tame :=
  tame_of_kind (Token.isChar_text ht).1 (by simp)

theorem Fitting.append (h : Fitting (xs ++ ys)) (hx : ∀ t ∈ xs, t.Tame) :
    (∀ t ∈ xs, t.Fits) ∧ Fitting ys := by
  induction xs with
  | nil => exact ⟨fun t ht => absurd ht List.not_mem_nil, h⟩
  | cons t ts ih =>
      obtain ⟨hfits, hrest⟩ := h (hx t List.mem_cons_self)
      obtain ⟨hall, hy⟩ := ih hrest fun u hu => hx u (List.mem_cons_of_mem _ hu)
      refine ⟨fun u hu => ?_, hy⟩
      rcases List.mem_cons.mp hu with rfl | hu
      · exact hfits
      · exact hall u hu

theorem CommandShape.fits {r text : Text} {kind : TokenKind} {width pos : Nat}
    (h : CommandShape r kind text width) : Token.Fits ⟨kind, text, pos, pos + width⟩ := by
  cases h with
  | rowBreak r => exact ⟨fun hk => absurd hk (by simp), fun hk => absurd hk (by simp)⟩
  | name c r hc =>
      refine ⟨fun hk => absurd hk (by simp), fun _ => ?_⟩
      simp only [List.length_cons]
      omega
  | sign c r hc hl =>
      refine ⟨fun hk => absurd hk (by simp), fun _ => ?_⟩
      simp only [List.length_singleton]
      omega

/-- The bytes of a tame command are ASCII. -/
theorem CommandShape.ascii {r text : Text} {kind : TokenKind} {width pos stop : Nat}
    (h : CommandShape r kind text width) (htame : Token.Tame ⟨kind, text, pos, stop⟩) :
    ∀ b ∈ (byte '\\' :: r).take width, b < 0x80 := by
  have hslash : byte '\\' < 0x80 := by decide
  cases h with
  | rowBreak r =>
      rw [List.take_succ_cons, List.take_succ_cons, List.take_zero]
      exact List.forall_mem_cons.mpr ⟨hslash, List.forall_mem_cons.mpr ⟨hslash, by simp⟩⟩
  | name c r hc =>
      rw [List.take_succ_cons, List.take_succ_cons,
        ← List.prefix_iff_eq_take.mp (List.takeWhile_prefix Text.isLetter)]
      refine List.forall_mem_cons.mpr ⟨hslash, List.forall_mem_cons.mpr ⟨letter_ascii hc, ?_⟩⟩
      exact fun b hb => letter_ascii (List.all_eq_true.mp List.all_takeWhile b hb)
  | sign c r hc hl =>
      rw [List.take_succ_cons, List.take_succ_cons, List.take_zero]
      have hc := htame rfl c List.mem_cons_self
      exact List.forall_mem_cons.mpr ⟨hslash, List.forall_mem_cons.mpr ⟨hc, by simp⟩⟩

/-- The token at the head of well formed text fits, and if it is tame the text goes on well
formed. -/
theorem headLexeme_fits {b : UInt8} {r text : Text} {kind : TokenKind} {width : Nat} (pos : Nat)
    (h : headLexeme b r = .token kind text width) (hvalid : Text.isValidUtf8 (b :: r) = true)
    (htame : Token.Tame ⟨kind, text, pos, pos + width⟩) :
    Token.Fits ⟨kind, text, pos, pos + width⟩
      ∧ Text.isValidUtf8 ((b :: r).drop width) = true := by
  rcases headLexeme_cases h with ⟨rfl, hs⟩ | ⟨-, -, rfl, rfl, rfl⟩
  · exact ⟨hs.fits, Text.isValidUtf8_drop (hs.ascii htame) hvalid⟩
  · obtain ⟨hrune, hrest⟩ := Text.isValidUtf8_cons hvalid
    obtain ⟨hpos, hle, -⟩ := headRune_width b r
    refine ⟨⟨fun _ => ?_, fun hk => absurd hk (byteKind_ne_command b)⟩, ?_⟩
    · have hlength : ((b :: r).take (Text.headRune b r).width).length
          = (Text.headRune b r).width := by
        rw [List.length_take, List.length_cons]
        omega
      unfold extent
      rw [Text.toValid_headRune hrune hpos, hlength]
      exact Int.le_of_eq (Int.natCast_add _ _).symm
    · obtain ⟨w, hw⟩ : ∃ w, (Text.headRune b r).width = w + 1 :=
        ⟨(Text.headRune b r).width - 1, by omega⟩
      rw [hw] at hrest ⊢
      exact hrest

/-- **The tokens of well formed text fit.** -/
theorem Cut.fitting {pos : Nat} {t : Text} {ts : List Token} (h : Cut pos t ts)
    (hvalid : Text.isValidUtf8 t = true) : Fitting ts := by
  induction h with
  | finish => trivial
  | blank hb _ ih => exact ih (Text.isValidUtf8_tail (blank_ascii (headLexeme_blank hb)) hvalid)
  | @token pos b r kind text width ts hb _ ih =>
      intro htame
      obtain ⟨hfits, hrest⟩ := headLexeme_fits pos hb hvalid htame
      exact ⟨hfits, ih hrest⟩

/-! ## Cursors -/

namespace Cursor

/-- A cursor whose tokens follow one another and fit. -/
structure Placed (size : Nat) (c : Cursor) : Prop where
  sound : c.Sound true size
  fitting : Fitting c.rest

/-- Where the next token starts, or the text ends. -/
def front (c : Cursor) (size : Nat) : Nat := (c.token size 0).start

variable {size : Nat} {c c' : Cursor} {commas : Bool}

theorem Sound.lastStop_le_front (hc : c.Sound commas size) : c.lastStop ≤ c.front size :=
  (hc.token_place 0).1

theorem Sound.front_le (hc : c.Sound commas size) : c.front size ≤ size := by
  have hplace := hc.token_place 0
  unfold front
  omega

/-- The next token starts behind the one that is read. -/
theorem Sound.stop_le_front (hc : c.Sound commas size) :
    (c.token size 0).stop ≤ c.tail.front size := by
  obtain ⟨rest, stop⟩ := c
  cases rest with
  | nil => exact Nat.le_refl _
  | cons t ts => exact (hc.tail.token_place 0).1

/-- The cursor moves forward from token to token. -/
theorem Reads.front_le (h : Reads c c') (hc : c.Sound commas size) :
    c.front size ≤ c'.front size := by
  induction h with
  | refl => exact Nat.le_refl _
  | @next c t ts stop _ ih =>
      have hnext := ih hc.tail
      have hplace := hc.token_place 0
      have hstop := hc.stop_le_front
      exact Nat.le_trans (Nat.le_trans hplace.2.1 hstop) hnext

/-- A token that is not the end of the text is what was read last. -/
theorem tail_lastStop {kind : TokenKind} (hk : (c.token size 0).kind = kind)
    (hne : kind ≠ .finish) : c.tail.lastStop = (c.token size 0).stop := by
  obtain ⟨ts, hts⟩ := rest_of_kind hk hne
  obtain ⟨rest, stop⟩ := c
  cases rest with
  | nil => exact absurd hts (by simp)
  | cons t ts => rfl

/-- A token that is read over ends before the cursor behind it. -/
theorem Sound.stop_le_skip (hc : c.Sound commas size) {n k : Nat} {t : Token}
    (ht : c.rest[n]? = some t) (hk : n < k) : t.stop ≤ (c.skip k).lastStop := by
  induction n generalizing c k with
  | zero =>
      obtain ⟨k, rfl⟩ : ∃ m, k = m + 1 := ⟨k - 1, by omega⟩
      obtain ⟨rest, stop⟩ := c
      cases rest with
      | nil => exact absurd ht (by simp)
      | cons u ts =>
          obtain rfl := Option.some.inj ht
          exact (reads_skip k _).lastStop_le hc.tail
  | succ n ih =>
      obtain ⟨k, rfl⟩ : ∃ m, k = m + 1 := ⟨k - 1, by omega⟩
      obtain ⟨rest, stop⟩ := c
      cases rest with
      | nil => exact absurd ht (by simp)
      | cons u ts => exact ih hc.tail ht (by omega)

theorem Placed.token_fits (hc : c.Placed size) (ht : (c.token size 0).Tame) :
    (c.token size 0).Fits := by
  obtain ⟨rest, stop⟩ := c
  cases rest with
  | nil => exact ⟨fun hk => absurd hk (by simp [token, Token.finish]),
      fun hk => absurd hk (by simp [token, Token.finish])⟩
  | cons t ts => exact (hc.fitting ht).1

theorem Placed.tail (hc : c.Placed size) (ht : (c.token size 0).Tame) : c.tail.Placed size := by
  refine ⟨hc.sound.tail, ?_⟩
  obtain ⟨rest, stop⟩ := c
  cases rest with
  | nil => exact hc.fitting
  | cons t ts => exact (hc.fitting ht).2

/-- Tame tokens can be read over, and all of them fit. -/
theorem Placed.skip (hc : c.Placed size) {xs ys : List Token} (hrest : c.rest = xs ++ ys)
    (hx : ∀ t ∈ xs, t.Tame) :
    (c.skip xs.length).Placed size ∧ (c.skip xs.length).rest = ys ∧ ∀ t ∈ xs, t.Fits := by
  have hdrop : (c.skip xs.length).rest = ys := by
    rw [skip_drop, hrest, List.drop_left]
  have hfitting := hc.fitting
  rw [hrest] at hfitting
  obtain ⟨hfits, hy⟩ := hfitting.append hx
  exact ⟨⟨(reads_skip _ c).sound hc.sound, by rw [hdrop]; exact hy⟩, hdrop, hfits⟩

end Cursor

end Grammar

end MathMarkup
