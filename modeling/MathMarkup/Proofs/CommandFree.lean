import MathMarkup.Proofs.Runes
import MathMarkup.Proofs.Tokens

/-!
# Tokens of texts without commands

A text without backslashes, pipes and ampersands is cut into brackets and literal characters
(`Token.Simple`), and their texts one behind the other are the text without its blanks
(`Cut.simple`). Brackets are nested in the text as they are in its tokens: `Nest` builds the nested
lists of tokens up from their groups, in the way they are read.
-/

namespace MathMarkup.Grammar

open MathMarkup.Bracket (openAfter step Nested)
open MathMarkup.Text (byte)

theorem blank_step {b : UInt8} (h : Text.isBlank b = true) (stack : List Bracket) :
    step stack b = some stack := by
  rcases blank_cases h with rfl | rfl | rfl | rfl <;>
    exact Bracket.step_other (by decide) (by decide) _

/-! ## Simple tokens -/

/-- The texts of tokens, one behind the other. -/
def texts (ts : List Token) : Text := ts.flatMap (·.text)

@[simp] theorem texts_nil : texts [] = [] := rfl

@[simp] theorem texts_cons (t : Token) (ts : List Token) :
    texts (t :: ts) = t.text ++ texts ts := rfl

@[simp] theorem texts_append (ts us : List Token) : texts (ts ++ us) = texts ts ++ texts us :=
  List.flatMap_append

/-- An opening bracket. -/
def Token.Opens (k : Bracket) (t : Token) : Prop := t.kind = .opening k ∧ t.text = [k.opening]

/-- A closing bracket. -/
def Token.Closes (k : Bracket) (t : Token) : Prop := t.kind = .closing k ∧ t.text = [k.closing]

/-- A literal character that is written as it was read. -/
structure Token.Literal (t : Token) : Prop where
  kind : t.kind = .char ∨ t.kind = .caret ∨ t.kind = .underscore
  text : LiteralText true t.text
  valid : t.text.toValid = t.text

/-- A token of a text without commands. One that begins with an ASCII byte is this byte. -/
structure Token.Simple (t : Token) : Prop where
  cases : t.Literal ∨ (∃ k, t.Opens k) ∨ ∃ k, t.Closes k
  bytes : (∃ b, t.text = [b] ∧ t.kind = byteKind b)
    ∨ (t.kind = .char ∧ t.text ≠ [] ∧ ∀ b ∈ t.text, 0x80 ≤ b)

/-- A text without blanks. -/
def unblanked (t : Text) : Text := t.filter fun b => !Text.isBlank b

/-- A text without backslashes, pipes and ampersands. -/
def CommandFree (t : Text) : Prop :=
  ∀ b ∈ t, b ≠ byte '\\' ∧ b ≠ byte '|' ∧ b ≠ byte '&'

instance (t : Text) : Decidable (CommandFree t) := List.decidableBAll _ t

theorem byteKind_cases {b : UInt8} (hslash : b ≠ byte '\\') (hpipe : b ≠ byte '|')
    (hamp : b ≠ byte '&') (hblank : Text.isBlank b = false) :
    (Literal true b ∧ (byteKind b = .char ∨ byteKind b = .caret ∨ byteKind b = .underscore))
      ∨ (∃ k : Bracket, b = k.opening ∧ byteKind b = .opening k)
      ∨ ∃ k : Bracket, b = k.closing ∧ byteKind b = .closing k := by
  cases ho : Bracket.ofOpening? b with
  | some k =>
      obtain rfl := Bracket.ofOpening?_eq_some_iff.mp ho
      exact Or.inr (Or.inl ⟨k, rfl, by unfold byteKind; rw [ho]⟩)
  | none =>
      cases hc : Bracket.ofClosing? b with
      | some k =>
          obtain rfl := Bracket.ofClosing?_eq_some_iff.mp hc
          exact Or.inr (Or.inr ⟨k, rfl, by unfold byteKind; rw [ho, hc]⟩)
      | none =>
          refine Or.inl ⟨⟨ho, hc, hslash, hpipe, hamp, hblank, fun _ => rfl⟩, ?_⟩
          unfold byteKind
          rw [ho, hc]
          dsimp only
          rw [if_neg (by simpa using hpipe)]
          split
          · exact Or.inr (Or.inl rfl)
          · split
            · exact Or.inr (Or.inr rfl)
            · rw [if_neg (by simpa using hamp)]
              exact Or.inl rfl

/-- The bytes that are tokens of a kind of their own. -/
def signs : List UInt8 :=
  [Bracket.round, .square, .curly].flatMap (fun k => [k.opening, k.closing])
    ++ ['|', '^', '_', '&'].map byte

theorem byteKind_char {b : UInt8} (h : b ∉ signs) : byteKind b = .char := by
  have hne : ∀ x ∈ signs, ¬ (b == x) = true := by
    intro x hx heq
    rw [← eq_of_beq heq] at hx
    exact h hx
  have ho : Bracket.ofOpening? b = none := by
    cases hb : Bracket.ofOpening? b with
    | none => rfl
    | some k =>
        rw [Bracket.ofOpening?_eq_some_iff.mp hb] at h
        exact absurd (by cases k <;> decide) h
  have hc : Bracket.ofClosing? b = none := by
    cases hb : Bracket.ofClosing? b with
    | none => rfl
    | some k =>
        rw [Bracket.ofClosing?_eq_some_iff.mp hb] at h
        exact absurd (by cases k <;> decide) h
  unfold byteKind
  rw [ho, hc]
  dsimp only
  rw [if_neg (hne _ (by decide)), if_neg (hne _ (by decide)), if_neg (hne _ (by decide)),
    if_neg (hne _ (by decide))]

theorem byteKind_high {b : UInt8} (h : 0x80 ≤ b) : byteKind b = .char := by
  have ascii : signs.all (· < 0x80) = true := by decide
  refine byteKind_char fun hb => ?_
  have := List.all_eq_true.mp ascii b hb
  exact absurd h (UInt8.not_le.mpr (of_decide_eq_true this))

theorem byteKind_letter {b : UInt8} (h : Text.isLetter b = true) : byteKind b = .char := by
  have none : signs.all (fun x => !Text.isLetter x) = true := by decide
  refine byteKind_char fun hb => ?_
  have := List.all_eq_true.mp none b hb
  rw [h] at this
  exact absurd this (by simp)

theorem letter_ascii {b : UInt8} (h : Text.isLetter b = true) : b < 0x80 := by
  unfold Text.isLetter at h
  simp only [Bool.or_eq_true, Bool.and_eq_true, decide_eq_true_eq] at h
  rcases h with ⟨_, h⟩ | ⟨_, h⟩
  · exact UInt8.lt_of_le_of_lt h (by decide)
  · exact UInt8.lt_of_le_of_lt h (by decide)

theorem headRune_ascii {b : UInt8} (h : b < 0x80) (r : Text) :
    Text.headRune b r = ⟨Char.ofNat b.toNat, 1⟩ := by
  unfold Text.headRune
  rw [if_pos h]

/-- The token at the head of a text without commands. -/
theorem headLexeme_simple {b : UInt8} {r text : Text} {kind : TokenKind} {width : Nat}
    (pos : Nat) (h : headLexeme b r = .token kind text width) (hfree : CommandFree (b :: r))
    (hvalid : (Text.headRune b r).isInvalid = false) :
    Token.Simple ⟨kind, text, pos, pos + width⟩ ∧ text = (b :: r).take width
      ∧ width = (Text.headRune b r).width := by
  obtain ⟨hslash, hpipe, hamp⟩ := hfree b (by simp)
  rcases headLexeme_cases h with ⟨rfl, _⟩ | ⟨_, hblank, rfl, rfl, rfl⟩
  · exact absurd rfl hslash
  refine ⟨?_, rfl, rfl⟩
  obtain ⟨hwidth, -, hbytes⟩ := headRune_width b r
  have hwritten := Text.toValid_headRune hvalid hwidth
  have hcases := byteKind_cases hslash hpipe hamp hblank
  by_cases hascii : b < 0x80
  · have htake : (b :: r).take (Text.headRune b r).width = [b] := by
      rw [headRune_ascii hascii]
      rfl
    rw [htake] at hwritten ⊢
    refine ⟨?_, Or.inl ⟨b, rfl, rfl⟩⟩
    rcases hcases with ⟨hb, hkind⟩ | ⟨k, rfl, hkind⟩ | ⟨k, rfl, hkind⟩
    · refine Or.inl ⟨hkind, fun x hx => ?_, hwritten⟩
      rw [List.mem_singleton.mp hx]
      exact hb
    · exact Or.inr (Or.inl ⟨k, hkind, rfl⟩)
    · exact Or.inr (Or.inr ⟨k, hkind, rfl⟩)
  · -- a byte beyond ASCII is no bracket
    have hhigh : 0x80 ≤ b := UInt8.not_lt.mp hascii
    have hall : ∀ x ∈ (b :: r).take (Text.headRune b r).width, 0x80 ≤ x := by
      intro x hx
      rcases hbytes x hx with rfl | hx
      · exact hhigh
      · exact hx
    have hkind := byteKind_high hhigh
    refine ⟨Or.inl ⟨Or.inl hkind, fun x hx => literal_of_high (hall x hx), hwritten⟩,
      Or.inr ⟨hkind, ?_, hall⟩⟩
    intro hnil
    have := congrArg List.length hnil
    rw [List.length_take, List.length_cons, List.length_nil] at this
    omega

theorem Token.Simple.not_blank {t : Token} (h : t.Simple) :
    ∀ b ∈ t.text, Text.isBlank b = false := by
  intro b hb
  rcases h.cases with hl | ⟨k, _, htext⟩ | ⟨k, _, htext⟩
  · exact (hl.text b hb).blank
  · rw [htext, List.mem_singleton] at hb
    subst hb
    cases k <;> decide
  · rw [htext, List.mem_singleton] at hb
    subst hb
    cases k <;> decide

/-! A simple token of a kind is a literal character or a bracket. -/

theorem Token.Simple.literal {t : Token} (ht : t.Simple)
    (hk : t.kind = .char ∨ t.kind = .caret ∨ t.kind = .underscore) : t.Literal := by
  rcases ht.cases with hl | ⟨j, ho⟩ | ⟨j, hz⟩
  · exact hl
  · rw [ho.1] at hk
    exact absurd hk (by simp)
  · rw [hz.1] at hk
    exact absurd hk (by simp)

theorem Token.Simple.opens {t : Token} (ht : t.Simple) {k : Bracket} (hk : t.kind = .opening k) :
    t.Opens k := by
  rcases ht.cases with hl | ⟨j, ho⟩ | ⟨j, hz⟩
  · rcases hl.kind with h | h | h <;> rw [h] at hk <;> exact absurd hk (by simp)
  · rw [ho.1] at hk
    cases hk
    exact ho
  · rw [hz.1] at hk
    exact absurd hk (by simp)

theorem Token.Simple.closes {t : Token} (ht : t.Simple) {k : Bracket} (hk : t.kind = .closing k) :
    t.Closes k := by
  rcases ht.cases with hl | ⟨j, ho⟩ | ⟨j, hz⟩
  · rcases hl.kind with h | h | h <;> rw [h] at hk <;> exact absurd hk (by simp)
  · rw [ho.1] at hk
    exact absurd hk (by simp)
  · rw [hz.1] at hk
    cases hk
    exact hz

/-- **A text without commands is cut into simple tokens**, and they spell it but for its blanks. -/
theorem Cut.simple {pos : Nat} {t : Text} {ts : List Token} (h : Cut pos t ts)
    (hfree : CommandFree t) (hvalid : t.isValidUtf8 = true) :
    (∀ k ∈ ts, k.Simple) ∧ texts ts = unblanked t := by
  induction h with
  | finish => exact ⟨fun k hk => absurd hk (by simp), rfl⟩
  | @blank pos b r ts hb _ ih =>
      have hblank := headLexeme_blank hb
      have hrest : Text.isValidUtf8 r = true := by
        have := (Text.isValidUtf8_cons hvalid).2
        rw [headRune_ascii (blank_ascii hblank)] at this
        exact this
      obtain ⟨hsimple, htexts⟩ := ih (fun x hx => hfree x (List.mem_cons_of_mem _ hx)) hrest
      refine ⟨hsimple, ?_⟩
      rw [htexts, unblanked, unblanked, List.filter_cons_of_neg (by simp [hblank])]
  | @token pos b r kind text width ts hb _ ih =>
      obtain ⟨hrune, hbehind⟩ := Text.isValidUtf8_cons hvalid
      obtain ⟨hsimple, htext, hwidth⟩ := headLexeme_simple pos hb hfree hrune
      have hpos := (headLexeme_width hb).1
      have hdrop : (b :: r).drop width = r.drop ((Text.headRune b r).width - 1) := by
        obtain ⟨w, rfl⟩ : ∃ w, width = w + 1 := ⟨width - 1, by omega⟩
        rw [← hwidth, List.drop_succ_cons, Nat.add_sub_cancel]
      rw [← hdrop] at hbehind
      obtain ⟨hrest, htexts⟩ := ih (fun x hx => hfree x (List.mem_of_mem_drop hx)) hbehind
      refine ⟨List.forall_mem_cons.mpr ⟨hsimple, hrest⟩, ?_⟩
      have hkept : unblanked text = text := by
        refine List.filter_eq_self.mpr fun x hx => ?_
        rw [hsimple.not_blank x hx]
        rfl
      calc texts (⟨kind, text, pos, pos + width⟩ :: ts)
          = text ++ unblanked ((b :: r).drop width) := by
            rw [texts_cons, htexts]
        _ = unblanked ((b :: r).take width) ++ unblanked ((b :: r).drop width) := by
            rw [← htext, hkept]
        _ = unblanked (b :: r) := by
            rw [unblanked, unblanked, ← List.filter_append, List.take_append_drop]
            rfl

/-- A text without backslashes has tokens. -/
theorem tokensFrom_ok {t : Text} (ht : ∀ b ∈ t, b ≠ byte '\\') (pos skip : Nat) :
    ∃ ts, tokensFrom pos skip t = .ok ts := by
  induction t generalizing pos skip with
  | nil => exact ⟨[], by cases skip <;> rfl⟩
  | cons b r ih =>
      have hrest := ih fun x hx => ht x (List.mem_cons_of_mem _ hx)
      cases skip with
      | succ skip => exact hrest (pos + 1) skip
      | zero =>
          rw [tokensFrom]
          by_cases hblank : Text.isBlank b = true
          · rw [headLexeme, if_pos hblank]
            exact hrest (pos + 1) 0
          · rw [headLexeme, if_neg hblank, if_neg (by simpa using ht b (by simp))]
            obtain ⟨more, hmore⟩ := hrest (pos + 1) ((Text.headRune b r).width - 1)
            dsimp only
            rw [hmore]
            exact ⟨_, rfl⟩

theorem length_le_texts {ts : List Token} (h : ∀ t ∈ ts, t.Simple) :
    ts.length ≤ (texts ts).length := by
  induction ts with
  | nil => exact Nat.le_refl _
  | cons t ts ih =>
      have htail := ih fun u hu => h u (List.mem_cons_of_mem _ hu)
      have hpos : 0 < t.text.length := by
        refine List.length_pos_iff.mpr ?_
        rcases (h t (by simp)).bytes with ⟨b, htext, _⟩ | ⟨_, hne, _⟩
        · rw [htext]
          simp
        · exact hne
      rw [texts_cons, List.length_append, List.length_cons]
      omega

/-- The tokens of a text without commands. -/
theorem CommandFree.tokens {t : Text} (hfree : CommandFree t) (hvalid : t.isValidUtf8 = true) :
    ∃ ts, Grammar.tokens t = .ok ts ∧ (∀ k ∈ ts, k.Simple) ∧ texts ts = unblanked t
      ∧ ts.length ≤ t.length := by
  obtain ⟨ts, hts⟩ := tokensFrom_ok (fun b hb => (hfree b hb).1) 0 0
  have htokens : Grammar.tokens t = .ok ts := by
    unfold Grammar.tokens
    rw [hts]
  obtain ⟨hsimple, htexts⟩ := (tokens_cut htokens).simple hfree hvalid
  refine ⟨ts, htokens, hsimple, htexts, ?_⟩
  calc ts.length ≤ (texts ts).length := length_le_texts hsimple
    _ = (unblanked t).length := by rw [htexts]
    _ ≤ t.length := List.length_filter_le _ t

/-! ## Nesting -/

/-- Blanks have no part in the nesting of brackets. -/
theorem nested_unblanked (t : Text) : Nested (unblanked t) ↔ Nested t := by
  have hopen : ∀ stack, openAfter stack (unblanked t) = openAfter stack t := by
    induction t with
    | nil => intro stack; rfl
    | cons b r ih =>
        intro stack
        by_cases hb : Text.isBlank b = true
        · rw [unblanked, List.filter_cons_of_neg (by simp [hb]), Bracket.openAfter_cons,
            blank_step hb]
          exact ih stack
        · rw [unblanked, List.filter_cons_of_pos (by simpa using hb), Bracket.openAfter_cons,
            Bracket.openAfter_cons]
          cases step stack b with
          | none => rfl
          | some stack' => exact ih stack'
  unfold Nested
  rw [hopen]

/-- Tokens that are nested properly: literal characters, and groups one in the other. -/
inductive Nest : List Token → Prop where
  | nil : Nest []
  | literal {t : Token} {ts : List Token} : t.Literal → Nest ts → Nest (t :: ts)
  | group {k : Bracket} {o z : Token} {xs ts : List Token} :
      o.Opens k → Nest xs → z.Closes k → Nest ts → Nest (o :: (xs ++ z :: ts))

theorem texts_group {k : Bracket} {o z : Token} (ho : o.Opens k) (hz : z.Closes k)
    (xs ts : List Token) :
    texts (o :: (xs ++ z :: ts)) = k.around (texts xs) ++ texts ts := by
  rw [texts_cons, texts_append, texts_cons, ho.2, hz.2, Bracket.around_append]
  rfl

theorem Nest.append {xs ys : List Token} (hx : Nest xs) (hy : Nest ys) : Nest (xs ++ ys) := by
  induction hx with
  | nil => exact hy
  | literal ht _ ih => exact .literal ht ih
  | group ho hx hz _ _ ih =>
      rw [List.cons_append, List.append_assoc, List.cons_append]
      exact .group ho hx hz ih

theorem Nest.nested {xs : List Token} (h : Nest xs) : Nested (texts xs) := by
  induction h with
  | nil => rfl
  | literal ht _ ih => exact ht.text.nested.append ih
  | @group k o z xs ts ho _ hz _ ihx iht =>
      rw [texts_group ho hz]
      exact (ihx.around k).append iht

theorem openAfter_opening {k : Bracket} {o : Token} (h : o.Opens k) (stack : List Bracket)
    (ts : List Token) : openAfter stack (texts (o :: ts)) = openAfter (k :: stack) (texts ts) := by
  rw [texts_cons, h.2, List.singleton_append, Bracket.openAfter_cons, Bracket.step_opening]
  rfl

/-- A bracket that can be closed is the innermost open one. -/
theorem openAfter_closing {k : Bracket} {z : Token} (h : z.Closes k) {stack stack' : List Bracket}
    {ts : List Token} (hopen : openAfter stack (texts (z :: ts)) = some stack') :
    ∃ rest, stack = k :: rest ∧ openAfter rest (texts ts) = some stack' := by
  rw [texts_cons, h.2, List.singleton_append, Bracket.openAfter_cons] at hopen
  obtain ⟨mid, hmid, hrest⟩ := Option.bind_eq_some_iff.mp hopen
  rcases Bracket.step_cases hmid with ⟨j, hj, _⟩ | ⟨j, hj, rfl⟩ | ⟨_, hc, _⟩
  · exact absurd hj.symm (Bracket.opening_ne_closing j k)
  · rw [Bracket.closing_injective hj]
    exact ⟨mid, rfl, hrest⟩
  · rw [Bracket.ofClosing?_closing] at hc
    exact absurd hc (by simp)

theorem openAfter_nested {xs : List Token} (h : Nested (texts xs)) (stack : List Bracket)
    (ts : List Token) : openAfter stack (texts (xs ++ ts)) = openAfter stack (texts ts) := by
  rw [texts_append, Bracket.openAfter_append, h.openAfter_eq]
  rfl

/-- Tokens that close all open brackets are nested if there are none; else one of them closes the
innermost bracket, and what stands before it is nested. -/
theorem nest_split {n : Nat} {ts : List Token} {stack : List Bracket} (hn : ts.length ≤ n)
    (hsimple : ∀ t ∈ ts, t.Simple) (h : openAfter stack (texts ts) = some []) :
    (stack = [] ∧ Nest ts)
      ∨ ∃ k rest xs z zs, stack = k :: rest ∧ ts = xs ++ z :: zs ∧ Nest xs ∧ z.Closes k
        ∧ openAfter rest (texts zs) = some [] := by
  induction n generalizing ts stack with
  | zero =>
      obtain rfl : ts = [] := List.length_eq_zero_iff.mp (Nat.le_zero.mp hn)
      exact Or.inl ⟨Option.some.inj h, .nil⟩
  | succ n ih =>
      cases ts with
      | nil => exact Or.inl ⟨Option.some.inj h, .nil⟩
      | cons t ts =>
          rw [List.length_cons] at hn
          have hrest : ∀ u ∈ ts, u.Simple := fun u hu => hsimple u (List.mem_cons_of_mem _ hu)
          rcases (hsimple t (by simp)).cases with hl | ⟨k, ho⟩ | ⟨k, hz⟩
          · have htail : openAfter stack (texts ts) = some [] := by
              rw [← h]
              exact (openAfter_nested (Nest.literal hl .nil).nested stack ts).symm
            rcases ih (by omega) hrest htail with
              ⟨hnil, hnest⟩ | ⟨k, rest, xs, z, zs, hk, rfl, hx, hz, hr⟩
            · exact Or.inl ⟨hnil, .literal hl hnest⟩
            · exact Or.inr ⟨k, rest, t :: xs, z, zs, hk, rfl, .literal hl hx, hz, hr⟩
          · -- the group first, then what stands behind it
            rw [openAfter_opening ho] at h
            rcases ih (by omega) hrest h with
              ⟨hnil, _⟩ | ⟨j, rest, xs, z, zs, hj, rfl, hx, hz, hr⟩
            · exact absurd hnil (by simp)
            obtain ⟨rfl, rfl⟩ := List.cons.inj hj
            have hlen : zs.length ≤ n := by
              rw [List.length_append, List.length_cons] at hn
              omega
            have hbehind : ∀ u ∈ zs, u.Simple := fun u hu => hrest u (by simp [hu])
            rcases ih hlen hbehind hr with
              ⟨hnil, hnest⟩ | ⟨j, rest, ys, y, us, hj, rfl, hy, hc, hu⟩
            · exact Or.inl ⟨hnil, .group ho hx hz hnest⟩
            · refine Or.inr
                ⟨j, rest, t :: (xs ++ z :: ys), y, us, hj, ?_, .group ho hx hz hy, hc, hu⟩
              simp
          · obtain ⟨rest, hk, hr⟩ := openAfter_closing hz h
            exact Or.inr ⟨k, rest, [], t, ts, hk, rfl, .nil, hz, hr⟩

/-- **Simple tokens are nested if the brackets of their texts are.** -/
theorem nest_iff {ts : List Token} (hsimple : ∀ t ∈ ts, t.Simple) :
    Nest ts ↔ Nested (texts ts) := by
  constructor
  · exact Nest.nested
  · intro h
    rcases nest_split (Nat.le_refl _) hsimple h with ⟨_, hnest⟩ | ⟨k, rest, xs, z, zs, hk, _⟩
    · exact hnest
    · exact absurd hk (by simp)

end MathMarkup.Grammar
