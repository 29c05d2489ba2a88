import MathMarkup.Proofs.NormalForm
import MathMarkup.Proofs.Origins
import MathMarkup.Proofs.Separators

/-!
# Tokens tile their text

Cutting a text into tokens loses nothing but blanks. A byte that is no blank belongs to a token
(`Cut.covered`), a token is the piece of text it stands for (`Cut.display_eq`), and no two tokens
share a byte (`Tiled.covers_unique`), so a backslash is part of exactly one token, which is a row
break or a command (`Cut.slash_kind`).

A text has no tokens only if a backslash is left over at its end. A token ends without one that
still escapes something (`headLexeme_escaping`), so whether one is left over is the parity of the
backslashes at the end of the text (`tokens_error_iff`).
-/

namespace MathMarkup.Grammar

open MathMarkup.Text (byte)
open MathMarkup.Cleaning (trailingSlashes parity_eq getElem?_behind)
open MathMarkup.Grammar.Parser (peekAt)

variable {pos : Nat} {t : Text} {ts : List Token}

/-! ## Backslashes left over -/

/-- Whether a backslash is left over behind some bytes, if one is left over before them or not. -/
def escaping (odd : Bool) (t : Text) : Bool := t.foldl (fun odd b => b == byte '\\' && !odd) odd

theorem escaping_append (odd : Bool) (u r : Text) :
    escaping odd (u ++ r) = escaping (escaping odd u) r := List.foldl_append

/-- Behind bytes that are no backslashes none is left over. -/
theorem escaping_no_slash {u : Text} (hne : u ≠ []) (hu : ∀ b ∈ u, b ≠ byte '\\') (odd : Bool) :
    escaping odd u = false := by
  rcases List.eq_nil_or_concat u with rfl | ⟨v, b, rfl⟩
  · exact absurd rfl hne
  · rw [List.concat_eq_append] at hu ⊢
    have hb : (b == byte '\\') = false :=
      beq_eq_false_iff_ne.mpr (hu b (List.mem_append_right v (List.mem_singleton_self b)))
    rw [escaping_append]
    show (b == byte '\\' && !escaping odd v) = false
    rw [hb, Bool.false_and]

theorem CommandShape.escaping {r text : Text} {kind : TokenKind} {width : Nat}
    (h : CommandShape r kind text width) :
    escaping false ((byte '\\' :: r).take width) = false := by
  cases h with
  | rowBreak r => rfl
  | name c r hc =>
      have htake : (byte '\\' :: c :: r).take ((r.takeWhile Text.isLetter).length + 2)
          = [byte '\\'] ++ (c :: r.takeWhile Text.isLetter) := by
        rw [List.take_succ_cons, List.take_succ_cons,
          ← List.prefix_iff_eq_take.mp (List.takeWhile_prefix Text.isLetter)]
        rfl
      rw [htake, escaping_append]
      refine escaping_no_slash (List.cons_ne_nil _ _) (fun b hb => isLetter_ne_slash ?_) _
      rcases List.mem_cons.mp hb with rfl | hb
      · exact hc
      · exact List.all_eq_true.mp List.all_takeWhile b hb
  | sign c r hc _ =>
      exact escaping_no_slash (u := [c]) (List.cons_ne_nil _ _) (by simpa using hc) true

/-- **Behind a token no backslash is left over.** -/
theorem headLexeme_escaping {b : UInt8} {r text : Text} {kind : TokenKind} {width : Nat}
    (h : headLexeme b r = .token kind text width) :
    escaping false ((b :: r).take width) = false := by
  rcases headLexeme_cases h with ⟨rfl, hshape⟩ | ⟨hb, _, _, _, rfl⟩
  · exact hshape.escaping
  · obtain ⟨hpos, _, hbytes⟩ := headRune_width b r
    refine escaping_no_slash (fun hnil => ?_) (fun x hx => ?_) _
    · have := congrArg List.length hnil
      rw [List.length_take, List.length_cons, List.length_nil] at this
      omega
    · rcases hbytes x hx with rfl | hhigh
      · exact hb
      · rintro rfl
        exact absurd hhigh (by decide)

/-- A backslash is left over at the very end. -/
theorem headLexeme_dangling {b : UInt8} {r : Text} (h : headLexeme b r = .dangling) :
    b = byte '\\' ∧ r = [] := by
  unfold headLexeme at h
  split at h
  · exact absurd h (by simp)
  · split at h
    · rename_i hb
      refine ⟨eq_of_beq hb, ?_⟩
      unfold commandLexeme at h
      repeat' split at h
      all_goals first | rfl | exact absurd h (by simp)
    · exact absurd h (by simp)

/-- How cutting a text that starts at an offset ends: with tokens if no backslash is left over, or
else at its last byte. -/
def Leaves (pos : Nat) (t : Text) : Except Nat (List Token) → Prop
  | .ok _ => escaping false t = false
  | .error place => escaping false t = true ∧ place + 1 = pos + t.length

/-- What is left over behind bytes that leave nothing over is left over behind the rest. -/
theorem Leaves.append {u r : Text} {result : Except Nat (List Token)}
    (h : Leaves (pos + u.length) r result) (hu : escaping false u = false) :
    Leaves pos (u ++ r) result := by
  have hrest : escaping false (u ++ r) = escaping false r := by rw [escaping_append, hu]
  cases result with
  | ok ts => exact hrest.trans h
  | error place => exact ⟨hrest.trans h.1, by rw [h.2, List.length_append, Nat.add_assoc]⟩

theorem tokensFrom_leaves (pos : Nat) (t : Text) : Leaves pos t (tokensFrom pos 0 t) := by
  -- a token takes several bytes at once, so the induction is on the length
  induction hn : t.length using Nat.strongRecOn generalizing t pos with
  | ind n ih =>
    cases t with
    | nil => exact rfl
    | cons b r =>
        rw [List.length_cons] at hn
        rw [tokensFrom]
        cases hlexeme : headLexeme b r with
        | blank =>
            have hb : ∀ x ∈ [b], x ≠ byte '\\' := by
              rintro x hx rfl
              obtain rfl := List.mem_singleton.mp hx
              exact absurd (headLexeme_blank hlexeme) (by decide)
            exact (ih r.length (by omega) (pos + 1) r rfl).append (u := [b])
              (escaping_no_slash (List.cons_ne_nil _ _) hb false)
        | dangling =>
            obtain ⟨rfl, rfl⟩ := headLexeme_dangling hlexeme
            exact ⟨rfl, rfl⟩
        | token kind text width =>
            obtain ⟨hw1, hw2⟩ := headLexeme_width hlexeme
            have htake : ((b :: r).take width).length = width := List.length_take_of_le hw2
            rw [List.length_cons] at hw2
            have hdrop : r.drop (width - 1) = (b :: r).drop width := by
              obtain ⟨w, rfl⟩ : ∃ w, width = w + 1 := ⟨width - 1, by omega⟩
              rfl
            have hrest := ih ((b :: r).drop width).length
              (by rw [List.length_drop, List.length_cons]; omega) (pos + width) _ rfl
            dsimp only
            rw [tokensFrom_skip (by omega), hdrop,
              show pos + 1 + (width - 1) = pos + width by omega]
            have hall : Leaves pos (b :: r) (tokensFrom (pos + width) 0 ((b :: r).drop width)) := by
              rw [← htake] at hrest
              have := hrest.append (headLexeme_escaping hlexeme)
              rwa [htake, List.take_append_drop] at this
            cases hmore : tokensFrom (pos + width) 0 ((b :: r).drop width) with
            | ok more => rw [hmore] at hall; exact hall
            | error place => rw [hmore] at hall; exact hall

/-- **A text has no tokens if and only if it ends in an odd run of backslashes.** -/
theorem tokens_error_iff {e : SyntaxError} :
    tokens t = .error e ↔ trailingSlashes t % 2 = 1
      ∧ e = syntaxError t (t.length - 1) t.length "\\" "dangling backslash" := by
  have hparity : escaping false t = decide (trailingSlashes t % 2 = 1) := parity_eq t
  have hleaves := tokensFrom_leaves 0 t
  unfold tokens
  cases hcut : tokensFrom 0 0 t with
  | ok ts =>
      rw [hcut] at hleaves
      have heven : escaping false t = false := hleaves
      rw [hparity] at heven
      exact ⟨fun h => absurd h (by simp), fun h => absurd h.1 (by simpa using heven)⟩
  | error place =>
      rw [hcut] at hleaves
      obtain ⟨hodd, hlast⟩ := hleaves
      rw [hparity] at hodd
      obtain rfl : place = t.length - 1 := by omega
      dsimp only
      rw [show t.length - 1 + 1 = t.length by omega, Except.error.injEq]
      exact ⟨fun h => ⟨by simpa using hodd, h.symm⟩, fun h => h.2.symm⟩

/-! ## Nothing is lost -/

/-- The byte at an index belongs to a token. -/
def Token.Covers (k : Token) (i : Nat) : Prop := k.start ≤ i ∧ i < k.stop

/-- **A byte that no token covers is a blank.** -/
theorem Cut.covered (h : Cut pos t ts) :
    ∀ n b, t[n]? = some b → Text.isBlank b = true ∨ ∃ k ∈ ts, k.Covers (pos + n) := by
  induction h with
  | finish => intro n b hb; exact absurd hb (by simp)
  | @blank pos c r ts hc _ ih =>
      intro n b hb
      cases n with
      | zero =>
          obtain rfl : c = b := by simpa using hb
          exact Or.inl (headLexeme_blank hc)
      | succ n =>
          rw [show pos + (n + 1) = pos + 1 + n by omega]
          exact ih n b (by simpa using hb)
  | @token pos c r kind text width ts hc _ ih =>
      intro n b hb
      rcases Nat.lt_or_ge n width with hlt | hge
      · exact Or.inr ⟨_, List.mem_cons_self .., Nat.le_add_right pos n, Nat.add_lt_add_left hlt pos⟩
      · have hrest : ((c :: r).drop width)[n - width]? = some b := by
          rw [List.getElem?_drop, Nat.add_sub_cancel' hge, hb]
        rw [show pos + n = pos + width + (n - width) by omega]
        refine (ih _ b hrest).imp_right fun ⟨k, hk, hcovers⟩ => ?_
        exact ⟨k, List.mem_cons_of_mem _ hk, hcovers⟩

/-- The text of a command, with its backslash, is what the command takes. -/
theorem CommandShape.display_eq {r text : Text} {kind : TokenKind} {width : Nat}
    (h : CommandShape r kind text width) (start stop : Nat) :
    Token.display ⟨kind, text, start, stop⟩ = (byte '\\' :: r).take width := by
  cases h with
  | rowBreak r => rfl
  | name c r _ =>
      show byte '\\' :: c :: r.takeWhile Text.isLetter = _
      rw [List.take_succ_cons, List.take_succ_cons,
        ← List.prefix_iff_eq_take.mp (List.takeWhile_prefix Text.isLetter)]
  | sign c r _ _ => rfl

theorem CommandShape.kind_eq {r text : Text} {kind : TokenKind} {width : Nat}
    (h : CommandShape r kind text width) : kind = .rowBreak ∨ kind = .command := by
  cases h with
  | rowBreak => exact Or.inl rfl
  | name => exact Or.inr rfl
  | sign => exact Or.inr rfl

theorem byteKind_ne_finish (b : UInt8) : byteKind b ≠ .finish := by
  unfold byteKind
  split
  · simp
  · simp
  · repeat' split
    all_goals simp

/-- A token of another kind is displayed as its text. -/
theorem display_of_kind {k : Token} (hfinish : k.kind ≠ .finish) (hcommand : k.kind ≠ .command) :
    k.display = k.text := by
  unfold Token.display
  split
  · rename_i h
    exact absurd h hfinish
  · rename_i h
    exact absurd h hcommand
  · rfl

/-- **A token is displayed as it stands in the text.** -/
theorem Cut.display_eq (h : Cut 0 t ts) {k : Token} (hk : k ∈ ts) :
    k.display = t.slice k.start k.stop := by
  obtain ⟨_, b, r, hdrop, hlexeme⟩ := h.read k hk
  rw [Nat.sub_zero] at hdrop
  unfold Text.slice
  rw [hdrop]
  rcases headLexeme_cases hlexeme with ⟨rfl, hshape⟩ | ⟨_, _, hkind, htext, _⟩
  · exact hshape.display_eq k.start k.stop
  · rw [display_of_kind (hkind ▸ byteKind_ne_finish b) (hkind ▸ byteKind_ne_command b)]
    exact htext

/-! ## Nothing is read twice -/

/-- Tokens one behind the other. -/
theorem Tiled.pairwise {stop lo : Nat} (h : Tiled stop lo ts) :
    ts.Pairwise fun k k' => k.stop ≤ k'.start := by
  induction ts generalizing lo with
  | nil => exact .nil
  | cons k ts ih =>
      refine List.pairwise_cons.mpr ⟨fun k' hk' => ?_, ih h.2.2⟩
      exact h.2.2.start_le k' hk'

theorem Tiled.stop_le {stop lo : Nat} (h : Tiled stop lo ts) :
    ∀ k ∈ ts, k.start < k.stop ∧ k.stop ≤ stop := by
  induction ts generalizing lo with
  | nil => exact fun k hk => absurd hk (by simp)
  | cons k ts ih => exact List.forall_mem_cons.mpr ⟨⟨h.2.1, h.2.2.le⟩, ih h.2.2⟩

/-- **No byte belongs to two tokens.** -/
theorem Tiled.covers_unique {stop lo i : Nat} (h : Tiled stop lo ts) {k k' : Token} (hk : k ∈ ts)
    (hk' : k' ∈ ts) (hi : k.Covers i) (hi' : k'.Covers i) : k = k' := by
  induction ts generalizing lo with
  | nil => exact absurd hk (by simp)
  | cons c ts ih =>
      have behind : ∀ x ∈ ts, c.Covers i → ¬ x.Covers i := fun x hx hc hxi =>
        absurd (Nat.lt_of_lt_of_le hc.2 (h.2.2.start_le x hx)) (Nat.not_lt.mpr hxi.1)
      rcases List.mem_cons.mp hk with rfl | hk
      · rcases List.mem_cons.mp hk' with rfl | hk'
        · rfl
        · exact absurd hi' (behind k' hk' hi)
      · rcases List.mem_cons.mp hk' with hkc | hk'
        · rw [hkc] at hi'
          exact absurd hi (behind k hk hi')
        · exact ih h.2.2 hk hk'

/-- The kind of a token that is not the end of the text. -/
theorem Cut.kind_ne_finish (h : Cut 0 t ts) {k : Token} (hk : k ∈ ts) : k.kind ≠ .finish := by
  obtain ⟨_, b, r, _, hlexeme⟩ := h.read k hk
  rcases headLexeme_cases hlexeme with ⟨_, hshape⟩ | ⟨_, _, hkind, _⟩
  · rcases hshape.kind_eq with hkind | hkind <;> rw [hkind] <;> simp
  · rw [hkind]
    exact byteKind_ne_finish b

/-- **A token that covers a backslash is a row break or a command.** -/
theorem Cut.slash_kind (h : Cut 0 t ts) {k : Token} (hk : k ∈ ts) {i : Nat} (hcovers : k.Covers i)
    (hi : t[i]? = some (byte '\\')) : k.kind = .rowBreak ∨ k.kind = .command := by
  obtain ⟨_, b, r, hdrop, hlexeme⟩ := h.read k hk
  rw [Nat.sub_zero] at hdrop
  obtain ⟨n, rfl⟩ := Nat.le.dest hcovers.1
  rw [← List.getElem?_drop, hdrop] at hi
  have hn := hcovers.2
  cases n with
  | zero =>
      obtain rfl : b = byte '\\' := by simpa using hi
      rcases headLexeme_cases hlexeme with ⟨_, hshape⟩ | ⟨hb, _⟩
      · exact hshape.kind_eq
      · exact absurd rfl hb
  | succ n =>
      have hwidth : n + 1 < k.stop - k.start := by omega
      exact Or.inl (headLexeme_slash hlexeme hwidth (by simpa using hi)).1

/--
**The tokens of a text tile it.** A text has tokens unless it ends in an odd run of backslashes, the
last of which is then refused. The tokens stand one behind the other, none is empty, each is the
piece of the text it covers, and behind the last one the end of the text is seen. A byte that none
of them covers is a blank, and a backslash is part of exactly one, a row break or a command.
-/
theorem tokens_tile (t : Text) :
    (∀ e, tokens t = .error e ↔ trailingSlashes t % 2 = 1
        ∧ e = syntaxError t (t.length - 1) t.length "\\" "dangling backslash")
      ∧ ∀ ts, tokens t = .ok ts →
        ts.Pairwise (fun k k' => k.stop ≤ k'.start)
          ∧ (∀ k ∈ ts, k.kind ≠ .finish ∧ k.start < k.stop ∧ k.stop ≤ t.length
            ∧ k.display = t.slice k.start k.stop)
          ∧ (∀ (s : Scope) n, s.text = t → ts.length ≤ n →
            peekAt n s ⟨ts, 0⟩ = .ok (⟨.finish, [], t.length, t.length⟩, ⟨ts, 0⟩))
          ∧ (∀ i b, t[i]? = some b → (∀ k ∈ ts, ¬ k.Covers i) → Text.isBlank b = true)
          ∧ ∀ i, t[i]? = some (byte '\\') →
            ∃ k ∈ ts, k.Covers i ∧ (k.kind = .rowBreak ∨ k.kind = .command)
              ∧ ∀ k' ∈ ts, k'.Covers i → k' = k := by
  refine ⟨fun e => tokens_error_iff, fun ts hts => ?_⟩
  have hcut := tokens_cut hts
  have htiled := hcut.tiled
  rw [Nat.zero_add] at htiled
  refine ⟨htiled.pairwise, fun k hk => ?_, ?_, fun i b hb hnone => ?_, fun i hi => ?_⟩
  · obtain ⟨hlt, hle⟩ := htiled.stop_le k hk
    exact ⟨hcut.kind_ne_finish hk, hlt, hle, hcut.display_eq hk⟩
  · rintro s n rfl hn
    rw [peekAt_eq, Cursor.token, List.getElem?_eq_none hn]
    rfl
  · rcases hcut.covered i b hb with hblank | ⟨k, hk, hcovers⟩
    · exact hblank
    · exact absurd (by rwa [Nat.zero_add] at hcovers) (hnone k hk)
  · rcases hcut.covered i _ hi with hblank | ⟨k, hk, hcovers⟩
    · exact absurd hblank (by decide)
    · rw [Nat.zero_add] at hcovers
      exact ⟨k, hk, hcovers, hcut.slash_kind hk hcovers hi,
        fun k' hk' hcovers' => htiled.covers_unique hk' hk hcovers' hcovers⟩

/-- A row break, a name, a control symbol made of a blank, a byte that encodes no character, and a
control symbol made of the first byte of a character. -/
def mixedTokens : Text :=
  [byte '\\', byte '\\', byte '\\', byte 'p', byte 'i', byte '\t', byte '\\', byte ' ', 0xff,
    byte '\\', 0xc3, 0xa9]

/-- The backslashes of the first row break and of the control symbols are each in one token, and
with one more backslash at the end there are no tokens. -/
theorem mixedTokens_tile :
    ∃ ts, tokens mixedTokens = .ok ts
      ∧ ts.map (fun k => (k.start, k.stop)) = [(0, 2), (2, 5), (6, 8), (8, 9), (9, 11), (11, 12)]
      ∧ (∃ k ∈ ts, k.Covers 1 ∧ (k.kind = .rowBreak ∨ k.kind = .command)
        ∧ ∀ k' ∈ ts, k'.Covers 1 → k' = k)
      ∧ (∃ e, tokens (mixedTokens ++ "\\") = .error e) := by
  have hts : tokens mixedTokens = .ok
      [⟨.rowBreak, "\\\\", 0, 2⟩, ⟨.command, "pi", 2, 5⟩, ⟨.command, " ", 6, 8⟩,
        ⟨.char, [0xff], 8, 9⟩, ⟨.command, [0xc3], 9, 11⟩, ⟨.char, [0xa9], 11, 12⟩] := rfl
  exact ⟨_, hts, rfl, ((tokens_tile mixedTokens).2 _ hts).2.2.2.2 1 rfl,
    _, ((tokens_tile (mixedTokens ++ "\\")).1 _).mpr ⟨by decide, rfl⟩⟩

end MathMarkup.Grammar
