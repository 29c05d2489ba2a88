import MathMarkup.Proofs.Cleaning
import MathMarkup.Proofs.Tokens

/-!
# Where the commands of a cleaned text come from

The name of a command is as long as there are letters behind the backslash, so taking something out
of a text can make a command of what was none: `\sin,h` is cleaned to `\sinh`. This file says
exactly when that happens.

A command of the cleaned text is `Fused` if there is a seam in it, or if its backslash was the
second half of a row break. Any other command has its bytes from one command of the source
(`Whole`), and then it has the name of that command, since no letter behind it can have been taken
away. Whether the source knows the names of fused commands is a matter of luck
(`clean_commands_iff`).
-/

namespace MathMarkup

namespace Grammar

open MathMarkup.Text (byte)

/-- The names of the commands among some tokens. -/
def commandNames (ts : List Token) : List Text :=
  (ts.filter (·.kind == .command)).map (·.text)

theorem mem_commandNames {ts : List Token} {name : Text} :
    name ∈ commandNames ts ↔ ∃ t ∈ ts, t.kind = .command ∧ t.text = name := by
  simp [commandNames, and_assoc]

/-- A command as it stands in the text. -/
theorem command_read {t : Text} {ts : List Token} {k : Token} (h : tokens t = .ok ts) (hk : k ∈ ts)
    (hkind : k.kind = .command) :
    ∃ r, t.drop k.start = byte '\\' :: r ∧ CommandShape r .command k.text (k.stop - k.start) := by
  obtain ⟨_, b, r, hdrop, hlex⟩ := (tokens_cut h).read k hk
  rw [hkind] at hlex
  rcases headLexeme_cases hlex with ⟨rfl, hshape⟩ | ⟨_, _, hbyte, _⟩
  · exact ⟨r, hdrop, hshape⟩
  · exact absurd hbyte.symm (byteKind_ne_command b)

/-- The token of a backslash is a row break or a command. -/
theorem CommandShape.kind_cases {r text : Text} {kind : TokenKind} {width : Nat}
    (h : CommandShape r kind text width) : kind = .command ∨ r[0]? = some (byte '\\') := by
  cases h with
  | rowBreak r => exact Or.inr rfl
  | name c r _ => exact Or.inl rfl
  | sign c r _ _ => exact Or.inl rfl

theorem CommandShape.one_lt_width {r text : Text} {kind : TokenKind} {width : Nat}
    (h : CommandShape r kind text width) : 1 < width := by
  cases h <;> omega

/-- Behind the backslash of a command there is none. -/
theorem CommandShape.ne_slash {r text : Text} {width : Nat}
    (h : CommandShape r .command text width) : r[0]? ≠ some (byte '\\') := by
  cases h with
  | name c r hc => simpa using isLetter_ne_slash hc
  | sign c r hc _ => simpa using hc

/-- A backslash in the middle of a token is the second half of a row break. -/
theorem headLexeme_slash {b : UInt8} {r text : Text} {kind : TokenKind} {width n : Nat}
    (h : headLexeme b r = .token kind text width) (hn : n + 1 < width)
    (hslash : r[n]? = some (byte '\\')) : kind = .rowBreak ∧ n = 0 := by
  rcases headLexeme_cases h with ⟨rfl, hshape⟩ | ⟨hb, _, _, _, rfl⟩
  · cases hshape with
    | rowBreak r => exact ⟨rfl, by omega⟩
    | name c r hc =>
        -- all of the name are letters
        have hmem : byte '\\' ∈ (c :: r).takeWhile Text.isLetter := by
          rw [List.takeWhile_cons_of_pos hc]
          cases n with
          | zero =>
              obtain rfl : c = byte '\\' := by simpa using hslash
              exact List.mem_cons_self ..
          | succ n =>
              have hlt : n < (r.takeWhile Text.isLetter).length := by omega
              have hget := (List.takeWhile_prefix Text.isLetter (l := r)).getElem hlt
              refine List.mem_cons_of_mem _ (List.mem_of_getElem? (i := n) ?_)
              rw [List.getElem?_eq_getElem hlt, hget, ← hslash, List.getElem?_cons_succ,
                List.getElem?_eq_getElem]
        have := List.all_eq_true.mp List.all_takeWhile _ hmem
        exact absurd this (by decide)
    | sign c r hc _ =>
        obtain rfl : n = 0 := by omega
        exact absurd (by simpa using hslash) hc
  · -- a character is its first byte and bytes beyond ASCII
    have hmem : byte '\\' ∈ (b :: r).take (Text.headRune b r).width := by
      refine List.mem_of_getElem? (i := n + 1) ?_
      rw [List.getElem?_take_of_lt hn]
      exact hslash
    rcases (headRune_width b r).2.2 _ hmem with he | he
    · exact absurd he.symm hb
    · exact absurd he (by decide)

/-- Every backslash of a text begins a token or is the second half of a row break. -/
theorem Cut.slash {pos : Nat} {t : Text} {ts : List Token} (h : Cut pos t ts) :
    ∀ n, t[n]? = some (byte '\\') →
      ∃ k ∈ ts, k.start = pos + n ∨ (k.kind = .rowBreak ∧ k.start + 1 = pos + n) := by
  induction h with
  | finish => intro n hn; exact absurd hn (by simp)
  | @blank pos b r ts hb _ ih =>
      intro n hn
      cases n with
      | zero =>
          obtain rfl : b = byte '\\' := by simpa using hn
          exact absurd (headLexeme_blank hb) (by decide)
      | succ n =>
          obtain ⟨k, hk, hplace⟩ := ih n (by simpa using hn)
          exact ⟨k, hk, hplace.imp (fun h => by omega) fun h => ⟨h.1, by omega⟩⟩
  | @token pos b r kind text width ts hb _ ih =>
      intro n hn
      by_cases hlt : n < width
      · refine ⟨_, List.mem_cons_self .., ?_⟩
        cases n with
        | zero => exact Or.inl rfl
        | succ n =>
            obtain ⟨rfl, rfl⟩ := headLexeme_slash hb hlt (by simpa using hn)
            exact Or.inr ⟨rfl, rfl⟩
      · -- the place lies behind the token
        have hdrop : ((b :: r).drop width)[n - width]? = some (byte '\\') := by
          rw [List.getElem?_drop, ← hn]
          congr 1
          omega
        obtain ⟨k, hk, hplace⟩ := ih (n - width) hdrop
        refine ⟨k, List.mem_cons_of_mem _ hk, hplace.imp (fun h => ?_) fun h => ⟨h.1, ?_⟩⟩
        · omega
        · have := h.2
          omega

/-- Two texts have the same letters at the beginning if they agree as far as those of one of them
go, and the other has none behind. -/
theorem takeWhile_agree {p : UInt8 → Bool} {a b : Text}
    (hsame : ∀ i, i < (b.takeWhile p).length → a[i]? = b[i]?)
    (hend : ∀ l, a[(b.takeWhile p).length]? = some l → p l = true →
      b[(b.takeWhile p).length]? = some l) : a.takeWhile p = b.takeWhile p := by
  induction b generalizing a with
  | nil =>
      cases a with
      | nil => rfl
      | cons x a =>
          refine List.takeWhile_cons_of_neg fun hx => ?_
          exact absurd (hend x rfl hx) (by simp)
  | cons y b ih =>
      by_cases hy : p y = true
      · rw [List.takeWhile_cons_of_pos hy] at hsame hend ⊢
        rw [List.length_cons] at hsame hend
        have hhead := hsame 0 (Nat.succ_pos _)
        cases a with
        | nil => exact absurd hhead (by simp)
        | cons x a =>
            obtain rfl : x = y := by simpa using hhead
            rw [List.takeWhile_cons_of_pos hy]
            refine congrArg (x :: ·) (ih (fun i hi => ?_) fun l hl hp => ?_)
            · simpa using hsame (i + 1) (Nat.succ_lt_succ hi)
            · simpa using hend l (by simpa using hl) hp
      · rw [List.takeWhile_cons_of_neg hy] at hend ⊢
        cases a with
        | nil => rfl
        | cons x a =>
            refine List.takeWhile_cons_of_neg fun hx => hy ?_
            have : y = x := by simpa using hend x rfl hx
            rwa [this]

/-- Two commands have the same name if they agree as far as one of them goes, and the other does not
go on with a letter behind it. -/
theorem CommandShape.text_eq {r r' text text' : Text} {width width' : Nat}
    (h : CommandShape r .command text width) (h' : CommandShape r' .command text' width')
    (hsame : ∀ i, i + 1 < width → r'[i]? = r[i]?)
    (hend : ∀ l, r'[width - 1]? = some l → Text.isLetter l = true → r[width - 1]? = some l) :
    text' = text := by
  have hfirst : r'[0]? = r[0]? := by
    refine hsame 0 ?_
    cases h <;> omega
  cases h with
  | name c r hc =>
      have hname : c :: r.takeWhile Text.isLetter = (c :: r).takeWhile Text.isLetter :=
        (List.takeWhile_cons_of_pos hc).symm
      cases h' with
      | name c' r' hc' =>
          rw [hname, ← List.takeWhile_cons_of_pos hc']
          refine takeWhile_agree (fun i hi => hsame i ?_) fun l hl hletter => ?_
          · rw [← hname, List.length_cons] at hi
            omega
          · rw [← hname, List.length_cons] at hl ⊢
            exact hend l hl hletter
      | sign c' r' _ hc' =>
          obtain rfl : c' = c := by simpa using hfirst
          rw [hc] at hc'
          exact absurd hc' (by simp)
  | sign c r _ hc =>
      cases h' with
      | name c' r' hc' =>
          obtain rfl : c' = c := by simpa using hfirst
          rw [hc] at hc'
          exact absurd hc' (by simp)
      | sign c' r' _ _ =>
          obtain rfl : c' = c := by simpa using hfirst
          rfl

end Grammar

namespace Cleaning

open MathMarkup.Grammar (Token tokens commandNames)
open MathMarkup.Text (byte)

/-! ## Marks at a place -/

/-- The place in the source of the byte at a place of the cleaned text. -/
def originAt (xs : List Mark) (n : Nat) : Option Nat := (xs[n]?).bind Mark.origin

/-- A byte that comes from the source is the byte there. -/
theorem originAt_byte {source : Text} {xs : List Mark} {n o : Nat}
    (h : (kept xs).Sublist source.zipIdx) (ho : originAt xs n = some o) :
    (bytes xs)[n]? = source[o]? := by
  obtain ⟨x, hx, hxo⟩ := Option.bind_eq_some_iff.mp ho
  have hmem : (x.byte, o) ∈ kept xs :=
    List.mem_filterMap.mpr ⟨x, List.mem_of_getElem? hx, by rw [hxo]; rfl⟩
  rw [bytes, List.getElem?_map, hx, List.mem_zipIdx_iff_getElem?.mp (h.mem hmem)]
  rfl

theorem Joined.originAt {source : Text} {xs : List Mark} {n o : Nat} {l : UInt8}
    (h : Joined source xs) (ho : originAt xs n = some o) (hl : source[o + 1]? = some l)
    (hletter : Text.isLetter l = true) : (bytes xs)[n + 1]? = some l := by
  obtain ⟨x, hx, hxo⟩ := Option.bind_eq_some_iff.mp ho
  clear ho
  induction xs generalizing n with
  | nil => exact absurd hx (by simp)
  | cons y xs ih =>
      cases n with
      | zero =>
          obtain rfl : y = x := by simpa using hx
          obtain ⟨xs', rfl⟩ := List.head?_eq_some_iff.mp (h.1 o l hxo hl hletter)
          rfl
      | succ n => exact ih h.2 (by simpa using hx)

/-- What stands behind the first byte of a piece of a text. -/
theorem getElem?_behind {t r : Text} {b : UInt8} {n : Nat} (h : t.drop n = b :: r) (i : Nat) :
    r[i]? = t[n + (i + 1)]? := by
  rw [← List.getElem?_drop, h, List.getElem?_cons_succ]

/-! ## Commands -/

/-- A token of the cleaned text whose bytes are the bytes of a command of the source, from the
backslash on. -/
def Whole (xs : List Mark) (ts : List Token) (k : Token) : Prop :=
  ∃ t ∈ ts, t.kind = .command
    ∧ ∀ i, i < k.stop - k.start → originAt xs (k.start + i) = some (t.start + i)

/-- A token of the cleaned text that is put together: two bytes of it that stand next to each other
do not do so in the source, or the first comes from the second half of a row break. -/
def Fused (xs : List Mark) (ts : List Token) (k : Token) : Prop :=
  (∃ i, i + 1 < k.stop - k.start
    ∧ ∀ o, originAt xs (k.start + i) = some o → originAt xs (k.start + (i + 1)) ≠ some (o + 1))
  ∨ ∃ o, originAt xs k.start = some o ∧ ∃ t ∈ ts, t.kind = .rowBreak ∧ t.start + 1 = o

/-- Without a seam the bytes of a token are neighbours in the source. -/
theorem originAt_of_not_fused {xs : List Mark} {ts : List Token} {k : Token}
    (h : ¬ Fused xs ts k) (hwidth : 1 < k.stop - k.start) :
    ∃ o, ∀ i, i < k.stop - k.start → originAt xs (k.start + i) = some (o + i) := by
  have next : ∀ i, i + 1 < k.stop - k.start → ∃ o, originAt xs (k.start + i) = some o
      ∧ originAt xs (k.start + (i + 1)) = some (o + 1) := by
    intro i hi
    refine Classical.byContradiction fun hnot => h (Or.inl ⟨i, hi, fun o ho ho' => ?_⟩)
    exact hnot ⟨o, ho, ho'⟩
  obtain ⟨o, ho, _⟩ := next 0 (by omega)
  refine ⟨o, fun i => ?_⟩
  induction i with
  | zero => exact fun _ => ho
  | succ i ih =>
      intro hi
      obtain ⟨o', ho', hnext⟩ := next i hi
      rw [ih (by omega)] at ho'
      obtain rfl := Option.some.inj ho'
      exact hnext

section

variable {source : Text} {xs : List Mark} {ts cs : List Token} {k : Token}

/-- **A command that is not fused is whole.** -/
theorem whole_of_not_fused (hkept : (kept xs).Sublist source.zipIdx)
    (hts : tokens source = .ok ts) (hcs : tokens (bytes xs) = .ok cs) (hk : k ∈ cs)
    (hkind : k.kind = .command) (hfused : ¬ Fused xs ts k) : Whole xs ts k := by
  obtain ⟨r, hr, hshape⟩ := Grammar.command_read hcs hk hkind
  have hwidth : 1 < k.stop - k.start := hshape.one_lt_width
  obtain ⟨o, ho⟩ := originAt_of_not_fused hfused hwidth
  have hfirst : originAt xs k.start = some o := ho 0 (by omega)
  -- the backslash comes from a backslash, and the byte behind it from the byte behind that one
  have hslash : source[o]? = some (byte '\\') := by
    rw [← originAt_byte hkept hfirst, ← List.head?_drop, hr]
    rfl
  have hsecond : source[o + 1]? = r[0]? := by
    rw [← originAt_byte hkept (ho 1 hwidth), getElem?_behind hr]
  obtain ⟨t, ht, hplace | ⟨hbreak, hplace⟩⟩ := (Grammar.tokens_cut hts).slash o hslash
  · rw [Nat.zero_add] at hplace
    obtain ⟨_, b, r', hdrop, hlex⟩ := (Grammar.tokens_cut hts).read t ht
    rw [Nat.sub_zero, hplace] at hdrop
    obtain rfl : b = byte '\\' := by
      rw [← List.head?_drop, hdrop] at hslash
      exact Option.some.inj hslash
    rcases Grammar.headLexeme_cases hlex with ⟨_, hshape'⟩ | ⟨hb, _⟩
    · rcases hshape'.kind_cases with hcommand | hrow
      · exact ⟨t, ht, hcommand, fun i hi => by rw [hplace]; exact ho i hi⟩
      · -- a row break of the source would have been one of the cleaned text
        rw [getElem?_behind hdrop, hsecond] at hrow
        exact absurd hrow hshape.ne_slash
    · exact absurd rfl hb
  · rw [Nat.zero_add] at hplace
    exact absurd (Or.inr ⟨o, hfirst, t, ht, hbreak, hplace⟩) hfused

/-- **A command that is whole has the name of a command of the source.** -/
theorem whole_command (hkept : (kept xs).Sublist source.zipIdx) (hjoined : Joined source xs)
    (hts : tokens source = .ok ts) (hcs : tokens (bytes xs) = .ok cs) (hk : k ∈ cs)
    (hkind : k.kind = .command) (hwhole : Whole xs ts k) : k.text ∈ commandNames ts := by
  obtain ⟨t, ht, htkind, horigin⟩ := hwhole
  obtain ⟨r, hr, hshape⟩ := Grammar.command_read hcs hk hkind
  obtain ⟨r', hr', hshape'⟩ := Grammar.command_read hts ht htkind
  have hwidth := hshape.one_lt_width
  refine Grammar.mem_commandNames.mpr ⟨t, ht, htkind, hshape.text_eq hshape' ?_ ?_⟩
  · intro i hi
    rw [getElem?_behind hr, getElem?_behind hr', originAt_byte hkept (horigin (i + 1) hi)]
  · intro l hl hletter
    -- a letter behind the command of the source would still be there
    have hlast := horigin (k.stop - k.start - 1) (by omega)
    rw [getElem?_behind hr', ← Nat.add_assoc] at hl
    rw [getElem?_behind hr, ← Nat.add_assoc]
    exact hjoined.originAt hlast hl hletter

end

/-- What cleaning has done to the source, byte for byte. -/
theorem traceClean_ok {limit : Nat} {source c : Text} (h : (clean limit source).result = .ok c) :
    ∃ xs, traceClean limit source = .ok xs ∧ bytes xs = c
      ∧ (kept xs).Sublist source.zipIdx ∧ Joined source xs := by
  rw [← traceClean_bytes] at h
  cases htrace : traceClean limit source with
  | error e => rw [htrace] at h; exact absurd h (by simp [Except.map])
  | ok xs =>
      rw [htrace] at h
      have hedits : Edits (marked source) xs := by
        unfold traceClean at htrace
        rcases traceFrom_traces limit limit (marked source) with ht | ht
        · rw [htrace] at ht; exact ht
        · rw [htrace] at ht; exact absurd ht (by simp)
      have hkept := hedits.kept_sublist
      rw [kept_marked] at hkept
      exact ⟨xs, rfl, Except.ok.inj h, hkept, hedits.joined (joined_marked source)⟩

/--
**Cleaning invents commands only by fusing.** Every byte of the cleaned text is put in by a rule or
comes from a place of the source, in order. A command that is not fused has a name that the source
has; so all the names are from the source if and only if those of the fused commands are.
-/
theorem clean_commands_iff {limit : Nat} {source c : Text} {ts cs : List Token}
    (hclean : (clean limit source).result = .ok c) (hts : tokens source = .ok ts)
    (hcs : tokens c = .ok cs) :
    ∃ xs, traceClean limit source = .ok xs ∧ bytes xs = c ∧ (kept xs).Sublist source.zipIdx
      ∧ (∀ k ∈ cs, k.kind = .command → ¬ Fused xs ts k → k.text ∈ commandNames ts)
      ∧ ((∀ k ∈ cs, k.kind = .command → k.text ∈ commandNames ts)
        ↔ ∀ k ∈ cs, k.kind = .command → Fused xs ts k → k.text ∈ commandNames ts) := by
  obtain ⟨xs, htrace, rfl, hkept, hjoined⟩ := traceClean_ok hclean
  have hname : ∀ k ∈ cs, k.kind = .command → ¬ Fused xs ts k → k.text ∈ commandNames ts := by
    intro k hk hkind hfused
    have hwhole := whole_of_not_fused hkept hts hcs hk hkind hfused
    exact whole_command hkept hjoined hts hcs hk hkind hwhole
  refine ⟨xs, htrace, rfl, hkept, hname, fun h k hk hkind _ => h k hk hkind, ?_⟩
  intro h k hk hkind
  by_cases hfused : Fused xs ts k
  · exact h k hk hkind hfused
  · exact hname k hk hkind hfused

/-- Taking the comma out of `\sin,h` makes a hyperbolic sine of it. -/
theorem sine_and_letter_fused :
    (clean 64 "\\sin,h").result = .ok "\\sinh"
      ∧ ∃ xs ts cs, traceClean 64 "\\sin,h" = .ok xs ∧ tokens "\\sin,h" = .ok ts
        ∧ tokens "\\sinh" = .ok cs ∧ commandNames ts = Text.ofStrings ["sin"]
        ∧ commandNames cs = Text.ofStrings ["sinh"]
        ∧ ¬ ∀ k ∈ cs, k.kind = .command → ¬ Fused xs ts k := by
  have hclean : (clean 64 "\\sin,h").result = .ok "\\sinh" := rfl
  have hts : tokens "\\sin,h" = .ok
      [⟨.command, "sin", 0, 4⟩, ⟨.char, ",", 4, 5⟩, ⟨.char, "h", 5, 6⟩] := rfl
  have hcs : tokens "\\sinh" = .ok [⟨.command, "sinh", 0, 5⟩] := rfl
  obtain ⟨xs, htrace, _, _, hname, _⟩ := clean_commands_iff hclean hts hcs
  refine ⟨hclean, xs, _, _, htrace, hts, hcs, by decide, by decide, fun hnot => ?_⟩
  have hmem := List.mem_singleton_self (⟨.command, "sinh", 0, 5⟩ : Token)
  exact absurd (hname _ hmem rfl (hnot _ hmem rfl)) (by decide)

end Cleaning

end MathMarkup
