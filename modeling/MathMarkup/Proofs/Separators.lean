import MathMarkup.Proofs.Framing
import MathMarkup.Proofs.Protection

/-!
# Separators of matrix cells

Matrix environments are recognised twice: in the text, by its tags, when an `&` outside of them is
replaced by a blank, and in the tokens, when the text is read. The grammar allows blanks in a tag
and reads two backslashes as the end of a row, so the two need not agree, and a text that is
accepted keeps its separators if each of them stands in a matrix environment as the text spells it
(`separators_kept_iff`). They do agree where the tags of the text are those that the tokens read
(`Aligned`).

Tokens are followed through the bytes of the text (`Passable`). What they cover leaves open as many
environments of a name as were open before, and none is closed too early.
-/

namespace MathMarkup.Grammar

open MathMarkup.Cleaning
open MathMarkup.Text (byte)

variable {command name : Text} {pos : Nat} {t w r : Text} {k : Token} {xs ys ts : List Token}

/-! ## Tags in the tokens and in the text -/

/-- A tag as it is written. -/
def tagText (command name : Text) : Text :=
  byte '\\' :: (command ++ byte '\x7b' :: (name ++ [byte '\x7d']))

theorem beginTag_eq (name : Text) : beginTag name = tagText "begin" name := by
  have hopen : Text.ofString "\\begin\x7b"
      = byte '\\' :: (Text.ofString "begin" ++ [byte '\x7b']) := by decide
  rw [beginTag, tagText, hopen]
  simp
  decide

theorem endTag_eq (name : Text) : endTag name = tagText "end" name := by
  have hopen : Text.ofString "\\end\x7b"
      = byte '\\' :: (Text.ofString "end" ++ [byte '\x7b']) := by decide
  rw [endTag, tagText, hopen]
  simp
  decide

/-- Whether tokens begin with a tag. -/
def startsTag (command name : Text) (ts : List Token) : Bool :=
  match ts with
  | c :: o :: us =>
    c.isCommand [command] && o.kind == .opening .curly
      && texts (us.takeWhile (·.kind == .char)) == name
      && (us.dropWhile (·.kind == .char)).head?.any (·.kind == .closing .curly)
  | _ => false

/-- The offsets of the tags that tokens read. -/
def readTags (command name : Text) : List Token → List Nat
  | [] => []
  | k :: ts =>
    if startsTag command name (k :: ts) then k.start :: readTags command name ts
    else readTags command name ts

/-- The offsets of the tags of a text that begins at `pos`. -/
def writtenTags (command name : Text) (pos : Nat) : Text → List Nat
  | [] => []
  | b :: r =>
    if (tagText command name).isPrefixOf (b :: r) then pos :: writtenTags command name (pos + 1) r
    else writtenTags command name (pos + 1) r

/-- The matrix tags of a text are those that its tokens read. -/
def Aligned (t : Text) (ts : List Token) : Prop :=
  ∀ name ∈ matrixNames, ∀ command ∈ (["begin", "end"] : List Text),
    writtenTags command name 0 t = readTags command name ts

instance (t : Text) (ts : List Token) : Decidable (Aligned t ts) :=
  inferInstanceAs (Decidable (∀ name ∈ matrixNames, ∀ command ∈ (["begin", "end"] : List Text), _))

/-- The name in braces goes up to the first token that is no character. -/
theorem takeWhile_letters {letters us : List Token} {z : Token} (hl : ∀ t ∈ letters, t.kind = .char)
    (hz : z.kind = .closing .curly) :
    (letters ++ z :: us).takeWhile (·.kind == .char) = letters := by
  rw [List.takeWhile_append_of_pos fun t ht => by simp [hl t ht],
    List.takeWhile_cons_of_neg (by simp [hz]), List.append_nil]

theorem startsTag_iff :
    startsTag command name ts = true ↔ ∃ xs behind, ts = xs ++ behind ∧ Tag command name xs := by
  constructor
  · intro h
    unfold startsTag at h
    split at h
    · rename_i c o us
      simp only [Bool.and_eq_true, beq_iff_eq] at h
      obtain ⟨⟨⟨hc, ho⟩, hname⟩, hz⟩ := h
      have hletters : ∀ t ∈ us.takeWhile (·.kind == .char), t.kind = .char := fun t ht =>
        eq_of_beq (List.all_eq_true.mp List.all_takeWhile t ht)
      have hsplit : us.takeWhile (·.kind == .char) ++ us.dropWhile (·.kind == .char) = us :=
        List.takeWhile_append_dropWhile
      cases hrest : us.dropWhile (·.kind == .char) with
      | nil =>
          rw [hrest] at hz
          exact absurd hz (by simp)
      | cons z behind =>
          rw [hrest] at hz hsplit
          refine ⟨c :: o :: (us.takeWhile (·.kind == .char) ++ [z]), behind, ?_,
            .intro hc (.intro ho hletters hname (by simpa using hz))⟩
          rw [List.cons_append, List.cons_append, List.append_assoc, List.singleton_append, hsplit]
    · exact absurd h (by simp)
  · rintro ⟨xs, behind, rfl, htag⟩
    cases htag with
    | intro hc hnamed =>
    cases hnamed with
    | @intro o z letters ho hletters hname hz =>
        have htake : (letters ++ z :: behind).takeWhile (·.kind == .char) = letters :=
          takeWhile_letters hletters hz
        have hdrop : (letters ++ z :: behind).dropWhile (·.kind == .char) = z :: behind := by
          rw [List.dropWhile_append_of_pos fun t ht => by simp [hletters t ht],
            List.dropWhile_cons_of_neg (by simp [hz])]
        simp [startsTag, hc, ho, htake, hdrop, hname, hz]

/-- The tokens have a tag whose command begins at an offset. -/
def TagAt (command name : Text) (ts : List Token) (i : Nat) : Prop :=
  ∃ before c xs behind, ts = before ++ ((c :: xs) ++ behind) ∧ Tag command name (c :: xs)
    ∧ c.start = i

theorem tagAt_cons {i : Nat} :
    TagAt command name (k :: ts) i
      ↔ (startsTag command name (k :: ts) = true ∧ i = k.start) ∨ TagAt command name ts i := by
  constructor
  · rintro ⟨before, c, xs, behind, hsplit, htag, rfl⟩
    cases before with
    | nil =>
        have hk := (List.cons.inj hsplit).1
        exact Or.inl ⟨startsTag_iff.mpr ⟨_, behind, hsplit, htag⟩, by rw [hk]⟩
    | cons b before => exact Or.inr ⟨before, c, xs, behind, (List.cons.inj hsplit).2, htag, rfl⟩
  · rintro (⟨hstarts, rfl⟩ | ⟨before, c, xs, behind, rfl, htag, rfl⟩)
    · obtain ⟨xs, behind, hsplit, htag⟩ := startsTag_iff.mp hstarts
      cases xs with
      | nil => cases htag
      | cons c xs =>
          have hk := (List.cons.inj hsplit).1
          exact ⟨[], c, xs, behind, hsplit, htag, by rw [hk]⟩
    · exact ⟨k :: before, c, xs, behind, rfl, htag, rfl⟩

theorem mem_readTags {i : Nat} : i ∈ readTags command name ts ↔ TagAt command name ts i := by
  induction ts with
  | nil =>
      constructor
      · intro h
        exact absurd h (by simp [readTags])
      · rintro ⟨before, c, xs, behind, hsplit, -⟩
        exact absurd hsplit (by simp)
  | cons k ts ih =>
      rw [readTags, tagAt_cons, ← ih]
      by_cases hstarts : startsTag command name (k :: ts) = true
      · rw [if_pos hstarts, List.mem_cons]
        simp [hstarts]
      · rw [if_neg hstarts]
        simp [hstarts]

theorem writtenTags_le : ∀ i ∈ writtenTags command name pos t, pos ≤ i := by
  induction t generalizing pos with
  | nil => exact fun i hi => absurd hi (by simp [writtenTags])
  | cons b r ih =>
      have hrest : ∀ i ∈ writtenTags command name (pos + 1) r, pos ≤ i := fun i hi =>
        Nat.le_of_succ_le (ih i hi)
      rw [writtenTags]
      split
      · exact List.forall_mem_cons.mpr ⟨Nat.le_refl _, hrest⟩
      · exact hrest

theorem mem_writtenTags {i : Nat} :
    pos + i ∈ writtenTags command name pos t ↔ tagText command name <+: t.drop i := by
  induction t generalizing pos i with
  | nil =>
      rw [List.drop_nil, List.prefix_nil]
      simp [writtenTags, tagText]
  | cons b r ih =>
      have hlate : pos ∉ writtenTags command name (pos + 1) r := fun hmem =>
        absurd (writtenTags_le _ hmem) (by omega)
      rw [writtenTags]
      cases i with
      | zero =>
          rw [Nat.add_zero, List.drop_zero, ← List.isPrefixOf_iff_prefix]
          split
          · simp [*]
          · simp [*]
      | succ i =>
          have hrest : pos + (i + 1) ∈ writtenTags command name (pos + 1) r
              ↔ tagText command name <+: r.drop i := by
            rw [show pos + (i + 1) = pos + 1 + i by omega]
            exact ih
          rw [List.drop_succ_cons, ← hrest]
          split
          · rw [List.mem_cons]
            simp
          · rfl

/-- A text that begins at an offset has the tags of a command where its tokens read them. -/
def TagsRead (command name : Text) (pos : Nat) (t : Text) (ts : List Token) : Prop :=
  ∀ i, tagText command name <+: t.drop i ↔ TagAt command name ts (pos + i)

/-- The tags of an environment are where the tokens of a text read them, and nowhere else. -/
structure Tagged (name : Text) (pos : Nat) (t : Text) (ts : List Token) : Prop where
  begins : TagsRead "begin" name pos t ts
  ends : TagsRead "end" name pos t ts

theorem Aligned.tagged (h : Aligned t ts) : ∀ name ∈ matrixNames, Tagged name 0 t ts := by
  intro name hname
  have hread : ∀ command ∈ (["begin", "end"] : List Text), TagsRead command name 0 t ts := by
    intro command hcommand i
    rw [← mem_writtenTags, h name hname command hcommand, mem_readTags]
  exact ⟨hread _ (by simp), hread _ (by simp)⟩

/-- Behind some tokens the tags are still where they are read. -/
theorem TagsRead.behind (h : TagsRead command name pos (w ++ r) (xs ++ ts))
    (hxs : ∀ x ∈ xs, x.start < pos + w.length) : TagsRead command name (pos + w.length) r ts := by
  intro i
  have hi := h (w.length + i)
  rw [← List.drop_drop, List.drop_left, ← Nat.add_assoc] at hi
  rw [hi]
  constructor
  · rintro ⟨before, c, zs, behind, hsplit, htag, hstart⟩
    rcases List.append_eq_append_iff.mp hsplit with ⟨a, rfl, hts⟩ | ⟨a, rfl, hzs⟩
    · exact ⟨a, c, zs, behind, hts, htag, hstart⟩
    · cases a with
      | nil => exact ⟨[], c, zs, behind, hzs.symm, htag, hstart⟩
      | cons x a =>
          -- the command would be one of the tokens before
          obtain rfl := (List.cons.inj hzs).1
          have := hxs c (by simp)
          omega
  · rintro ⟨before, c, zs, behind, rfl, htag, hstart⟩
    exact ⟨xs ++ before, c, zs, behind, by simp, htag, hstart⟩

/-- A tag is read in one way only. -/
theorem Tag.unique {command' name' : Text} {us : List Token} (h : Tag command name xs)
    (h' : Tag command' name' ys) (heq : xs ++ ts = ys ++ us) :
    command = command' ∧ name = name' ∧ ts = us := by
  cases h with
  | @intro c zs hc hzs =>
  cases h' with
  | @intro c' zs' hc' hzs' =>
  cases hzs with
  | @intro o z letters ho hletters hname hz =>
  cases hzs' with
  | @intro o' z' letters' ho' hletters' hname' hz' =>
  have hcut : c = c' ∧ o = o' ∧ letters ++ z :: ts = letters' ++ z' :: us := by simpa using heq
  obtain ⟨rfl, -, heq⟩ := hcut
  have hsame : letters = letters' := by
    rw [← takeWhile_letters hletters hz, heq, takeWhile_letters hletters' hz']
  subst hsame
  rw [List.append_cancel_left_eq, List.cons.injEq] at heq
  refine ⟨?_, hname.symm.trans hname', heq.2⟩
  have h1 := (isCommand_iff.mp hc).2
  have h2 := (isCommand_iff.mp hc').2
  rw [List.mem_singleton] at h1 h2
  exact h1.symm.trans h2

/-! ## Bytes of tokens -/

/-- An `&` is a token of its own, or the command that stands for the sign itself. -/
theorem headLexeme_ampersand {b : UInt8} {kind : TokenKind} {text : Text} {width : Nat}
    (h : headLexeme b r = .token kind text width) (hamp : byte '&' ∈ (b :: r).take width) :
    (kind = .ampersand ∧ width = 1) ∨ (kind = .command ∧ text = "&") := by
  have hslash : byte '&' ≠ byte '\\' := by decide
  rcases headLexeme_cases h with ⟨rfl, hshape⟩ | ⟨-, -, rfl, -, rfl⟩
  · cases hshape with
    | rowBreak r => exact absurd hamp (by simp [hslash])
    | name c r hc =>
        have htake : r.take (r.takeWhile Text.isLetter).length = r.takeWhile Text.isLetter :=
          (List.prefix_iff_eq_take.mp (List.takeWhile_prefix _)).symm
        rw [List.take_succ_cons, List.take_succ_cons, htake] at hamp
        have hletter : Text.isLetter (byte '&') = true := by
          rcases List.mem_cons.mp hamp with heq | hamp
          · exact absurd heq hslash
          · rcases List.mem_cons.mp hamp with heq | hamp
            · rw [heq]
              exact hc
            · exact List.all_eq_true.mp List.all_takeWhile _ hamp
        exact absurd hletter (by decide)
    | sign c r _ _ =>
        have hc : c = byte '&' := by simpa [hslash, eq_comm] using hamp
        exact Or.inr ⟨rfl, by rw [hc]; rfl⟩
  · left
    rcases (headRune_width b r).2.2 _ hamp with rfl | hhigh
    · exact ⟨by decide, by rw [headRune_ascii (by decide)]⟩
    · exact absurd hhigh (by decide)

/-- A token that may be a separator for the grammar, or is one escaped. -/
def Token.Separates (k : Token) : Prop := k.kind = .ampersand ∨ k.isCommand ["&"] = true

/-- The bytes that some tokens cover, with the blanks before them. -/
theorem Cut.split (h : Cut pos t (xs ++ ts)) :
    ∃ w r, t = w ++ r ∧ Cut (pos + w.length) r ts ∧ (∀ x ∈ xs, x.start < pos + w.length)
      ∧ (byte '&' ∈ w → ∃ x ∈ xs, x.Separates) := by
  induction xs generalizing pos t with
  | nil => exact ⟨[], t, rfl, h, by simp, by simp⟩
  | cons k xs ih =>
      obtain ⟨blanks, b, r, width, rfl, hblanks, hstart, hstop, hlexeme, -, hcut⟩ := h.first
      obtain ⟨hpos, hwidth⟩ := headLexeme_width hlexeme
      obtain ⟨w, r', hsplit, hcut', hxs, hamp⟩ := ih hcut
      have hplace : k.stop = pos + (blanks ++ (b :: r).take width).length := by
        rw [List.length_append, List.length_take, Nat.min_eq_left hwidth, hstop, hstart]
        omega
      refine ⟨blanks ++ (b :: r).take width ++ w, r', ?_, ?_, ?_, ?_⟩
      · rw [List.append_assoc, List.append_assoc, ← hsplit, List.take_append_drop]
      · rw [List.length_append, ← Nat.add_assoc, ← hplace]
        exact hcut'
      · rw [List.length_append, ← Nat.add_assoc, ← hplace]
        refine List.forall_mem_cons.mpr ⟨?_, hxs⟩
        omega
      · intro hmem
        rcases List.mem_append.mp hmem with hmem | hmem
        · rcases List.mem_append.mp hmem with hmem | hmem
          · exact absurd (hblanks _ hmem) (by decide)
          · refine ⟨k, by simp, ?_⟩
            rcases headLexeme_ampersand hlexeme hmem with ⟨hk, -⟩ | ⟨hk, htext⟩
            · exact Or.inl hk
            · exact Or.inr (isCommand_iff.mpr ⟨hk, by rw [htext]; simp⟩)
        · obtain ⟨x, hx, hsep⟩ := hamp hmem
          exact ⟨x, List.mem_cons_of_mem _ hx, hsep⟩

/-- The token at the head of a text. -/
theorem Cut.head {b : UInt8} {kind : TokenKind} {text : Text} {width : Nat}
    (h : Cut pos (b :: r) ts) (hb : headLexeme b r = .token kind text width) :
    ∃ k us, ts = k :: us ∧ k.kind = kind ∧ k.text = text ∧ k.start = pos
      ∧ Cut (pos + width) ((b :: r).drop width) us := by
  cases h with
  | blank hb' _ =>
      rw [hb] at hb'
      exact absurd hb' (by simp)
  | token hb' hcut =>
      rw [hb] at hb'
      obtain ⟨rfl, rfl, rfl⟩ := Lexeme.token.inj hb'
      exact ⟨_, _, rfl, rfl, rfl, rfl, hcut⟩

theorem cut_letters {u : Text} (hu : ∀ b ∈ u, Text.isLetter b = true) (h : Cut pos (u ++ r) ts) :
    ∃ letters us, ts = letters ++ us ∧ (∀ l ∈ letters, l.kind = .char) ∧ texts letters = u
      ∧ (∀ l ∈ letters, l.start < pos + u.length) ∧ Cut (pos + u.length) r us := by
  induction u generalizing pos ts with
  | nil => exact ⟨[], ts, rfl, by simp, rfl, by simp, h⟩
  | cons b u ih =>
      have hb := hu b (by simp)
      have hlexeme : headLexeme b (u ++ r) = .token .char [b] 1 := by
        have hblank : ¬ Text.isBlank b = true := fun h => blank_not_letter h hb
        have hslash : b ≠ byte '\\' := by
          rintro rfl
          exact absurd hb (by decide)
        rw [headLexeme, if_neg hblank, if_neg (by simpa using hslash),
          headRune_ascii (letter_ascii hb), byteKind_letter hb]
        rfl
      obtain ⟨l, us, rfl, hk, htext, hstart, hcut⟩ := Cut.head h hlexeme
      obtain ⟨letters, vs, rfl, hkind, htexts, hstarts, hcut'⟩ :=
        ih (fun x hx => hu x (List.mem_cons_of_mem _ hx)) hcut
      refine ⟨l :: letters, vs, rfl, List.forall_mem_cons.mpr ⟨hk, hkind⟩, ?_, ?_, ?_⟩
      · rw [texts_cons, htexts, htext]
        rfl
      · rw [List.length_cons]
        refine List.forall_mem_cons.mpr ⟨by omega, fun l hl => ?_⟩
        have := hstarts l hl
        omega
      · rw [List.length_cons, Nat.add_comm u.length, ← Nat.add_assoc]
        exact hcut'

/-- A tag that is written without blanks is read as one. -/
theorem cut_tagText (hne : command ≠ []) (hcommand : ∀ b ∈ command, Text.isLetter b = true)
    (hname : ∀ b ∈ name, Text.isLetter b = true) (h : Cut pos (tagText command name ++ r) ts) :
    ∃ xs us, ts = xs ++ us ∧ Tag command name xs
      ∧ (∀ x ∈ xs, x.start < pos + (tagText command name).length)
      ∧ Cut (pos + (tagText command name).length) r us := by
  have hlength : (tagText command name).length = command.length + 1 + 1 + name.length + 1 := by
    simp only [tagText, List.length_cons, List.length_append, List.length_nil]
    omega
  have hbytes : tagText command name ++ r
      = byte '\\' :: (command ++ byte '\x7b' :: (name ++ byte '\x7d' :: r)) := by
    simp [tagText]
  rw [hbytes] at h
  -- the command
  have hfirst : ∀ u, headLexeme (byte '\\') (command ++ byte '\x7b' :: u)
      = .token .command command (command.length + 1) := by
    intro u
    have htake : (command ++ byte '\x7b' :: u).takeWhile Text.isLetter = command := by
      rw [List.takeWhile_append_of_pos hcommand, List.takeWhile_cons_of_neg (by decide),
        List.append_nil]
    cases hc : command with
    | nil => exact absurd hc hne
    | cons c cs =>
        have hletter : Text.isLetter c = true := hcommand c (by simp [hc])
        have hslash : c ≠ byte '\\' := by
          rintro rfl
          exact absurd hletter (by decide)
        rw [hc] at htake
        rw [headLexeme, if_neg (by decide), if_pos (by decide), List.cons_append, commandLexeme,
          if_neg (by simpa using hslash), if_pos hletter, ← List.cons_append, htake]
  obtain ⟨c, ts1, rfl, hck, hctext, hcstart, hcut1⟩ := Cut.head h (hfirst _)
  rw [List.drop_succ_cons, List.drop_left] at hcut1
  -- the name in its braces
  have hopen : headLexeme (byte '\x7b') (name ++ byte '\x7d' :: r)
      = .token (.opening .curly) [byte '\x7b'] 1 := rfl
  obtain ⟨o, ts2, rfl, hok, -, hostart, hcut2⟩ := Cut.head hcut1 hopen
  rw [List.drop_succ_cons, List.drop_zero] at hcut2
  obtain ⟨letters, ts3, rfl, hkind, htexts, hstarts, hcut3⟩ := cut_letters hname hcut2
  have hclose : headLexeme (byte '\x7d') r = .token (.closing .curly) [byte '\x7d'] 1 := rfl
  obtain ⟨z, us, rfl, hzk, -, hzstart, hcut4⟩ := Cut.head hcut3 hclose
  rw [List.drop_succ_cons, List.drop_zero] at hcut4
  have hc : c.isCommand [command] = true := isCommand_iff.mpr ⟨hck, by rw [hctext]; simp⟩
  refine ⟨c :: o :: (letters ++ [z]), us, by simp, .intro hc (.intro hok hkind htexts hzk), ?_, ?_⟩
  · intro x hx
    simp only [List.mem_cons, List.mem_append, List.not_mem_nil, or_false] at hx
    rcases hx with rfl | rfl | hx | rfl
    · omega
    · omega
    · have := hstarts x hx
      omega
    · omega
  · rw [hlength]
    simpa only [Nat.add_assoc] using hcut4

/-- Where the tokens read a tag the text has it, behind blanks. -/
theorem Tag.written (h : Tag command name xs) (hne : command ≠ [])
    (hcommand : ∀ b ∈ command, Text.isLetter b = true) (hname : ∀ b ∈ name, Text.isLetter b = true)
    (hcut : Cut pos t (xs ++ ts)) (htags : TagsRead command name pos t (xs ++ ts)) :
    ∃ blanks r, t = (blanks ++ tagText command name) ++ r ∧ (∀ x ∈ blanks, Text.isBlank x = true)
      ∧ (∀ x ∈ xs, x.start < pos + (blanks ++ tagText command name).length)
      ∧ Cut (pos + (blanks ++ tagText command name).length) r ts := by
  obtain ⟨c, zs, rfl⟩ : ∃ c zs, xs = c :: zs := by
    cases h
    exact ⟨_, _, rfl⟩
  obtain ⟨blanks, b, r0, width, rfl, hblanks, hstart, -, -, hhere, -⟩ := Cut.first hcut
  have hat : tagText command name <+: b :: r0 := by
    have := (htags blanks.length).mpr ⟨[], c, zs, ts, rfl, h, hstart⟩
    rw [List.drop_left] at this
    exact this
  obtain ⟨r, hr⟩ := hat
  rw [← hr] at hhere
  obtain ⟨xs', us, hsplit, htag, hstarts, hbehind⟩ := cut_tagText hne hcommand hname hhere
  obtain ⟨-, -, rfl⟩ := h.unique htag hsplit
  have hsame : c :: zs = xs' :=
    List.append_cancel_right (show (c :: zs) ++ ts = xs' ++ ts from hsplit)
  subst hsame
  refine ⟨blanks, r, ?_, hblanks, ?_, ?_⟩
  · rw [List.append_assoc, hr]
  · rw [List.length_append, ← Nat.add_assoc, ← hstart]
    exact hstarts
  · rw [List.length_append, ← Nat.add_assoc, ← hstart]
    exact hbehind

/-! ## Where no tag is read -/

/-- None of some tokens begins a tag, with the tokens behind them. -/
def TagFree (command name : Text) (xs ts : List Token) : Prop :=
  ∀ before c ys, xs = before ++ c :: ys →
    ¬ ∃ zs behind, c :: (ys ++ ts) = zs ++ behind ∧ Tag command name zs

/-- A token that is not the command of a tag begins none. -/
theorem tagFree_of_commands (h : ∀ x ∈ xs, x.isCommand [command] = false) :
    TagFree command name xs ts := by
  rintro before c ys rfl ⟨zs, behind, hsplit, htag⟩
  cases htag with
  | intro hc _ =>
      obtain rfl := (List.cons.inj hsplit).1
      rw [h c (by simp)] at hc
      exact absurd hc (by simp)

/-- In a tag only its command begins one, and no other. -/
theorem Tag.tagFree {command' name' : Text} (h : Tag command name xs)
    (hne : ¬ (command' = command ∧ name' = name)) : TagFree command' name' xs ts := by
  rintro before c ys hxs ⟨zs, behind, hsplit, htag⟩
  cases before with
  | nil =>
      rw [List.nil_append] at hxs
      have hsame : zs ++ behind = xs ++ ts := by
        rw [hxs, ← hsplit]
        rfl
      obtain ⟨hcommand, hname, -⟩ := htag.unique h hsame
      exact hne ⟨hcommand, hname⟩
  | cons b before =>
      have hnot : ∀ x ∈ before ++ c :: ys, x.isCommand [command'] = false := by
        cases h with
        | intro _ hnamed =>
            obtain ⟨-, rfl⟩ := List.cons.inj hxs
            intro x hx
            rcases hnamed.kind x hx with hk | hk | hk <;>
              exact isCommand_of_kind (by rw [hk]; simp) _
      exact tagFree_of_commands hnot before c ys rfl ⟨zs, behind, hsplit, htag⟩

theorem Tiled.start_le {stop lo : Nat} (h : Tiled stop lo ts) : ∀ x ∈ ts, lo ≤ x.start := by
  induction ts generalizing lo with
  | nil => exact fun x hx => absurd hx (by simp)
  | cons k ts ih =>
      refine List.forall_mem_cons.mpr ⟨h.1, fun x hx => ?_⟩
      have := ih h.2.2 x hx
      have := h.2.1
      have := h.1
      omega

/-- Over tokens that begin no tag the text has none. -/
theorem TagsRead.none (h : TagsRead command name pos (w ++ r) (xs ++ ts))
    (hcut : Cut (pos + w.length) r ts) (hfree : TagFree command name xs ts) {i : Nat}
    (hi : i < w.length) : ¬ tagText command name <+: (w ++ r).drop i := by
  rw [h i]
  rintro ⟨before, c, zs, behind, hsplit, htag, hstart⟩
  -- the tokens behind begin where the bytes end
  have hlate : c ∉ ts := by
    intro hmem
    have := hcut.tiled.start_le c hmem
    omega
  rcases List.append_eq_append_iff.mp hsplit with ⟨a, rfl, rfl⟩ | ⟨a, rfl, hzs⟩
  · exact hlate (by simp)
  · cases a with
    | nil => exact hlate (by rw [List.nil_append] at hzs; rw [← hzs]; simp)
    | cons x a =>
        obtain ⟨rfl, hrest⟩ := List.cons.inj hzs
        exact hfree before c a rfl ⟨c :: zs, behind, by rw [hzs]; rfl, htag⟩

/-- The tags of an environment do not begin with any of some bytes. -/
def Unmarked (name w r : Text) : Prop :=
  ∀ i, i < w.length → ¬ beginTag name <+: (w ++ r).drop i ∧ ¬ endTag name <+: (w ++ r).drop i

theorem Tagged.unmarked (h : Tagged name pos (w ++ r) (xs ++ ts)) (hcut : Cut (pos + w.length) r ts)
    (hbegin : TagFree "begin" name xs ts) (hend : TagFree "end" name xs ts) :
    Unmarked name w r := by
  intro i hi
  rw [beginTag_eq, endTag_eq]
  exact ⟨h.begins.none hcut hbegin hi, h.ends.none hcut hend hi⟩

theorem unmarked_blanks (hw : ∀ x ∈ w, Text.isBlank x = true) (r : Text) : Unmarked name w r := by
  intro i hi
  rw [List.drop_append_of_le_length (Nat.le_of_lt hi), List.drop_eq_getElem_cons hi,
    List.cons_append]
  have hblank := hw (w[i]) (List.getElem_mem hi)
  have hslash : byte '\\' ≠ w[i] := by
    intro heq
    rw [← heq] at hblank
    exact absurd hblank (by decide)
  constructor
  · intro hp
    exact hslash (List.cons_prefix_cons.mp hp).1
  · intro hp
    exact hslash (List.cons_prefix_cons.mp hp).1

/-- Bytes that begin no tag may stand before what closes an environment. -/
theorem Unmarked.closes {d : Nat} {y : Text} (hno : Unmarked name w r) (hy : y <+: r)
    (h : Closes name (d + 1) y) : Closes name (d + 1) (w ++ y) := by
  induction w with
  | nil => exact h
  | cons b w ih =>
      have hrest : Unmarked name w r := fun i hi => hno (i + 1) (by simpa using hi)
      have hhere := hno 0 (by simp)
      have hle : b :: (w ++ y) <+: b :: w ++ r :=
        List.cons_prefix_cons.mpr ⟨rfl, (List.prefix_append_right_inj w).mpr hy⟩
      refine Closes.cons (fun hp => hhere.1 ?_) (fun hp => hhere.2 ?_) (ih hrest)
      · exact hp.trans hle
      · exact hp.trans hle

/-! ## Tokens and the bytes they cover -/

/-- The bytes `w` of a text, before `r`, and the tokens `xs` that cover them, before `ts`. -/
structure Passed (matrix : Bool) (pos : Nat) (w r : Text) (xs ts : List Token) : Prop where
  cut : Cut (pos + w.length) r ts
  starts : ∀ x ∈ xs, x.start < pos + w.length
  closes : ∀ name ∈ matrixNames, ∀ (d : Nat) (y : Text), y <+: r → Closes name (d + 1) y →
    Closes name (d + 1) (w ++ y)
  kept : matrix = false → ∀ i, w[i]? = some (byte '&') → ∃ name ∈ matrixNames, Enclosed name w i

/-- Wherever some tokens stand in a text whose matrix tags are read, they pass. -/
def Passable (matrix : Bool) (xs ts : List Token) : Prop :=
  ∀ pos t, Cut pos t (xs ++ ts) → (∀ name ∈ matrixNames, Tagged name pos t (xs ++ ts)) →
    ∃ w r, t = w ++ r ∧ Passed matrix pos w r xs ts

theorem Tagged.behind (h : Tagged name pos (w ++ r) (xs ++ ts))
    (hxs : ∀ x ∈ xs, x.start < pos + w.length) : Tagged name (pos + w.length) r ts :=
  ⟨h.begins.behind hxs, h.ends.behind hxs⟩

variable {matrix : Bool}

theorem passable_nil (ts : List Token) : Passable matrix [] ts := by
  intro pos t hcut _
  exact ⟨[], t, rfl, hcut, by simp, fun _ _ _ _ _ h => h, by simp⟩

theorem Passed.append {w' : Text} (h : Passed matrix pos w (w' ++ r) xs (ys ++ ts))
    (h' : Passed matrix (pos + w.length) w' r ys ts) :
    Passed matrix pos (w ++ w') r (xs ++ ys) ts := by
  have hlength : pos + (w ++ w').length = pos + w.length + w'.length := by
    rw [List.length_append, Nat.add_assoc]
  refine ⟨?_, ?_, fun name hname d y hy hcloses => ?_, fun hm i hi => ?_⟩
  · rw [hlength]
    exact h'.cut
  · rw [hlength]
    refine List.forall_mem_append.mpr ⟨fun x hx => ?_, h'.starts⟩
    have := h.starts x hx
    omega
  · rw [List.append_assoc]
    exact h.closes name hname d _ ((List.prefix_append_right_inj w').mpr hy)
      (h'.closes name hname d y hy hcloses)
  · rcases Nat.lt_or_ge i w.length with hlt | hge
    · rw [List.getElem?_append_left hlt] at hi
      obtain ⟨name, hname, henc⟩ := h.kept hm i hi
      exact ⟨name, hname, henc.append_right w'⟩
    · rw [List.getElem?_append_right hge] at hi
      obtain ⟨name, hname, henc⟩ := h'.kept hm _ hi
      have := henc.append w
      rw [Nat.add_sub_cancel' hge] at this
      exact ⟨name, hname, this⟩

theorem Passable.append (h : Passable matrix xs (ys ++ ts)) (h' : Passable matrix ys ts) :
    Passable matrix (xs ++ ys) ts := by
  intro pos t hcut htags
  rw [List.append_assoc] at hcut htags
  obtain ⟨w, r, rfl, hpassed⟩ := h pos t hcut htags
  obtain ⟨w', r', rfl, hpassed'⟩ := h' _ r hpassed.cut fun name hname =>
    (htags name hname).behind hpassed.starts
  exact ⟨w ++ w', r', (List.append_assoc _ _ _).symm, hpassed.append hpassed'⟩

theorem Passable.of_false (h : Passable false xs ts) : Passable matrix xs ts := by
  intro pos t hcut htags
  obtain ⟨w, r, rfl, hpassed⟩ := h pos t hcut htags
  exact ⟨w, r, rfl, hpassed.cut, hpassed.starts, hpassed.closes, fun _ => hpassed.kept rfl⟩

/-- Tokens that begin no matrix tag pass, unless they separate cells outside of a matrix. -/
theorem passable_of_tagFree
    (hfree : ∀ name ∈ matrixNames, TagFree "begin" name xs ts ∧ TagFree "end" name xs ts)
    (hamp : matrix = false → ∀ x ∈ xs, ¬ x.Separates) : Passable matrix xs ts := by
  intro pos t hcut htags
  obtain ⟨w, r, rfl, hcut', hstarts, hsep⟩ := hcut.split
  refine ⟨w, r, rfl, hcut', hstarts, fun name hname d y hy hcloses => ?_, fun hm i hi => ?_⟩
  · obtain ⟨hbegin, hend⟩ := hfree name hname
    exact ((htags name hname).unmarked hcut' hbegin hend).closes hy hcloses
  · obtain ⟨x, hx, hx'⟩ := hsep (List.mem_of_getElem? hi)
    exact absurd hx' (hamp hm x hx)

/-- The environments that are matrices. -/
theorem lookup_determinant {type : EnvironmentType} (h : environments.lookup name = some type) :
    type = .determinant ↔ name ∈ matrixNames := by
  obtain ⟨before, behind, hsplit, -⟩ := List.lookup_eq_some_iff.mp h
  have hall : ∀ e ∈ environments, e.2 = .determinant ↔ e.1 ∈ matrixNames := by decide
  exact hall (name, type) (by rw [hsplit]; simp)

theorem matrixNames_letters : ∀ name ∈ matrixNames, ∀ b ∈ name, Text.isLetter b = true := by
  have hall : (matrixNames.all fun name => name.all Text.isLetter) = true := by decide
  intro name hname
  exact List.all_eq_true.mp (List.all_eq_true.mp hall name hname)

/-- The tokens of a tag separate nothing. -/
theorem Tag.not_separates (h : Tag command name xs) (hne : command ≠ "&") :
    ∀ x ∈ xs, ¬ x.Separates := by
  obtain ⟨hc, hnamed⟩ := h
  obtain ⟨hk, htext⟩ := isCommand_iff.mp hc
  refine List.forall_mem_cons.mpr ⟨?_, fun x hx hsep => ?_⟩
  · rintro (hamp | hamp)
    · rw [hk] at hamp
      exact absurd hamp (by simp)
    · have := (isCommand_iff.mp hamp).2
      rw [List.mem_singleton] at htext this
      exact hne (htext.symm.trans this)
  · rcases hsep with hamp | hamp
    · rcases hnamed.kind x hx with hk | hk | hk <;> rw [hk] at hamp <;> exact absurd hamp (by simp)
    · have := (isCommand_iff.mp hamp).1
      rcases hnamed.kind x hx with hk | hk | hk <;> rw [hk] at this <;> exact absurd this (by simp)

/-- An environment that is no matrix has tags of its own name only. -/
theorem passable_tag (h : Tag command name xs) (hcommand : command = "begin" ∨ command = "end")
    (hname : name ∉ matrixNames) : Passable matrix xs ts := by
  refine passable_of_tagFree (fun name' hname' => ?_) fun _ => h.not_separates ?_
  · have hne : name' ≠ name := by
      rintro rfl
      exact hname hname'
    exact ⟨h.tagFree fun heq => hne heq.2, h.tagFree fun heq => hne heq.2⟩
  · rcases hcommand with rfl | rfl <;> decide

/-- What closes an environment outside of a matrix closes it before the matrix. -/
theorem closes_matrix {blanks blanks' y : Text} {d : Nat} (hnoslash : byte '\\' ∉ name)
    (hblanks : ∀ x ∈ blanks, Text.isBlank x = true)
    (hblanks' : ∀ x ∈ blanks', Text.isBlank x = true)
    (hbody : ∀ y, y <+: blanks' ++ endTag name ++ r → Closes name (d + 2) y →
      Closes name (d + 2) (w ++ y))
    (hy : y <+: r) (h : Closes name (d + 1) y) :
    Closes name (d + 1) (blanks ++ beginTag name ++ (w ++ (blanks' ++ endTag name)) ++ y) := by
  have hended : Closes name (d + 2) (blanks' ++ (endTag name ++ y)) :=
    (unmarked_blanks hblanks' (endTag name ++ y)).closes (List.prefix_refl _) (h.ended hnoslash)
  have hpassed : Closes name (d + 2) (w ++ (blanks' ++ (endTag name ++ y))) := by
    refine hbody _ ?_ hended
    rw [← List.append_assoc]
    exact (List.prefix_append_right_inj _).mpr hy
  have hbegun := (unmarked_blanks hblanks _).closes (List.prefix_refl _) (hpassed.begun hnoslash)
  simpa using hbegun

/-- A separator in the bytes of a matrix stands behind the blanks, in the environment. -/
theorem enclosed_matrix {blanks blanks' : Text} {i : Nat} (hnoslash : byte '\\' ∉ name)
    (hblanks : ∀ x ∈ blanks, Text.isBlank x = true)
    (hblanks' : ∀ x ∈ blanks', Text.isBlank x = true)
    (hbody : ∀ y, y <+: blanks' ++ endTag name ++ r → Closes name 1 y → Closes name 1 (w ++ y))
    (hi : (blanks ++ beginTag name ++ (w ++ (blanks' ++ endTag name)))[i]? = some (byte '&')) :
    Enclosed name (blanks ++ beginTag name ++ (w ++ (blanks' ++ endTag name))) i := by
  have htag : Closes name 1 (endTag name) := by
    have := Closes.ended hnoslash closes_nil
    rwa [List.append_nil] at this
  have hended : Closes name 1 (blanks' ++ endTag name) :=
    (unmarked_blanks hblanks' (endTag name)).closes (List.prefix_refl _) htag
  have hterminated : Terminated name (beginTag name ++ (w ++ (blanks' ++ endTag name))) :=
    (hbody _ (List.prefix_append _ _) hended).terminated hnoslash
  refine ⟨blanks, _, [], ?_, hterminated, ?_, ?_⟩
  · simp
  · refine Nat.le_of_not_lt fun hlt => ?_
    rw [List.append_assoc, List.getElem?_append_left hlt] at hi
    exact absurd (hblanks _ (List.mem_of_getElem? hi)) (by decide)
  · have := (List.getElem?_eq_some_iff.mp hi).1
    rw [List.append_assoc, List.length_append] at this
    exact this

/-- **The bytes of a matrix are a terminated environment**, behind blanks. -/
theorem passable_matrix {body : List Token} (hname : name ∈ matrixNames)
    (hbegin : Tag "begin" name xs) (hbody : Passable true body (ys ++ ts))
    (hend : Tag "end" name ys) : Passable matrix (xs ++ (body ++ ys)) ts := by
  have hletters := matrixNames_letters name hname
  have hnoslash := matrixNames_no_slash name hname
  intro pos t hcut htags
  rw [List.append_assoc, List.append_assoc] at hcut htags
  -- the begin tag, the body, and the end tag
  obtain ⟨blanks, r1, rfl, hblanks, hstarts1, hcut1⟩ :=
    hbegin.written (by decide) (List.all_eq_true.mp (by decide)) hletters hcut
      (htags name hname).begins
  have htags1 : ∀ name ∈ matrixNames, Tagged name _ r1 (body ++ (ys ++ ts)) := fun name hname =>
    (htags name hname).behind hstarts1
  obtain ⟨w, r2, rfl, hpassed⟩ := hbody _ r1 hcut1 htags1
  have htags2 : ∀ name ∈ matrixNames, Tagged name _ r2 (ys ++ ts) := fun name hname =>
    (htags1 name hname).behind hpassed.starts
  obtain ⟨blanks', r, rfl, hblanks', hstarts2, hcut2⟩ :=
    hend.written (by decide) (List.all_eq_true.mp (by decide)) hletters hpassed.cut
      (htags2 name hname).ends
  have hlength : ∀ {u v v' : Text}, pos + (u ++ (v ++ v')).length
      = pos + u.length + v.length + v'.length := by
    intro u v v'
    rw [List.length_append, List.length_append]
    omega
  refine ⟨blanks ++ tagText "begin" name ++ (w ++ (blanks' ++ tagText "end" name)), r, by simp,
    ?_, ?_, fun name' hname' d y hy hcloses => ?_, fun _ i hi => ?_⟩
  · rw [hlength]
    exact hcut2
  · rw [hlength]
    intro x hx
    rcases List.mem_append.mp hx with hx | hx
    · have := hstarts1 x hx
      omega
    rcases List.mem_append.mp hx with hx | hx
    · have := hpassed.starts x hx
      omega
    · exact hstarts2 x hx
  · by_cases hsame : name' = name
    · subst hsame
      rw [← beginTag_eq, ← endTag_eq] at *
      exact closes_matrix hnoslash hblanks hblanks' (hpassed.closes name' hname (d + 1)) hy hcloses
    · -- the tags of this matrix are none of another environment
      have hfirst : Unmarked name' (blanks ++ tagText "begin" name) _ :=
        (htags name' hname').unmarked hcut1 (hbegin.tagFree fun heq => hsame heq.2)
          (hbegin.tagFree fun heq => hsame heq.2)
      have hlast : Unmarked name' (blanks' ++ tagText "end" name) r :=
        (htags2 name' hname').unmarked hcut2 (hend.tagFree fun heq => hsame heq.2)
          (hend.tagFree fun heq => hsame heq.2)
      have hbehind := hpassed.closes name' hname' d _ ((List.prefix_append_right_inj _).mpr hy)
        (hlast.closes hy hcloses)
      rw [List.append_assoc, List.append_assoc w]
      refine hfirst.closes ?_ hbehind
      rw [List.prefix_append_right_inj, List.prefix_append_right_inj]
      exact hy
  · rw [← beginTag_eq, ← endTag_eq] at *
    exact ⟨name, hname, enclosed_matrix hnoslash hblanks hblanks' (hpassed.closes name hname 0) hi⟩

/-- **Framed tokens pass.** -/
theorem Framed.passable (h : Framed matrix xs) (ts : List Token) : Passable matrix xs ts := by
  have one : ∀ {k : Token} {matrix : Bool} (ts : List Token), k.isCommand ["begin"] = false →
      k.isCommand ["end"] = false → (matrix = false → ¬ k.Separates) → Passable matrix [k] ts := by
    intro k matrix ts hbegin hend hsep
    refine passable_of_tagFree (fun name _ => ⟨tagFree_of_commands ?_, tagFree_of_commands ?_⟩)
      fun hm => ?_
    · simpa using hbegin
    · simpa using hend
    · simpa using hsep hm
  have bracket : ∀ {k : Token} {matrix : Bool} (ts : List Token), k.kind ≠ .command →
      k.kind ≠ .ampersand → Passable matrix [k] ts := by
    intro k matrix ts hk hamp
    refine one ts (isCommand_of_kind hk _) (isCommand_of_kind hk _) fun _ hsep => ?_
    rcases hsep with hsep | hsep
    · exact hamp hsep
    · exact hk (isCommand_iff.mp hsep).1
  induction h generalizing ts with
  | nil => exact passable_nil ts
  | @plain matrix t us ht _ ih =>
      refine (one (us ++ ts) (ht.not_command (by decide)) (ht.not_command (by decide))
        fun _ hsep => ?_).append (ih ts)
      rcases hsep with hsep | hsep
      · exact ht.separator hsep
      · rw [ht.not_command (by decide)] at hsep
        exact absurd hsep (by simp)
  | @separator t us ht _ ih =>
      have hk : t.kind ≠ .command := by
        rw [ht]
        simp
      exact (one (us ++ ts) (isCommand_of_kind hk _) (isCommand_of_kind hk _)
        fun hm => absurd hm (by simp)).append (ih ts)
  | @group matrix k o z us vs ho _ hz _ ihx iht =>
      have hcut : o :: (us ++ z :: vs) = [o] ++ (us ++ ([z] ++ vs)) := by simp
      rw [hcut]
      have hopen : ∀ ts, Passable matrix [o] ts := fun ts =>
        bracket ts (by rw [ho]; simp) (by rw [ho]; simp)
      have hclose : ∀ ts, Passable matrix [z] ts := fun ts =>
        bracket ts (by rw [hz]; simp) (by rw [hz]; simp)
      exact (hopen _).append ((ihx _).of_false.append ((hclose _).append (iht ts)))
  | @environment matrix name type us body vs rest htype hbegin _ hend _ ihbody ih =>
      have hassoc : us ++ (body ++ (vs ++ rest)) = us ++ (body ++ vs) ++ rest := by simp
      by_cases hname : name ∈ matrixNames
      · have hmatrix : (type == .determinant) = true := by
          rw [(lookup_determinant htype).mpr hname]
          rfl
        rw [hmatrix] at ihbody
        rw [hassoc]
        exact (passable_matrix hname hbegin (ihbody _) hend).append (ih ts)
      · have hmatrix : (type == .determinant) = false := by
          rw [beq_eq_false_iff_ne]
          exact fun heq => hname ((lookup_determinant htype).mp heq)
        rw [hmatrix] at ihbody
        exact (passable_tag hbegin (Or.inl rfl) hname).append ((ihbody _).of_false.append
          ((passable_tag hend (Or.inr rfl) hname).append (ih ts)))

/-! ## Accepted texts -/

theorem Cut.blank_of_nil (h : Cut pos t []) : ∀ x ∈ t, Text.isBlank x = true := by
  generalize hts : ([] : List Token) = ts at h
  induction h with
  | finish => exact fun x hx => absurd hx (by simp)
  | blank hb _ ih => exact List.forall_mem_cons.mpr ⟨headLexeme_blank hb, ih hts⟩
  | token => exact absurd hts (by simp)

/-- Where the matrix tags of a text are those that its tokens read, every separator lies in a matrix
environment of the text. -/
theorem Framed.enclosed (h : Framed false ts) (hcut : Cut 0 t ts)
    (htags : ∀ name ∈ matrixNames, Tagged name 0 t ts) {i : Nat} (hi : t[i]? = some (byte '&')) :
    ∃ name ∈ matrixNames, Enclosed name t i := by
  have hall : ts = ts ++ [] := (List.append_nil ts).symm
  rw [hall] at hcut htags
  obtain ⟨w, r, rfl, hpassed⟩ := h.passable [] 0 t hcut htags
  rcases Nat.lt_or_ge i w.length with hlt | hge
  · rw [List.getElem?_append_left hlt] at hi
    obtain ⟨name, hname, henclosed⟩ := hpassed.kept rfl i hi
    exact ⟨name, hname, henclosed.append_right r⟩
  · -- behind the last token there are blanks only
    rw [List.getElem?_append_right hge] at hi
    exact absurd (hpassed.cut.blank_of_nil _ (List.mem_of_getElem? hi)) (by decide)

/-- Every `&` of a text is a token, or belongs to such a command. -/
theorem Cut.ampersand (h : Cut pos t ts) {i : Nat} (hi : t[i]? = some (byte '&')) :
    ∃ k ∈ ts, (k.kind = .ampersand ∧ k.start = pos + i) ∨ k.isCommand ["&"] = true := by
  induction h generalizing i with
  | finish => exact absurd hi (by simp)
  | @blank pos b r ts hb _ ih =>
      cases i with
      | zero =>
          obtain rfl : b = byte '&' := by simpa using hi
          exact absurd (headLexeme_blank hb) (by decide)
      | succ i =>
          obtain ⟨k, hk, hplace⟩ := ih hi
          refine ⟨k, hk, hplace.imp_left fun hk => ⟨hk.1, ?_⟩⟩
          have := hk.2
          omega
  | @token pos b r kind text width ts hb _ ih =>
      rcases Nat.lt_or_ge i width with hlt | hge
      · refine ⟨_, List.mem_cons_self .., ?_⟩
        have hmem : byte '&' ∈ (b :: r).take width := by
          refine List.mem_of_getElem? (i := i) ?_
          rw [List.getElem?_take_of_lt hlt]
          exact hi
        rcases headLexeme_ampersand hb hmem with ⟨rfl, rfl⟩ | ⟨rfl, rfl⟩
        · exact Or.inl ⟨rfl, by dsimp only; omega⟩
        · exact Or.inr rfl
      · rw [← Nat.add_sub_cancel' hge, ← List.getElem?_drop] at hi
        obtain ⟨k, hk, hplace⟩ := ih hi
        refine ⟨k, List.mem_cons_of_mem _ hk, hplace.imp_left fun hk => ⟨hk.1, ?_⟩⟩
        have := hk.2
        omega

theorem Framed.no_escape (h : Framed matrix ts) : ∀ k ∈ ts, k.isCommand ["&"] = false := by
  have htag : ∀ {command name : Text} {xs : List Token}, Tag command name xs → command ≠ "&" →
      ∀ k ∈ xs, k.isCommand ["&"] = false := by
    intro command name xs htag hne k hk
    rw [← Bool.not_eq_true]
    exact fun hc => htag.not_separates hne k hk (Or.inr hc)
  induction h with
  | nil => exact fun k hk => absurd hk (by simp)
  | plain ht _ ih =>
      exact List.forall_mem_cons.mpr ⟨ht.not_command (by decide), ih⟩
  | separator ht _ ih =>
      exact List.forall_mem_cons.mpr ⟨isCommand_of_kind (by rw [ht]; simp) _, ih⟩
  | group ho _ hz _ ihx iht =>
      refine List.forall_mem_cons.mpr ⟨isCommand_of_kind (by rw [ho]; simp) _,
        List.forall_mem_append.mpr ⟨ihx, List.forall_mem_cons.mpr ⟨?_, iht⟩⟩⟩
      exact isCommand_of_kind (by rw [hz]; simp) _
  | environment _ hbegin _ hend _ ihbody ih =>
      exact List.forall_mem_append.mpr ⟨htag hbegin (by decide), List.forall_mem_append.mpr
        ⟨ihbody, List.forall_mem_append.mpr ⟨htag hend (by decide), ih⟩⟩⟩

/-- **Which separators of an accepted text are kept.** Every `&` of the text separates cells of a
matrix that is read. They are kept if they lie in matrix environments as the text spells them, and
only then; it is enough that the matrix tags of the text are those that are read. -/
theorem separators_kept_iff {limit : Nat} {tree : Node} (h : parse limit t = .ok tree) :
    ∃ ts, tokens t = .ok ts ∧ Framed false ts
      ∧ (∀ i, t[i]? = some (byte '&') → ∃ k ∈ ts, k.kind = .ampersand ∧ k.start = i)
      ∧ (blankSeparators t = t
        ↔ ∀ i, t[i]? = some (byte '&') → ∃ name ∈ matrixNames, Enclosed name t i)
      ∧ (Aligned t ts → blankSeparators t = t) := by
  obtain ⟨ts, htokens, hframed⟩ := parse_framed h
  have hcut := tokens_cut htokens
  refine ⟨ts, htokens, hframed, fun i hi => ?_, blankSeparators_eq_iff, fun haligned => ?_⟩
  · obtain ⟨k, hk, ⟨hkind, hstart⟩ | hescaped⟩ := hcut.ampersand hi
    · exact ⟨k, hk, hkind, by omega⟩
    · rw [hframed.no_escape k hk] at hescaped
      exact absurd hescaped (by simp)
  · exact blankSeparators_eq_iff.mpr fun i hi => hframed.enclosed hcut haligned.tagged hi

/-- A matrix of two rows, with something between the command and the name of its first tag. -/
def twoRows (between : Text) : Text :=
  "\\begin" ++ between ++ "\x7bmatrix\x7da&b\\\\c&d\\end\x7bmatrix\x7d"

/-- A blank in a tag is enough to lose the separators of a matrix that is read. -/
theorem spacedTag_separators :
    blankSeparators (twoRows []) = twoRows []
      ∧ (∃ tree, parse 2 (twoRows " ") = .ok tree) ∧ blankSeparators (twoRows " ") ≠ twoRows " "
      ∧ ¬ ∀ i, (twoRows " ")[i]? = some (byte '&') →
        ∃ name ∈ matrixNames, Enclosed name (twoRows " ") i := by
  obtain ⟨tree, hplain⟩ : ∃ tree, parse 2 (twoRows []) = .ok tree := ⟨_, rfl⟩
  obtain ⟨tree', hspaced⟩ : ∃ tree, parse 2 (twoRows " ") = .ok tree := ⟨_, rfl⟩
  obtain ⟨ts, htokens, -, -, -, hkept⟩ := separators_kept_iff hplain
  obtain ⟨-, -, -, -, hiff, -⟩ := separators_kept_iff hspaced
  have haligned : Aligned (twoRows []) ts := by
    cases htokens
    decide +kernel
  have hchanged : blankSeparators (twoRows " ") ≠ twoRows " " := by decide +kernel
  exact ⟨hkept haligned, ⟨tree', hspaced⟩, hchanged, fun hall => hchanged (hiff.mpr hall)⟩

end MathMarkup.Grammar
