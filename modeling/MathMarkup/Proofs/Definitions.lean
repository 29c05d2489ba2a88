import MathMarkup.Proofs.Groups

/-!
# Texts without commands, read and rendered

A text without commands is accepted if its brackets are nested, and it is rendered as it stands but
for its blanks (`commandFree_read`). The one exception is a text that begins with a definition, of a
function or of its inverse: it is rendered as a call of the solver.

Whether the tokens begin with a definition is decided before anything is read, by counting round
brackets only. In a nested text the count finds the bracket that really closes the variable
(`Nest.defining`).
-/

namespace MathMarkup.Grammar

open MathMarkup.Grammar.Parser
open MathMarkup.Bracket (Nested openAfter)
open MathMarkup.Text (byte)

variable {s : Scope} {l h : Nat} {f o z e : Token} {mid xs ys ts : List Token} {name : FunctionName}

/-! ## The head of a definition -/

/-- What stands between the letter and the variable of a definition. -/
inductive Head : FunctionName → List Token → Prop where
  | direct : Head .definition []
  | inverse {a b c d e : Token} : a.Literal → a.kind = .caret → a.text = "^" → b.Opens .curly →
      c.Literal → c.isChar "-" = true → d.Literal → d.isChar "1" = true → e.Closes .curly →
      Head .inverseDefinition [a, b, c, d, e]

theorem Head.nest (hm : Head name mid) : Nest mid := by
  cases hm with
  | direct => exact .nil
  | inverse ha _ _ hb hc _ hd _ he =>
      have hgroup : Nest (_ :: ([_, _] ++ _ :: [])) :=
        .group hb (.literal hc (.literal hd .nil)) he .nil
      exact .literal ha hgroup

/-- The text between the letter and the variable. -/
def headText : FunctionName → Text
  | .inverseDefinition => "^\x7b-1\x7d"
  | _ => []

theorem Head.texts (hm : Head name mid) : texts mid = headText name := by
  cases hm with
  | direct => rfl
  | inverse _ _ ha hb _ hc _ hd he =>
      simp only [texts_cons, texts_nil, ha, hb.2, (Token.isChar_text hc).2,
        (Token.isChar_text hd).2, he.2]
      rfl

theorem Head.startsInverse (hm : Head .inverseDefinition mid) (rest : List Token) :
    startsInverse (mid ++ rest) = true := by
  cases hm with
  | inverse _ ha _ hb _ hc _ hd he =>
      simp [Grammar.startsInverse, ha, hb.1, hc, hd, he.1]

/-- A letter, what stands behind it, and the variable make a definition. -/
theorem definitionHead?_of_head (hf : f.isLetter = true) (hm : Head name mid) {rest : List Token}
    (hrest : startsVariable rest = true) :
    definitionHead? (f :: (mid ++ rest)) = some (name, mid.length + 1) := by
  unfold definitionHead?
  dsimp only
  rw [if_neg (by simp [hf])]
  cases name with
  | inverseDefinition =>
      have hlength : mid.length = 5 := by
        cases hm
        rfl
      rw [if_pos (hm.startsInverse rest), List.drop_append_of_le_length (by omega),
        List.drop_eq_nil_of_le (by omega), List.nil_append, if_pos hrest, hlength]
  | definition =>
      cases hm
      have hstart : startsInverse rest = false := by
        unfold startsVariable at hrest
        split at hrest
        · rename_i t ts
          rw [Bool.and_eq_true, beq_iff_eq] at hrest
          rcases ts with _ | ⟨b, _ | ⟨c, _ | ⟨d, _ | ⟨e, ts⟩⟩⟩⟩ <;> simp [startsInverse, hrest.1]
        · exact absurd hrest (by simp)
      rw [List.nil_append, hstart, if_neg (by simp), if_pos hrest]
      rfl
  | _ => cases hm

theorem byteKind_caret {b : UInt8} (h : byteKind b = .caret) : b = byte '^' := by
  unfold byteKind at h
  split at h
  · exact absurd h (by simp)
  · exact absurd h (by simp)
  · split at h
    · exact absurd h (by simp)
    · split at h
      · rename_i hb
        exact eq_of_beq hb
      · split at h
        · exact absurd h (by simp)
        · split at h <;> exact absurd h (by simp)

theorem Token.Simple.caret {t : Token} (ht : t.Simple) (hk : t.kind = .caret) : t.text = "^" := by
  rcases ht.bytes with ⟨b, htext, hkind⟩ | ⟨hchar, _⟩
  · rw [htext, byteKind_caret (hkind.symm.trans hk)]
    rfl
  · rw [hchar] at hk
    exact absurd hk (by simp)

/-- The parts of a definition that is found. -/
theorem definitionHead?_parts {width : Nat} (hts : ∀ t ∈ ts, t.Simple)
    (hd : definitionHead? ts = some (name, width)) :
    ∃ f mid rest, ts = f :: (mid ++ rest) ∧ f.isLetter = true ∧ Head name mid
      ∧ width = mid.length + 1 ∧ startsVariable rest = true := by
  obtain ⟨f, mid, rest, rfl, hf, hwidth, hvariable, hmid⟩ := definitionHead?_split hd
  refine ⟨f, mid, rest, rfl, hf, ?_, hwidth, hvariable⟩
  have simple : ∀ t ∈ mid, t.Simple := fun t ht => hts t (by simp [ht])
  rcases hmid with ⟨rfl, rfl⟩ | ⟨rfl, a, b, c, d, e, rfl, ha, hb, hc, hd, he⟩
  · exact .direct
  · exact .inverse ((simple a (by simp)).literal (Or.inr (Or.inl ha))) ha
      ((simple a (by simp)).caret ha) ((simple b (by simp)).opens hb)
      ((simple c (by simp)).literal (Or.inl (Token.isChar_text hc).1)) hc
      ((simple d (by simp)).literal (Or.inl (Token.isChar_text hd).1)) hd
      ((simple e (by simp)).closes he)

/-! ## Tokens that begin with a definition -/

/-- A letter, what stands between it and the variable, the variable in its brackets, and the equals
sign behind it. -/
structure Defining (name : FunctionName) (f : Token) (mid : List Token) (o : Token)
    (xs : List Token) (z e : Token) : Prop where
  letter : f.isLetter = true
  head : Head name mid
  opening : o.Opens .round
  inner : Nest xs
  closing : z.Closes .round
  sign : e.isChar "=" = true

/-- The tokens of a definition whose body is `ys`. -/
def definingTokens (f : Token) (mid : List Token) (o : Token) (xs : List Token) (z e : Token)
    (ys : List Token) : List Token := f :: (mid ++ o :: (xs ++ z :: e :: ys))

theorem Defining.found (hd : Defining name f mid o xs z e) (ys : List Token) :
    definitionHead? (definingTokens f mid o xs z e ys) = some (name, mid.length + 1) := by
  refine definitionHead?_of_head hd.letter hd.head ?_
  rw [startsVariable_group hd.opening.1 hd.inner.framed.level hd.closing.1]
  simpa using hd.sign

theorem Token.Simple.letter (hs : f.Simple) (hf : f.isLetter = true) : f.Literal :=
  hs.literal (Or.inl (Token.isLetter_char hf))

/-- Nested tokens that begin with a definition have a nested body. -/
theorem Defining.body (hd : Defining name f mid o xs z e)
    (hts : ∀ t ∈ definingTokens f mid o xs z e ys, t.Simple)
    (hnest : Nest (definingTokens f mid o xs z e ys)) : Nest ys := by
  have hcut : definingTokens f mid o xs z e ys = (f :: mid ++ o :: (xs ++ z :: [e])) ++ ys := by
    simp [definingTokens]
  rw [hcut] at hts hnest
  have hbefore : Nest (f :: mid ++ o :: (xs ++ z :: [e])) := by
    have hf : f.Literal := (hts f (by simp)).letter hd.letter
    have he : e.Literal := (hts e (by simp)).literal (Or.inl (Token.isChar_text hd.sign).1)
    have hvariable := Nest.group hd.opening hd.inner hd.closing (.literal he .nil)
    exact (Nest.literal hf hd.head.nest).append hvariable
  refine (nest_iff fun t ht => hts t (List.mem_append_right _ ht)).mpr ?_
  rw [Nested, ← openAfter_nested hbefore.nested]
  exact hnest.nested

/-- The definition at the head of nested tokens. -/
theorem Nest.defining (hts : ∀ t ∈ ts, t.Simple) (hnest : Nest ts) {width : Nat}
    (hd : definitionHead? ts = some (name, width)) :
    ∃ f mid o xs z e ys, ts = definingTokens f mid o xs z e ys ∧ Defining name f mid o xs z e := by
  obtain ⟨f, mid, rest, rfl, hf, hm, -, hv⟩ := definitionHead?_parts hts hd
  have hhead : Nest (f :: mid) := .literal ((hts f (by simp)).letter hf) hm.nest
  have hopen : openAfter [] (texts rest) = some [] := by
    rw [← openAfter_nested hhead.nested]
    exact hnest.nested
  obtain ⟨o, ts, rfl, hround⟩ := startsVariable_opening hv
  have ho : o.Opens .round := (hts o (by simp)).opens hround
  have htail : ∀ t ∈ ts, t.Simple := fun t ht => hts t (by simp [ht])
  rw [openAfter_opening ho] at hopen
  rcases nest_split (Nat.le_refl _) htail hopen with
    ⟨hnil, _⟩ | ⟨k, st, xs, z, zs, hk, rfl, hx, hz, -⟩
  · exact absurd hnil (by simp)
  obtain ⟨rfl, rfl⟩ := List.cons.inj hk
  obtain ⟨e, ys, rfl, he⟩ := startsVariable_sign ho.1 hx.framed.level hz.1 hv
  exact ⟨f, mid, o, xs, z, e, ys, rfl, ⟨hf, hm, ho, hx, hz, he⟩⟩

/-! ## Rendering a definition -/

/-- The call that stands for a definition. -/
def definitionCall : FunctionName → Text
  | .inverseDefinition => "function_inverse"
  | _ => "function"

/-- A definition of `f` with the variable `v` and the body `b` as the solver has it. -/
def definitionText (name : FunctionName) (f v b : Text) : Text :=
  Solver.call (definitionCall name) [f, v] ++ "=" ++ b

theorem renderArguments_cons {limit depth : Nat} {n : Node} {ns : List Node} {x y : Text}
    {parts : List Text} (hn : Solver.renderAt limit depth n = .ok x)
    (hx : Solver.stripArgument x = .ok y)
    (hns : Solver.renderArguments limit depth ns = .ok parts) :
    Solver.renderArguments limit depth (n :: ns) = .ok (y :: parts) := by
  rw [Solver.renderArguments, hn]
  show (Solver.stripArgument x >>= _) = _
  rw [hx]
  show (Solver.renderArguments limit depth ns >>= _) = _
  rw [hns]
  rfl

theorem stripArgument_letter {b : UInt8} (hb : Text.isLetter b = true) :
    Solver.stripArgument [b] = .ok [b] := by
  have hne : ∀ k : Bracket, (b == k.opening) = false := by
    intro k
    refine beq_false_of_ne fun heq => ?_
    subst heq
    cases k <;> exact absurd hb (by decide)
  unfold Solver.stripArgument
  rw [if_neg]
  simp [hne]

theorem stripArgument_round (v : Text) :
    Solver.stripArgument (Bracket.round.around v) = .ok (Bracket.round.around v) := by
  unfold Solver.stripArgument
  rw [if_neg]
  show ¬ (Bracket.round.opening == Bracket.curly.opening
    || Bracket.round.opening == Bracket.square.opening) = true
  decide

theorem stripArgument_curly {b : Text} (hb : Nested b) :
    Solver.stripArgument (Bracket.curly.around b) = .ok b := by
  have hinner := Bracket.inner_around (k := .curly) hb []
  rw [List.append_nil] at hinner
  unfold Solver.stripArgument
  rw [if_pos, hinner]
  · rfl
  · show (Bracket.curly.opening == Bracket.curly.opening
      || Bracket.curly.opening == Bracket.square.opening) = true
    decide

theorem unwrap_round {v : Text} (hv : Nested v) :
    Solver.unwrap (Bracket.round.around v) = .ok v := by
  have hinner := Bracket.inner_around (k := .round) hv []
  rw [List.append_nil] at hinner
  unfold Solver.unwrap
  rw [if_pos, hinner]
  show (Bracket.ofOpening? Bracket.round.opening).isSome = true
  decide

/-- A definition is rendered as a call of its letter and its variable, and its body. -/
theorem writes_definition {a x y : Node} {b : UInt8} {v w : Text} {span : Span}
    (hm : Head name mid) (hb : Text.isLetter b = true) (hv : Nested v) (hw : Nested w)
    (ha : Writes h a [b]) (hx : Writes h x (Bracket.round.around v))
    (hy : Writes h y (Bracket.curly.around w)) :
    Writes (h + 1) (.function name [a, x, y] none span) (definitionText name [b] v w) := by
  intro limit depth hd
  have hdepth : depth + 1 + h ≤ limit := by omega
  have hargs : Solver.renderArguments limit (depth + 1) [a, x, y]
      = .ok [[b], Bracket.round.around v, w] :=
    renderArguments_cons (ha _ _ hdepth) (stripArgument_letter hb)
      (renderArguments_cons (hx _ _ hdepth) (stripArgument_round v)
        (renderArguments_cons (hy _ _ hdepth) (stripArgument_curly hw) rfl))
  have hformat : ∀ node, Solver.format node name [[b], Bracket.round.around v, w]
      = .ok (definitionText name [b] v w) := by
    intro node
    unfold Solver.format
    cases hm with
    | direct =>
        rw [Solver.format?, unwrap_round hv]
        rfl
    | inverse =>
        rw [Solver.format?, unwrap_round hv]
        rfl
  rw [Solver.renderAt, if_neg (by omega), hargs]
  show (Solver.format _ name [[b], Bracket.round.around v, w] >>= _) = _
  rw [hformat]
  rfl

/-! ## Reading a definition -/

theorem Token.letter_text {t : Token} (ht : t.isLetter = true) :
    ∃ b, t.text = [b] ∧ Text.isLetter b = true := by
  unfold Token.isLetter at ht
  rw [Bool.and_eq_true] at ht
  obtain ⟨-, htext⟩ := ht
  split at htext
  · exact ⟨_, ‹_›, htext⟩
  · exact absurd htext (by simp)

/-- **A definition is read to the end of the text**, with its variable and its body. -/
theorem Defining.read (hd : Defining name f mid o xs z e) (hf : f.Simple) (hys : Nest ys)
    (hdepth : s.depth + 1 + (xs.length + ys.length) ≤ s.limit)
    (hh : xs.length + ys.length + 1 ≤ h) :
    ∃ n c, definition grammar .finish s ⟨definingTokens f mid o xs z e ys, l⟩ = .ok (some n, c)
      ∧ c.rest = [] ∧ Writes (h + 1) n (definitionText name f.text (texts xs) (texts ys)) := by
  -- the variable in its brackets
  have htail : ∀ t ∈ z :: e :: ys, t.kind ≠ .command := by
    refine List.forall_mem_cons.mpr ⟨?_, List.forall_mem_cons.mpr ⟨?_, hys.no_commands⟩⟩
    · rw [hd.closing.1]
      simp
    · rw [(Token.isChar_text hd.sign).1]
      simp
  have hholds : Stop.holds (.kind (.closing .round)) (z :: e :: ys) = true := by
    show (z.kind == .closing .round) = true
    rw [hd.closing.1]
    exact beq_self_eq_true _
  obtain ⟨inner, c1, hrun1, hrest1, hinner⟩ :=
    hd.inner.read (s := { s with depth := s.depth + 1 }) (l := o.stop) (h := h - 1)
      (Or.inr ⟨.round, rfl⟩) hholds htail (by dsimp only; omega) (by omega) Builder.spells_empty
  -- the body behind the equals sign
  obtain ⟨body, c2, hrun2, hrest2, hbody⟩ :=
    hys.read (s := { s with depth := s.depth + 1 }) (l := e.stop) (h := h - 1) (Or.inl rfl)
      (rfl : Stop.holds .finish [] = true) (fun t ht => absurd ht (by simp)) (by dsimp only; omega)
      (by omega) Builder.spells_empty
  rw [List.append_nil] at hrun2
  rw [List.nil_append] at hinner hbody
  have hlook : lookahead s ⟨definingTokens f mid o xs z e ys, l⟩
      = .ok (definingTokens f mid o xs z e ys, ⟨definingTokens f mid o xs z e ys, l⟩) := rfl
  have hpeek : peek s ⟨definingTokens f mid o xs z e ys, l⟩
      = .ok (f, ⟨definingTokens f mid o xs z e ys, l⟩) := rfl
  obtain ⟨l1, hskip⟩ : ∃ l1, Parser.skip (mid.length + 1) s
      ⟨definingTokens f mid o xs z e ys, l⟩ = .ok ((), ⟨o :: (xs ++ z :: e :: ys), l1⟩) := by
    refine ⟨(Cursor.skip (mid.length + 1) ⟨definingTokens f mid o xs z e ys, l⟩).lastStop, ?_⟩
    have hrest := skip_drop (mid.length + 1) ⟨definingTokens f mid o xs z e ys, l⟩
    rw [definingTokens, List.drop_succ_cons, List.drop_left] at hrest
    rw [skip_eq, ← hrest]
    rfl
  have hnext : next s ⟨e :: ys, z.stop⟩ = .ok (e, ⟨ys, e.stop⟩) := rfl
  have hlast : peek s c2 = .ok (c2.token s.text.length 0, c2) := peekAt_eq 0
  refine ⟨.function name [unitAt f.text f.span,
    .expression (wrappingOf .round) inner ⟨o.start, z.stop⟩,
    argument body ⟨e.stop, (c2.token s.text.length 0).start⟩] none
    ⟨f.start, (c2.token s.text.length 0).start⟩, c2, ?_, hrest2, ?_⟩
  · rw [definition, bind_of_ok hlook, hd.found]
    dsimp only
    have hgroup := group_run (l := l1) hd.closing (by omega) hrun1 hrest1
    rw [bind_of_ok hpeek, bind_of_ok hskip, bind_of_ok hgroup,
      bind_of_ok hnext, bind_of_ok (sequence_run (by omega) hrun2), bind_of_ok hlast]
    rfl
  · obtain ⟨b, htext, hb⟩ := Token.letter_text hd.letter
    have hletter : Writes h (unitAt f.text f.span) [b] := by
      have := writes_unitAt (h := h) f.text f.span
      rw [(hf.letter hd.letter).valid, htext] at this
      rw [htext]
      exact this
    rw [htext] at hletter ⊢
    exact writes_definition hd.head hb hd.inner.nested hys.nested hletter
      ((writes_group hinner .round _).mono (by omega))
      ((writes_group hbody .curly _).mono (by omega))

/-! ## Definitions in the text -/

/-- A token that begins with an ASCII byte is this byte, and a text that goes on behind some tokens
with one is cut there. -/
theorem texts_split (hts : ∀ t ∈ ts, t.Simple) {p q : Text} {x : UInt8} (hx : x < 0x80)
    (h : texts ts = p ++ x :: q) :
    ∃ xs t ys, ts = xs ++ t :: ys ∧ texts xs = p ∧ t.text = [x] ∧ t.kind = byteKind x
      ∧ texts ys = q := by
  induction ts generalizing p with
  | nil => exact absurd h (by simp)
  | cons t ts ih =>
      have hrest : ∀ u ∈ ts, u.Simple := fun u hu => hts u (List.mem_cons_of_mem _ hu)
      -- behind the first token the text is cut as it is without it
      have hmore : ∀ p', p = t.text ++ p' → texts ts = p' ++ x :: q →
          ∃ xs u ys, t :: ts = xs ++ u :: ys ∧ texts xs = p ∧ u.text = [x] ∧ u.kind = byteKind x
            ∧ texts ys = q := by
        intro p' hp hq
        obtain ⟨xs, u, ys, rfl, hxs, hu, hk, hys⟩ := ih hrest hq
        exact ⟨t :: xs, u, ys, rfl, by rw [texts_cons, hxs, hp], hu, hk, hys⟩
      rw [texts_cons] at h
      rcases List.append_eq_append_iff.mp h with ⟨p', hp, hq⟩ | ⟨c, hp, hq⟩
      · exact hmore p' hp hq
      · cases c with
        | nil => exact hmore [] (by simpa using hp.symm) (by simpa using hq.symm)
        | cons y c =>
            obtain ⟨rfl, hbehind⟩ := List.cons.inj hq
            rcases (hts t (by simp)).bytes with ⟨b, htext, hkind⟩ | ⟨_, _, hhigh⟩
            · rw [htext] at hp
              have hp' : p = [] := by
                cases p with
                | nil => rfl
                | cons _ _ => exact absurd (congrArg List.length hp) (by simp)
              subst hp'
              obtain ⟨rfl, rfl⟩ := List.cons.inj hp
              exact ⟨[], t, ts, rfl, rfl, htext, hkind, hbehind.symm⟩
            · refine absurd (hhigh x ?_) (UInt8.not_le.mpr hx)
              rw [hp]
              simp

theorem texts_head (hts : ∀ t ∈ ts, t.Simple) {q : Text} {x : UInt8} (hx : x < 0x80)
    (h : texts ts = x :: q) :
    ∃ t ys, ts = t :: ys ∧ t.text = [x] ∧ t.kind = byteKind x ∧ texts ys = q := by
  obtain ⟨xs, t, ys, rfl, hxs, ht, hk, hys⟩ := texts_split (p := []) hts hx h
  cases xs with
  | nil => exact ⟨t, ys, rfl, ht, hk, hys⟩
  | cons u us =>
      exfalso
      rw [texts_cons] at hxs
      have hu := (List.append_eq_nil_iff.mp hxs).1
      rcases (hts u (by simp)).bytes with ⟨b, htext, _⟩ | ⟨_, hne, _⟩
      · rw [htext] at hu
        exact absurd hu (by simp)
      · exact hne hu

/-- A text without blanks that begins with a definition, `f(v)=b` or `f^{-1}(v)=b`, and what the
solver has in its place. The bracket before the equals sign closes the one behind the name. -/
inductive Definition : Text → Text → Prop where
  | direct {f : UInt8} {v b : Text} : Text.isLetter f = true → Nested v →
      Definition (f :: ("(" ++ v ++ ")=" ++ b)) ("function(" ++ [f] ++ ", " ++ v ++ ")=" ++ b)
  | inverse {f : UInt8} {v b : Text} : Text.isLetter f = true → Nested v →
      Definition (f :: ("^\x7b-1\x7d(" ++ v ++ ")=" ++ b))
        ("function_inverse(" ++ [f] ++ ", " ++ v ++ ")=" ++ b)

theorem definitionText_eq (name : FunctionName) (f v b : Text) :
    definitionText name f v b = definitionCall name ++ "(" ++ f ++ ", " ++ v ++ ")=" ++ b := by
  have hend : Text.ofString ")=" = Text.ofString ")" ++ Text.ofString "=" := by decide
  unfold definitionText Solver.call
  rw [hend]
  simp [Text.join]

/-- Tokens that begin with a definition spell one. -/
theorem Defining.definition (hd : Defining name f mid o xs z e) (ys : List Token) :
    Definition (texts (definingTokens f mid o xs z e ys))
      (definitionText name f.text (texts xs) (texts ys)) := by
  obtain ⟨b, htext, hb⟩ := Token.letter_text hd.letter
  have hsign : Text.ofString ")=" = [Bracket.round.closing] ++ Text.ofString "=" := by decide
  have htexts : texts (definingTokens f mid o xs z e ys)
      = b :: (headText name ++ "(" ++ texts xs ++ ")=" ++ texts ys) := by
    rw [hsign]
    simp only [definingTokens, texts_cons, texts_append, htext, hd.head.texts, hd.opening.2,
      hd.closing.2, (Token.isChar_text hd.sign).2, List.append_assoc]
    rfl
  rw [htexts, htext, definitionText_eq]
  cases hd.head with
  | direct => exact .direct hb hd.inner.nested
  | inverse => exact .inverse hb hd.inner.nested

/-- The variable and the body of a definition, behind its name. -/
theorem variable_tokens (hts : ∀ t ∈ ts, t.Simple) {v b : Text} (hv : Nested v)
    (h : texts ts = "(" ++ v ++ ")=" ++ b) :
    ∃ o xs z e ys, ts = o :: (xs ++ z :: e :: ys) ∧ o.Opens .round ∧ Nest xs ∧ texts xs = v
      ∧ z.Closes .round ∧ e.isChar "=" = true ∧ texts ys = b := by
  have hparts : texts ts = byte '(' :: (v ++ byte ')' :: (byte '=' :: b)) := by
    have hopen : Text.ofString "(" = [byte '('] := by decide
    have hclose : Text.ofString ")=" = [byte ')', byte '='] := by decide
    rw [h, hopen, hclose]
    simp
  obtain ⟨o, ts, rfl, ho, hok, hbehind⟩ := texts_head hts (by decide) hparts
  have hts1 : ∀ t ∈ ts, t.Simple := fun t ht => hts t (List.mem_cons_of_mem _ ht)
  obtain ⟨xs, z, zs, rfl, hxs, hz, hzk, hsign⟩ := texts_split hts1 (by decide) hbehind
  have hts2 : ∀ t ∈ zs, t.Simple := fun t ht => hts1 t (by simp [ht])
  obtain ⟨e, ys, rfl, he, hek, hys⟩ := texts_head hts2 (by decide) hsign
  refine ⟨o, xs, z, e, ys, rfl, ⟨hok, ho⟩, ?_, hxs, ⟨hzk, hz⟩, ?_, hys⟩
  · refine (nest_iff fun t ht => hts1 t (by simp [ht])).mpr ?_
    rw [hxs]
    exact hv
  · unfold Token.isChar
    rw [hek, he]
    decide

/-- The tokens of a text that begins with a definition begin with one. -/
theorem Definition.defining (hts : ∀ t ∈ ts, t.Simple) {w : Text} (hw : Definition (texts ts) w) :
    ∃ name f mid o xs z e ys, ts = definingTokens f mid o xs z e ys
      ∧ Defining name f mid o xs z e ∧ w = definitionText name f.text (texts xs) (texts ys) := by
  generalize hu : texts ts = u at hw
  have hletter : ∀ {f : Token} {b : UInt8}, f.text = [b] → f.kind = byteKind b →
      Text.isLetter b = true → f.isLetter = true := by
    intro f b htext hkind hb
    unfold Token.isLetter
    rw [hkind, byteKind_letter hb, htext]
    simpa using hb
  cases hw with
  | @direct b v body hb hv =>
      obtain ⟨f, ts, rfl, hf, hfk, hbehind⟩ := texts_head hts (letter_ascii hb) hu
      have hrest : ∀ t ∈ ts, t.Simple := fun t ht => hts t (List.mem_cons_of_mem _ ht)
      obtain ⟨o, xs, z, e, ys, rfl, ho, hx, hxs, hz, he, hys⟩ := variable_tokens hrest hv hbehind
      refine ⟨.definition, f, [], o, xs, z, e, ys, rfl,
        ⟨hletter hf hfk hb, .direct, ho, hx, hz, he⟩, ?_⟩
      rw [definitionText_eq, hf, hxs, hys]
      rfl
  | @inverse b v body hb hv =>
      obtain ⟨f, ts, rfl, hf, hfk, hbehind⟩ := texts_head hts (letter_ascii hb) hu
      have hsimple : ∀ t ∈ ts, t.Simple := fun t ht => hts t (List.mem_cons_of_mem _ ht)
      have hparts : texts ts = byte '^' :: byte '\x7b' :: byte '-' :: byte '1' :: byte '\x7d'
          :: ("(" ++ v ++ ")=" ++ body) := by
        have hhead : Text.ofString "^\x7b-1\x7d(" = [byte '^', byte '\x7b', byte '-', byte '1',
            byte '\x7d'] ++ Text.ofString "(" := by decide
        rw [hbehind, hhead]
        simp
      obtain ⟨p, ts1, rfl, hp, hpk, h1⟩ := texts_head hsimple (by decide) hparts
      obtain ⟨q, ts2, rfl, hq, hqk, h2⟩ :=
        texts_head (fun t ht => hsimple t (by simp [ht])) (by decide) h1
      obtain ⟨m, ts3, rfl, hm, hmk, h3⟩ :=
        texts_head (fun t ht => hsimple t (by simp [ht])) (by decide) h2
      obtain ⟨i, ts4, rfl, hi, hik, h4⟩ :=
        texts_head (fun t ht => hsimple t (by simp [ht])) (by decide) h3
      obtain ⟨j, ts5, rfl, hj, hjk, h5⟩ :=
        texts_head (fun t ht => hsimple t (by simp [ht])) (by decide) h4
      obtain ⟨o, xs, z, e, ys, rfl, ho, hx, hxs, hz, he, hys⟩ :=
        variable_tokens (fun t ht => hsimple t (by simp [ht])) hv h5
      have hhead : Head .inverseDefinition [p, q, m, i, j] := by
        refine .inverse ((hsimple p (by simp)).literal (Or.inr (Or.inl hpk))) hpk hp ⟨hqk, hq⟩
          ((hsimple m (by simp)).literal (Or.inl hmk)) ?_
          ((hsimple i (by simp)).literal (Or.inl hik)) ?_ ⟨hjk, hj⟩
        · unfold Token.isChar
          rw [hmk, hm]
          decide
        · unfold Token.isChar
          rw [hik, hi]
          decide
      refine ⟨.inverseDefinition, f, [p, q, m, i, j], o, xs, z, e, ys, rfl,
        ⟨hletter hf hfk hb, hhead, ho, hx, hz, he⟩, ?_⟩
      rw [definitionText_eq, hf, hxs, hys]
      rfl

/-! ## Whole texts -/

theorem render_root {nodes : List Node} {u : Text} {span span' : Span} (hn : Spelled h nodes u)
    {limit : Nat} (hlimit : h + 3 ≤ limit) :
    Solver.render limit (.root [.expression .none nodes span] span') = .ok u := by
  have hexpression := writes_expression hn .none span limit 2 (by omega)
  have hpresent : ∀ missing, Solver.renderPresent limit 2 missing
      [.expression .none nodes span] = .ok [u] := by
    intro missing
    rw [Solver.renderPresent, if_neg (by simp [Solver.isAbsent]), hexpression]
    show (Solver.renderPresent limit 2 missing [] >>= fun rest => pure (_ :: rest)) = _
    rw [Solver.renderPresent]
    simp [Wrapping.delimiters]
  rw [Solver.render, Solver.renderAt, if_neg (by omega), hpresent]
  simp

/-- What begins a sequence, and then its items. -/
def opened : Option Node → Builder
  | some n => Builder.add {} n
  | none => {}

/-- A sequence that may begin with a definition is read one level further in. -/
theorem definable_run {first : Option Node} {nodes : List Node} {c c1 c2 : Cursor}
    (hdepth : s.depth + 1 ≤ s.limit)
    (hfirst : definition grammar .finish { s with depth := s.depth + 1 } c = .ok (first, c1))
    (hmore : grammar.items .finish (opened first) { s with depth := s.depth + 1 } c1
      = .ok (nodes, c2)) :
    grammar.sequence .finish true s c = .ok (nodes, c2) := by
  have hsequence : sequence grammar .finish true s c
      = nested (definition grammar .finish >>= fun first => match first with
        | some n => items grammar .finish (Builder.add {} n)
        | none => items grammar .finish {}) s c := rfl
  have hdeep : ¬ s.depth + 1 > s.limit := by omega
  rw [sequence_unfold, hsequence, nested, if_neg hdeep, bind_of_ok hfirst, ← hmore, items_unfold]
  cases first <;> rfl

/-- Nested tokens that begin with no definition are read from end to end. -/
theorem Nest.read_through (hts : Nest ts) (hnone : definitionHead? ts = none)
    (hdepth : s.depth + 1 + ts.length ≤ s.limit) :
    ∃ nodes c, grammar.sequence .finish true s ⟨ts, l⟩ = .ok (nodes, c)
      ∧ Spelled ts.length nodes (texts ts) := by
  obtain ⟨nodes, c, hrun, -, hspelled⟩ :=
    hts.read (s := { s with depth := s.depth + 1 }) (l := l) (Or.inl rfl)
      (rfl : Stop.holds .finish [] = true) (fun t ht => absurd ht (by simp)) hdepth
      (Nat.le_refl _) Builder.spells_empty
  rw [List.append_nil] at hrun
  have hlook : lookahead { s with depth := s.depth + 1 } ⟨ts, l⟩ = .ok (ts, ⟨ts, l⟩) := rfl
  have hfirst : definition grammar .finish { s with depth := s.depth + 1 } ⟨ts, l⟩
      = .ok (none, ⟨ts, l⟩) := by
    rw [definition, bind_of_ok hlook, hnone]
    rfl
  exact ⟨nodes, c, definable_run (by omega) hfirst hrun, hspelled⟩

/-- Tokens that begin with a definition are read from end to end. -/
theorem Defining.read_through (hd : Defining name f mid o xs z e) (hf : f.Simple) (hys : Nest ys)
    (hdepth : s.depth + 2 + (xs.length + ys.length) ≤ s.limit) :
    ∃ nodes c, grammar.sequence .finish true s ⟨definingTokens f mid o xs z e ys, l⟩
        = .ok (nodes, c)
      ∧ Spelled (xs.length + ys.length + 2) nodes
        (definitionText name f.text (texts xs) (texts ys)) := by
  obtain ⟨n, c, hfirst, hrest, hwrites⟩ :=
    hd.read (s := { s with depth := s.depth + 1 }) (l := l) hf hys (by dsimp only; omega)
      (Nat.le_refl _)
  obtain ⟨rest, l'⟩ := c
  subst hrest
  exact ⟨(opened (some n)).finish, ⟨[], l'⟩, definable_run (by omega) hfirst (items_ends rfl),
    (Builder.spells_empty.add hwrites).finish⟩

/-- The tree of a text whose tokens are read, and its rendering. -/
theorem parse_spelled {t : Text} {ts : List Token} {limit : Nat} (ht : tokens t = .ok ts)
    {nodes : List Node} {c : Cursor} {u : Text}
    (hrun : grammar.sequence .finish true ⟨t, limit, 0⟩ ⟨ts, 0⟩ = .ok (nodes, c))
    (hspelled : Spelled h nodes u) {depth : Nat} (hdepth : h + 3 ≤ depth) :
    ∃ tree, parse limit t = .ok tree ∧ Solver.render depth tree = .ok u := by
  rcases parse_grammar ht limit with ⟨nodes', c', hrun', -, hparse⟩ | ⟨e, atEnd, hrun', -⟩
  · rw [hrun] at hrun'
    cases hrun'
    exact ⟨_, hparse, render_root hspelled hdepth⟩
  · rw [hrun] at hrun'
    exact absurd hrun' (by simp)

/-- A text that begins with a definition is rendered as a call of the solver. -/
theorem Definition.read {t w : Text} {limit depth : Nat} (hw : Definition (texts ts) w)
    (hsimple : ∀ k ∈ ts, k.Simple) (hnest : Nest ts) (htokens : tokens t = .ok ts)
    (hlength : ts.length ≤ t.length) (hlimit : t.length + 6 ≤ limit)
    (hdepth : t.length + 6 ≤ depth) :
    ∃ tree, parse limit t = .ok tree ∧ Solver.render depth tree = .ok w := by
  obtain ⟨name, f, mid, o, xs, z, e, ys, hts, hd, rfl⟩ := hw.defining hsimple
  have hlong : xs.length + ys.length ≤ t.length := by
    rw [hts] at hlength
    simp only [definingTokens, List.length_cons, List.length_append] at hlength
    omega
  have hys : Nest ys := by
    rw [hts] at hsimple hnest
    exact hd.body hsimple hnest
  have hf : f.Simple := hsimple f (by rw [hts]; simp [definingTokens])
  obtain ⟨nodes, c, hrun, hspelled⟩ :=
    hd.read_through (s := ⟨t, limit, 0⟩) (l := 0) hf hys (by dsimp only; omega)
  rw [← hts] at hrun
  exact parse_spelled htokens hrun hspelled (by omega)

/-- **Texts without commands are accepted if their brackets are nested**, and rendered as they
stand, without their blanks; only a definition at the head becomes a call of the solver. -/
theorem commandFree_read {t : Text} {limit depth : Nat} (hvalid : t.isValidUtf8 = true)
    (hfree : CommandFree t) (hlimit : t.length + 6 ≤ limit) (hdepth : t.length + 6 ≤ depth) :
    ((∃ tree, parse limit t = .ok tree) ↔ Nested t)
      ∧ ∀ tree, parse limit t = .ok tree →
        ∃ out, Solver.render depth tree = .ok out
          ∧ (∀ w, Definition (unblanked t) w → out = w)
          ∧ ((¬ ∃ w, Definition (unblanked t) w) → out = unblanked t) := by
  obtain ⟨ts, htokens, hsimple, htexts, hlength⟩ := hfree.tokens hvalid
  have hnested : Nest ts ↔ Nested t := by
    rw [nest_iff hsimple, htexts, nested_unblanked]
  rw [← htexts]
  -- what is read is nested
  have hsound : (∃ tree, parse limit t = .ok tree) → Nest ts := by
    rintro ⟨tree, htree⟩
    obtain ⟨ts', htokens', hframed⟩ := parse_framed htree
    rw [htokens] at htokens'
    cases htokens'
    exact hframed.nest hsimple
  -- what is nested is read, with or without a definition at its head
  have hread : Nest ts → ∃ tree out, parse limit t = .ok tree ∧ Solver.render depth tree = .ok out
      ∧ (∀ w, Definition (texts ts) w → out = w)
      ∧ ((¬ ∃ w, Definition (texts ts) w) → out = texts ts) := by
    intro hnest
    by_cases hw : ∃ w, Definition (texts ts) w
    · obtain ⟨w, hw⟩ := hw
      obtain ⟨tree, hparse, hrender⟩ := hw.read hsimple hnest htokens hlength hlimit hdepth
      refine ⟨tree, w, hparse, hrender, fun w' hw' => ?_, fun hnone => absurd ⟨w, hw⟩ hnone⟩
      obtain ⟨tree', hparse', hrender'⟩ := hw'.read hsimple hnest htokens hlength hlimit hdepth
      rw [hparse] at hparse'
      cases hparse'
      rw [hrender] at hrender'
      exact Except.ok.inj hrender'
    · have hnone : definitionHead? ts = none := by
        cases hd : definitionHead? ts with
        | none => rfl
        | some d =>
            obtain ⟨f, mid, o, xs, z, e, ys, rfl, hdefining⟩ := hnest.defining hsimple hd
            exact absurd ⟨_, hdefining.definition ys⟩ hw
      obtain ⟨nodes, c, hrun, hspelled⟩ :=
        hnest.read_through (s := ⟨t, limit, 0⟩) (l := 0) hnone (by dsimp only; omega)
      have hroom : ts.length + 3 ≤ depth := by omega
      obtain ⟨tree, hparse, hrender⟩ := parse_spelled htokens hrun hspelled hroom
      exact ⟨tree, texts ts, hparse, hrender, fun w hw' => absurd ⟨w, hw'⟩ hw, fun _ => rfl⟩
  refine ⟨⟨fun htree => hnested.mp (hsound htree), fun hn => ?_⟩, fun tree htree => ?_⟩
  · obtain ⟨tree, _, hparse, _⟩ := hread (hnested.mpr hn)
    exact ⟨tree, hparse⟩
  · obtain ⟨tree', out, hparse, hrest⟩ := hread (hsound ⟨tree, htree⟩)
    rw [htree] at hparse
    cases hparse
    exact ⟨out, hrest⟩

theorem spacedDefinition_read :
    ∃ tree, parse 18 "f (x)= [x+1]" = .ok tree
      ∧ Solver.render 18 tree = .ok "function(f, x)=[x+1]" := by
  have hread := @commandFree_read "f (x)= [x+1]" 18 18 (by decide) (by decide) (by decide)
    (by decide)
  obtain ⟨tree, hparse⟩ := hread.1.mpr rfl
  obtain ⟨out, hrender, hdefined, -⟩ := hread.2 tree hparse
  have hhead : Definition (unblanked "f (x)= [x+1]") "function(f, x)=[x+1]" :=
    Definition.direct (f := byte 'f') (v := "x") (b := "[x+1]") (by decide) rfl
  rw [hdefined _ hhead] at hrender
  exact ⟨tree, hparse, hrender⟩

end MathMarkup.Grammar
