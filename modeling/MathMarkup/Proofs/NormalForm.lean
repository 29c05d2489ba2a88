import MathMarkup.Proofs.Convergence
import MathMarkup.Proofs.Environments
import MathMarkup.Proofs.Tokens

/-!
# The normal form of a text

A cleaned text is one in which no rule finds anything to do, and each of the rules taken alone
leaves it as it is. What that says of the bytes of the text is stated here without the scanners that
look for them (`Normal`): which words do not occur in it, what stands around an `&`, what stands
before a comma.
-/

namespace MathMarkup.Cleaning

open MathMarkup.Text (byte)

/-! ## Words -/

/-- A text spells a word of lower-case letters and signs, case ignored; the long s, U+017F, spells
an `s` too. -/
inductive Spells : Text → Text → Prop where
  | nil : Spells [] []
  | letter {letter b : UInt8} {word x : Text} :
      Text.lowerByte b = letter → Spells word x → Spells (letter :: word) (b :: x)
  | longS {word x : Text} : Spells word x → Spells (byte 's' :: word) (0xC5 :: 0xBF :: x)

theorem Spells.wordWidth?_eq {word x : Text} (h : Spells word x) (v : Text) :
    wordWidth? word (x ++ v) = some x.length := by
  induction h with
  | nil => rfl
  | @letter letter b word x hb _ ih =>
      have hletter : letterWidth? letter (b :: (x ++ v)) = some 1 := by
        rw [letterWidth?, if_pos (beq_iff_eq.mpr hb)]
      rw [List.cons_append, wordWidth?, hletter]
      simp [ih, Nat.add_comm]
  | @longS word x _ ih =>
      have hletter : letterWidth? (byte 's') (0xC5 :: 0xBF :: (x ++ v)) = some 2 := by
        rw [letterWidth?, if_neg (by decide), if_pos (by simp)]
      rw [List.cons_append, List.cons_append, wordWidth?, hletter]
      simp only [Option.bind_eq_bind, Option.bind_some, List.drop_succ_cons, List.drop_zero, ih,
        Option.pure_def, List.length_cons, Option.some.injEq]
      omega

theorem spelled?_none {words : List (Text × Text)} {t : Text} (h : spelled? words t = none) :
    ∀ p ∈ words, wordWidth? p.1 t = none := by
  induction words with
  | nil => simp
  | cons p words ih =>
      have hstep : spelled? (p :: words) t
          = (((wordWidth? p.1 t).map fun w => (w, p.2)) <|> spelled? words t) := rfl
      rw [hstep] at h
      cases hp : wordWidth? p.1 t with
      | some w => rw [hp] at h; exact absurd h (by simp)
      | none =>
          rw [hp] at h
          exact List.forall_mem_cons.mpr ⟨hp, ih (by simpa using h)⟩

/-- A word of a list that is nowhere recognised does not occur. -/
theorem Unmatched.not_spells {words : List (Text × Text)} {t u x v word out : Text}
    (h : Unmatched (spelled? words) t) (ht : t = u ++ x ++ v) (hword : (word, out) ∈ words) :
    ¬ Spells word x := by
  intro hx
  have hnone := spelled?_none (h (x ++ v) ⟨u, by rw [ht, List.append_assoc]⟩) _ hword
  rw [hx.wordWidth?_eq v] at hnone
  exact absurd hnone (by simp)

/-- Only an `s` can be spelled by two bytes. -/
theorem Spells.head (letter : UInt8) (word : Text) {x : Text} (h : Spells (letter :: word) x)
    (hs : letter ≠ byte 's') :
    ∃ b x', x = b :: x' ∧ Text.lowerByte b = letter ∧ Spells word x' := by
  cases h with
  | letter hb hx => exact ⟨_, _, rfl, hb, hx⟩
  | longS => exact absurd rfl hs

theorem wordWidth?_other (letter : UInt8) (word : Text) {b : UInt8} {r : Text}
    (hs : letter ≠ byte 's') (hb : Text.lowerByte b ≠ letter) :
    wordWidth? (letter :: word) (b :: r) = none := by
  rw [wordWidth?, letterWidth?, if_neg (by simpa using hb), if_neg (by simp [hs])]
  rfl

/-- The sizing commands differ in their second letter, so the first that is spelled is the one. -/
theorem spelled?_sizing {x : Text} (h : Spells "\\left" x ∨ Spells "\\right" x) (v : Text) :
    spelled? [("\\left", []), ("\\right", [])] (x ++ v) = some (x.length, []) := by
  have hstep : spelled? [("\\left", []), ("\\right", [])] (x ++ v)
      = (((wordWidth? "\\left" (x ++ v)).map fun w => (w, ([] : Text)))
        <|> ((wordWidth? "\\right" (x ++ v)).map fun w => (w, ([] : Text))) <|> none) := rfl
  rw [hstep]
  rcases h with h | h
  · rw [h.wordWidth?_eq v]
    rfl
  · have hleft : wordWidth? "\\left" (x ++ v) = none := by
      obtain ⟨b, x1, rfl, hb, h1⟩ := h.head (byte '\\') "right" (by decide)
      obtain ⟨c, x2, rfl, hc, _⟩ := h1.head (byte 'r') "ight" (by decide)
      have hslash : letterWidth? (byte '\\') (b :: c :: (x2 ++ v)) = some 1 := by
        rw [letterWidth?, if_pos (beq_iff_eq.mpr hb)]
      have hrest : wordWidth? "left" (c :: (x2 ++ v)) = none :=
        wordWidth?_other (byte 'l') "eft" (by decide) (by rw [hc]; decide)
      show wordWidth? (byte '\\' :: "left") (b :: c :: (x2 ++ v)) = none
      rw [wordWidth?, hslash]
      simp [hrest]
    rw [hleft, h.wordWidth?_eq v]
    rfl

/-! ## Commands -/

/-- A command that is not found occurs only at the beginning of a longer name. -/
theorem findCommand?_none {name u v : Text} (hname : name ≠ [])
    (h : findCommand? name (u ++ name ++ v) = none) : v.head?.any Text.isLetter = true := by
  induction u with
  | nil =>
      obtain ⟨b, r, hr⟩ : ∃ b r, name ++ v = b :: r :=
        List.exists_cons_of_ne_nil (by simp [hname])
      rw [List.nil_append, hr, findCommand?, ← hr, List.drop_left] at h
      split at h
      · exact absurd h (by simp)
      · rename_i hcond
        simpa [List.isPrefixOf_iff_prefix.mpr (List.prefix_append name v)] using hcond
  | cons b u ih =>
      rw [List.cons_append, List.cons_append, findCommand?] at h
      split at h
      · exact absurd h (by simp)
      · exact ih (Option.map_eq_none_iff.mp h)

/-! ## Commas -/

/-- The number of backslashes at the end of a text. -/
def trailingSlashes (t : Text) : Nat := (t.reverse.takeWhile (· == byte '\\')).length

/-- The parity that is kept from byte to byte is that of the backslashes just read. -/
theorem parity_eq (u : Text) :
    u.foldl (fun odd b => b == byte '\\' && !odd) false = decide (trailingSlashes u % 2 = 1) := by
  unfold trailingSlashes
  rw [← List.foldr_reverse]
  induction u.reverse with
  | nil => rfl
  | cons b w ih =>
      rw [List.foldr_cons, ih]
      by_cases hb : b = byte '\\'
      · rw [List.takeWhile_cons_of_pos (by simpa using hb), List.length_cons, hb, BEq.rfl,
          Bool.true_and, ← decide_not, decide_eq_decide]
        omega
      · rw [List.takeWhile_cons_of_neg (by simpa using hb)]
        simp [hb]

theorem removeCommasFrom_comma {odd : Bool} {u v : Text}
    (h : removeCommasFrom odd (u ++ byte ',' :: v) = u ++ byte ',' :: v) :
    u.foldl (fun odd b => b == byte '\\' && !odd) odd = true := by
  induction u generalizing odd with
  | nil => simpa using (Grammar.removeCommasFrom_cons h).1
  | cons b u ih => exact ih (Grammar.removeCommasFrom_cons h).2

/-! ## Normal form -/

/-- The words of operators. -/
def operatorWords : List Text := (multiplications ++ divisions ++ comparisons).map (·.1)

/-- A text in normal form. -/
structure Normal (t : Text) : Prop where
  /-- The commands `\textcolor` and `\text` occur at most at the beginning of a longer name. -/
  commands : ∀ name ∈ Text.ofStrings ["\\textcolor", "\\text"], ∀ u v, t = u ++ name ++ v →
    v.head?.any Text.isLetter = true
  /-- No operator is spelled out. -/
  operators : ∀ word ∈ operatorWords, ∀ u x v, t = u ++ x ++ v → ¬ Spells word x
  /-- `\left` and `\right` occur at most at the beginning of a longer word. -/
  sizing : ∀ u x v, t = u ++ x ++ v → Spells "\\left" x ∨ Spells "\\right" x →
    v.head?.any Text.isWordByte = true
  /-- There is no line spacing such as `[12pt]`. -/
  spacing : ∀ u digits x v, t = u ++ byte '[' :: (digits ++ x ++ v) → digits ≠ [] →
    (∀ d ∈ digits, Text.isDigit d = true) → ¬ Spells "pt]" x
  /-- Every `&` lies in a terminated matrix environment. -/
  ampersands : ∀ i : Nat, t[i]? = some (byte '&') → ∃ name ∈ matrixNames, Enclosed name t i
  /-- Every comma stands behind an odd number of backslashes. -/
  commas : ∀ u v, t = u ++ byte ',' :: v → trailingSlashes u % 2 = 1

theorem not_isDigit_of_lowerByte {b : UInt8} (h : Text.lowerByte b = byte 'p') :
    Text.isDigit b = false := by
  cases hd : Text.isDigit b with
  | false => rfl
  | true =>
      simp only [Text.isDigit, Bool.and_eq_true, decide_eq_true_eq] at hd
      unfold Text.lowerByte at h
      split at h
      · rename_i hupper
        simp only [Bool.and_eq_true, decide_eq_true_eq] at hupper
        exact absurd (UInt8.le_trans hupper.1 hd.2) (by decide)
      · rw [h] at hd
        exact absurd hd.2 (by decide)

theorem Unmatched.spacing {c u digits x v : Text} (h : Unmatched spacing? c)
    (hc : c = u ++ byte '[' :: (digits ++ x ++ v)) (hne : digits ≠ [])
    (hdigits : ∀ d ∈ digits, Text.isDigit d = true) : ¬ Spells "pt]" x := by
  intro hx
  have hnone := h (byte '[' :: (digits ++ x ++ v)) ⟨u, hc.symm⟩
  -- the digits end where the word begins
  have htake : (digits ++ x ++ v).takeWhile Text.isDigit = digits := by
    obtain ⟨b, x', rfl, hb, _⟩ := hx.head (byte 'p') "t]" (by decide)
    have hb' : Text.isDigit b = false := not_isDigit_of_lowerByte hb
    rw [List.append_assoc, List.takeWhile_append_of_pos hdigits, List.cons_append,
      List.takeWhile_cons_of_neg (by simp [hb']), List.append_nil]
  have hdrop : (digits ++ x ++ v).drop digits.length = x ++ v := by
    rw [List.append_assoc, List.drop_left]
  have hpos : 0 < digits.length := List.length_pos_iff.mpr hne
  unfold spacing? at hnone
  dsimp only at hnone
  rw [htake, hdrop, hx.wordWidth?_eq v, if_pos (by simpa using hpos)] at hnone
  exact absurd hnone (by simp)

/-- **A text in which no rule finds anything to do is in normal form.** -/
theorem normal_of_idle {c : Text} (h : ∀ rule : Rule, rule.Idle c) : Normal c where
  commands name hname u v hc := by
    subst hc
    simp only [Text.ofStrings, List.map_cons, List.map_nil, List.mem_cons, List.not_mem_nil,
      or_false] at hname
    rcases hname with rfl | rfl
    · exact findCommand?_none (by decide) (h .textcolor)
    · exact findCommand?_none (by decide) (h .text)
  operators word hword u x v hc := by
    obtain ⟨⟨word', out⟩, hmem, rfl⟩ := List.mem_map.mp hword
    obtain ⟨hmul, hdiv, hcmp⟩ := h .operators
    rcases List.mem_append.mp hmem with hmem | hmem
    · rcases List.mem_append.mp hmem with hmem | hmem
      · exact hmul.not_spells hc hmem
      · exact hdiv.not_spells hc hmem
    · exact hcmp.not_spells hc hmem
  sizing u x v hc hx := by
    have hnone := h .leftRight (x ++ v) ⟨u, by rw [hc, List.append_assoc]⟩
    unfold sizing? at hnone
    rw [spelled?_sizing hx v] at hnone
    dsimp only at hnone
    rw [List.drop_left] at hnone
    split at hnone
    · assumption
    · exact absurd hnone (by simp)
  spacing u digits x v hc hne hdigits := (h .spacing).spacing hc hne hdigits
  ampersands i hi := protectedIn_enclosed (by decide) (h .ampersand i hi)
  commas u v hc := by
    have hidle : removeCommas c = c := h .comma
    rw [hc] at hidle
    have hodd := removeCommasFrom_comma hidle
    rw [parity_eq] at hodd
    exact of_decide_eq_true hodd

/-- Cleaning ends with a pass that changes nothing. -/
theorem cleanFrom_fixed {limit left : Nat} {t c : Text}
    (h : (cleanFrom limit left t).result = .ok c) : pass c = .ok c := by
  induction left generalizing t with
  | zero => exact absurd h (by simp [cleanFrom])
  | succ left ih =>
      rw [cleanFrom] at h
      split at h
      · exact absurd h (by simp)
      · rename_i next hpass
        split at h
        · rename_i heq
          obtain rfl := Except.ok.inj h
          rw [← heq] at hpass
          exact hpass
        · exact ih h

/--
**A cleaned text is in normal form.** Each of the rules taken alone leaves it as it is, what they
look for does not occur in it, and cleaning it once more takes one pass and gives it back.
-/
theorem clean_normal {limit : Nat} {t c : Text} (h : (clean limit t).result = .ok c) :
    (∀ rule : Rule, rule.apply c = .ok c) ∧ Normal c
      ∧ ∀ n, 1 ≤ n → clean n c = ⟨.ok c, 1⟩ := by
  have hpass := cleanFrom_fixed h
  refine ⟨fun rule => (pass_fixed hpass rule).1,
    normal_of_idle fun rule => (pass_fixed hpass rule).2, fun n hn => ?_⟩
  obtain ⟨m, rfl⟩ : ∃ m, n = m + 1 := ⟨n - 1, by omega⟩
  rw [clean, cleanFrom, hpass]
  simp

/-- Of the two `&` the one in the matrix stays, and so does the comma that is a command. -/
theorem cleanedMatrix_normal :
    (clean 3 "\\te,xt\x7ba\x7d&\\begin\x7bmatrix\x7d1&2\\end\x7bmatrix\x7d\\,x").result
        = .ok " \\begin\x7bmatrix\x7d1&2\\end\x7bmatrix\x7d\\,x"
      ∧ Normal " \\begin\x7bmatrix\x7d1&2\\end\x7bmatrix\x7d\\,x"
      ∧ clean 1 " \\begin\x7bmatrix\x7d1&2\\end\x7bmatrix\x7d\\,x"
        = ⟨.ok " \\begin\x7bmatrix\x7d1&2\\end\x7bmatrix\x7d\\,x", 1⟩ := by
  have hclean : (clean 3 "\\te,xt\x7ba\x7d&\\begin\x7bmatrix\x7d1&2\\end\x7bmatrix\x7d\\,x").result
      = .ok " \\begin\x7bmatrix\x7d1&2\\end\x7bmatrix\x7d\\,x" := rfl
  exact ⟨hclean, (clean_normal hclean).2.1, (clean_normal hclean).2.2 1 (Nat.le_refl 1)⟩

end MathMarkup.Cleaning
