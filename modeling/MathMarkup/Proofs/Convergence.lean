import MathMarkup.Proofs.Cleaning

/-!
# Cleaning comes to an end

Every rule either finds nothing to do and leaves the text as it is, or makes it lighter: the weight
of a text is its length, with an `&` counted twice, since one rule replaces an `&` by a blank and
all others cut something out (`Rule.apply_settles`).

From this one fact follows all that is said about passes. A pass that changes the text makes it
lighter, so there can be no more of them than the text has weight (`clean_converges`). And a pass
that does not change the text has not changed it in between either, so every rule by itself leaves
the text as it is (`pass_fixed`): no rule undoes what another has done.
-/

namespace MathMarkup.Cleaning

open MathMarkup.Text (byte)

/-- The length of a text, with every `&` counted twice. -/
def weight (t : Text) : Nat := t.length + t.count (byte '&')

@[simp] theorem weight_nil : weight [] = 0 := rfl

@[simp] theorem weight_append (t u : Text) : weight (t ++ u) = weight t + weight u := by
  simp only [weight, List.length_append, List.count_append]
  omega

theorem weight_cons (b : UInt8) (t : Text) : weight (b :: t) = weight [b] + weight t :=
  weight_append [b] t

theorem length_le_weight (t : Text) : t.length ≤ weight t := Nat.le_add_right _ _

/-- Leaving bytes out makes a text lighter. -/
theorem weight_lt_of_sublist {t u : Text} (h : u.Sublist t) (hlt : u.length < t.length) :
    weight u < weight t := by
  have hcount := h.count_le (byte '&')
  unfold weight
  omega

/-- What a step of cleaning does: it has nothing to do and leaves the text as it is, or it makes it
lighter. -/
def Settles (idle : Prop) (t u : Text) : Prop := (idle ∧ u = t) ∨ weight u < weight t

/-- A step that makes the text lighter is not undone by another. -/
theorem Settles.trans {p : Prop} {q : Text → Prop} {t u v : Text} (h : Settles p t u)
    (h' : Settles (q u) u v) : Settles (p ∧ q t) t v := by
  rcases h with ⟨hp, rfl⟩ | hlt
  · rcases h' with ⟨hq, rfl⟩ | hlt'
    · exact Or.inl ⟨⟨hp, hq⟩, rfl⟩
    · exact Or.inr hlt'
  · rcases h' with ⟨_, rfl⟩ | hlt'
    · exact Or.inr hlt
    · exact Or.inr (Nat.lt_trans hlt' hlt)

theorem Settles.idle {p : Prop} {t : Text} (h : Settles p t t) : p := by
  rcases h with ⟨hp, _⟩ | hlt
  · exact hp
  · exact absurd hlt (Nat.lt_irrefl _)

/-! ## Replacing words -/

/-- No suffix of a text begins with something that `find` recognises. -/
def Unmatched (find : Text → Option (Nat × Text)) (t : Text) : Prop :=
  ∀ v, v <:+ t → find v = none

/-- What is recognised lies in the text and is replaced by something lighter than it is long. -/
def Lightens (find : Text → Option (Nat × Text)) : Prop :=
  ∀ t w out, find t = some (w, out) → w ≤ t.length ∧ weight out < w

theorem Lightens.nil {find : Text → Option (Nat × Text)} (h : Lightens find) : find [] = none := by
  cases hf : find [] with
  | none => rfl
  | some p =>
      obtain ⟨hw, hout⟩ := h [] p.1 p.2 hf
      simp only [List.length_nil] at hw
      omega

theorem replaceFrom_weight_le {find : Text → Option (Nat × Text)} (h : Lightens find) (k : Nat)
    (t : Text) : weight (Text.replaceFrom find k t) ≤ weight (t.drop k) := by
  induction t generalizing k with
  | nil => cases k <;> exact Nat.le_refl _
  | cons b r ih =>
      cases k with
      | succ k => exact ih k
      | zero =>
          rw [Text.replaceFrom, List.drop_zero, weight_cons b r]
          split
          · rename_i n out hfind
            obtain ⟨hw, hout⟩ := h _ _ _ hfind
            have hrest := ih n
            have htake := length_le_weight (r.take n)
            have hsplit : weight (r.take n) + weight (r.drop n) = weight r := by
              rw [← weight_append, List.take_append_drop]
            have hb := length_le_weight [b]
            simp only [List.length_cons, List.length_nil, List.length_take] at hw htake hb
            rw [weight_append]
            omega
          · have hrest := ih 0
            rw [List.drop_zero] at hrest
            rw [weight_cons]
            omega

/-- Replacing words finds none, or makes the text lighter. -/
theorem replaceAll_settles {find : Text → Option (Nat × Text)} (h : Lightens find) (t : Text) :
    Settles (Unmatched find t) t (Text.replaceAll find t) := by
  unfold Text.replaceAll
  induction t with
  | nil =>
      refine Or.inl ⟨fun v hv => ?_, rfl⟩
      rw [List.suffix_nil.mp hv]
      exact h.nil
  | cons b r ih =>
      rw [Text.replaceFrom]
      split
      · -- a word at the head: what stands for it is lighter, and the rest gets no heavier
        rename_i n out hfind
        obtain ⟨hw, hout⟩ := h _ _ _ hfind
        have hrest := replaceFrom_weight_le h n r
        have htake := length_le_weight (b :: r.take n)
        have hsplit : weight (b :: r) = weight (b :: r.take n) + weight (r.drop n) := by
          rw [← weight_append, List.cons_append, List.take_append_drop]
        simp only [List.length_cons, List.length_take] at hw htake
        refine Or.inr ?_
        rw [weight_append, hsplit]
        omega
      · rename_i hnone
        have hhead : find (b :: r) = none := by
          cases hf : find (b :: r) with
          | none => rfl
          | some p =>
              obtain ⟨_ | n, out⟩ := p
              · exact absurd (h _ _ _ hf).2 (Nat.not_lt_zero _)
              · exact absurd hf (hnone n out)
        rcases ih with ⟨hun, heq⟩ | hlt
        · refine Or.inl ⟨fun v hv => ?_, by rw [heq]⟩
          rcases List.suffix_cons_iff.mp hv with rfl | hv
          · exact hhead
          · exact hun v hv
        · refine Or.inr ?_
          rw [weight_cons, weight_cons b r]
          omega

theorem spelled?_lightens {words : List (Text × Text)}
    (h : ∀ p ∈ words, weight p.2 < p.1.length) : Lightens (spelled? words) := by
  intro t w out hfind
  obtain ⟨word, hmem, hw⟩ := spelled?_some hfind
  exact ⟨wordWidth?_le hw, Nat.lt_of_lt_of_le (h _ hmem) (wordWidth?_ge hw)⟩

theorem sizing?_lightens : Lightens sizing? := by
  intro t w out hfind
  unfold sizing? at hfind
  split at hfind
  · rename_i hspelled
    split at hfind
    · exact absurd hfind (by simp)
    · cases hfind
      exact spelled?_lightens (by decide) t w out hspelled
  · exact absurd hfind (by simp)

theorem spacing?_lightens : Lightens spacing? := by
  intro t w out hfind
  cases t with
  | nil => exact absurd hfind (by simp [spacing?])
  | cons b r =>
      obtain ⟨_, hw, _⟩ := spacing?_recognises b r w out hfind
      refine ⟨hw, ?_⟩
      unfold spacing? at hfind
      dsimp only at hfind
      split at hfind
      · obtain ⟨m, _, he⟩ := Option.map_eq_some_iff.mp hfind
        cases he
        rw [weight_nil]
        omega
      · exact absurd hfind (by simp)

/-! ## Replacing commands -/

/-- The last of the arguments stands in braces directly before the rest. -/
theorem readArguments_ok {k n offset : Nat} {t : Text} {args : Arguments}
    (h : readArguments k (n + 1) offset t = .ok args) :
    ∃ before last : Text, ∃ opening closing : UInt8, ∃ others : List Text,
      t = before ++ opening :: (last ++ closing :: args.rest)
        ∧ args.contents = others ++ [last] ∧ others.length = n := by
  -- the text with marks says the same of the same bytes
  rw [← bytes_put t, ← traceArguments_bytes] at h
  cases htrace : traceArguments k (n + 1) offset (put t) with
  | error e => rw [htrace] at h; exact absurd h (by simp [Except.map])
  | ok margs =>
      rw [htrace] at h
      obtain rfl := Except.ok.inj h
      obtain ⟨before, last, o, c, others, ht, _, hcont, hlen⟩ := traceArguments_ok htrace
      refine ⟨bytes before, bytes last, o.byte, c.byte, others.map bytes, ?_, ?_, ?_⟩
      · rw [← bytes_put t, ht]
        simp [MarkedArguments.plain]
      · simp [MarkedArguments.plain, hcont]
      · simpa using hlen

/-- Replacing the invocations of a command by their last arguments, or by nothing, leaves bytes out,
and some if there is an invocation. -/
theorem substituteFrom_sublist {name : Text} {n : Nat} {replace : List Text → Text}
    (hreplace : ∀ others last, others.length = n →
      replace (others ++ [last]) = last ∨ replace (others ++ [last]) = [])
    {bound : Nat} {written unread u : Text}
    (h : substituteFrom name (n + 1) replace bound written unread = .ok u) :
    ∃ zs, u = written ++ zs ∧ zs.Sublist unread
      ∧ (0 < bound → findCommand? name unread ≠ none → zs.length < unread.length) := by
  induction bound generalizing written unread with
  | zero =>
      cases h
      exact ⟨unread, rfl, List.Sublist.refl _, fun h0 => absurd h0 (Nat.lt_irrefl 0)⟩
  | succ bound ih =>
      rw [substituteFrom] at h
      cases hi : findCommand? name unread with
      | none =>
          rw [hi] at h
          cases h
          exact ⟨unread, rfl, List.Sublist.refl _, fun _ hne => absurd rfl hne⟩
      | some i =>
          rw [hi] at h
          dsimp only at h
          split at h
          · exact absurd h (by simp)
          · rename_i args hargs
            obtain ⟨zs, rfl, hzs, _⟩ := ih h
            obtain ⟨before, last, o, c, others, hrest, hcont, hlen⟩ := readArguments_ok hargs
            refine ⟨unread.take i ++ replace args.contents ++ zs, by simp, ?_⟩
            -- what is written in place of the invocation and behind it stands in it and behind it
            have hpiece : (replace args.contents ++ zs).Sublist
                (last ++ c :: args.rest) := by
              refine List.Sublist.append ?_ (hzs.trans (List.sublist_cons_self _ _))
              rcases hreplace others last hlen with he | he <;> simp [hcont, he]
            have hdrop : (before ++ o :: (last ++ c :: args.rest)).Sublist (unread.drop i) := by
              rw [← hrest]
              exact List.drop_sublist _ _
            have hall := (List.Sublist.refl (unread.take i)).append
              (((hpiece.cons o).trans (List.sublist_append_right before _)).trans hdrop)
            rw [List.take_append_drop] at hall
            refine ⟨by simpa using hall, fun _ _ => ?_⟩
            have h1 := hpiece.length_le
            have h2 := hdrop.length_le
            have h3 := congrArg List.length (List.take_append_drop i unread)
            simp only [List.length_append, List.length_cons] at h1 h2 h3 ⊢
            omega

/-- Replacing commands finds none, or makes the text lighter. -/
theorem substituteFrom_settles {name : Text} {n : Nat} {replace : List Text → Text}
    (hreplace : ∀ others last, others.length = n →
      replace (others ++ [last]) = last ∨ replace (others ++ [last]) = [])
    {t u : Text} (h : substituteFrom name (n + 1) replace (t.length + 1) [] t = .ok u) :
    Settles (findCommand? name t = none) t u := by
  obtain ⟨zs, rfl, hsub, hlt⟩ := substituteFrom_sublist hreplace h
  cases hi : findCommand? name t with
  | none =>
      rw [substituteFrom, hi] at h
      exact Or.inl ⟨rfl, (Except.ok.inj h).symm⟩
  | some i =>
      exact Or.inr (weight_lt_of_sublist hsub (hlt (Nat.succ_pos _) (by simp [hi])))

/-! ## Separators -/

/-- Which of the bytes `&` of a text stay: all of them are marked by the mask. -/
def Kept (t : Text) (mask : List Bool) : Prop :=
  ∀ i : Nat, t[i]? = some (byte '&') → mask[i]? = some true

theorem zipWith_blank_settles {t : Text} {mask : List Bool} (h : mask.length = t.length) :
    Settles (Kept t mask) t (List.zipWith
      (fun b inside => if b == byte '&' && !inside then byte ' ' else b) t mask) := by
  induction t generalizing mask with
  | nil => exact Or.inl ⟨fun i hi => absurd hi (by simp), rfl⟩
  | cons b r ih =>
      cases mask with
      | nil => exact absurd h (by simp)
      | cons inside mask =>
          have ih := @ih mask (by simpa using h)
          rw [List.zipWith_cons_cons]
          split
          · -- a blank weighs one, the `&` in its place two
            rename_i hb
            have hb : b = byte '&' := eq_of_beq (Bool.and_eq_true_iff.mp hb).1
            have h1 : weight [byte ' '] < weight [b] := by rw [hb]; decide
            refine Or.inr ?_
            rw [weight_cons, weight_cons b r]
            rcases ih with ⟨_, heq⟩ | hlt
            · rw [heq]; omega
            · omega
          · rename_i hb
            rcases ih with ⟨hkept, heq⟩ | hlt
            · refine Or.inl ⟨fun i hi => ?_, by rw [heq]⟩
              cases i with
              | zero =>
                  obtain rfl := Option.some.inj hi
                  simpa using hb
              | succ i => exact hkept i hi
            · refine Or.inr ?_
              rw [weight_cons, weight_cons b r]
              omega

theorem removeCommasFrom_sublist (odd : Bool) (t : Text) :
    (removeCommasFrom odd t).Sublist t := by
  induction t generalizing odd with
  | nil => exact List.Sublist.refl _
  | cons b r ih =>
      rw [removeCommasFrom]
      split
      · exact (ih false).cons b
      · exact (ih _).cons_cons b

/-! ## Rules -/

/-- A rule finds nothing to do in a text. -/
def Rule.Idle : Rule → Text → Prop
  | textcolor, t => findCommand? "\\textcolor" t = none
  | operators, t =>
      Unmatched (spelled? multiplications) t ∧ Unmatched (spelled? divisions) t
        ∧ Unmatched (spelled? comparisons) t
  | leftRight, t => Unmatched sizing? t
  | text, t => findCommand? "\\text" t = none
  | spacing, t => Unmatched spacing? t
  | ampersand, t => Kept t (protectedIn matrixNames t)
  | comma, t => removeCommas t = t

/-- **A rule finds nothing to do and leaves the text as it is, or makes it lighter.** -/
theorem Rule.apply_settles {rule : Rule} {t u : Text} (h : rule.apply t = .ok u) :
    Settles (rule.Idle t) t u := by
  cases rule with
  | textcolor =>
      rw [textcolor_apply] at h
      refine substituteFrom_settles (fun others last hlen => Or.inl ?_) h
      obtain ⟨a, rfl⟩ := List.length_eq_one_iff.mp hlen
      rfl
  | operators =>
      obtain rfl := Except.ok.inj h
      have words : ∀ {ws : List (Text × Text)}, (∀ p ∈ ws, weight p.2 < p.1.length) →
          ∀ v, Settles (Unmatched (spelled? ws) v) v (Text.replaceAll (spelled? ws) v) :=
        fun hws v => replaceAll_settles (spelled?_lightens hws) v
      exact (words (by decide) t).trans (q := fun v =>
        Unmatched (spelled? divisions) v ∧ Unmatched (spelled? comparisons) v)
        ((words (by decide) _).trans (q := Unmatched (spelled? comparisons))
          (words (by decide) _))
  | leftRight =>
      obtain rfl := Except.ok.inj h
      exact replaceAll_settles sizing?_lightens t
  | text =>
      rw [text_apply] at h
      exact substituteFrom_settles (fun _ _ _ => Or.inr rfl) h
  | spacing =>
      obtain rfl := Except.ok.inj h
      exact replaceAll_settles spacing?_lightens t
  | ampersand =>
      obtain rfl := Except.ok.inj h
      exact zipWith_blank_settles (protectedIn_length matrixNames t)
  | comma =>
      obtain rfl := Except.ok.inj h
      have hsub := removeCommasFrom_sublist false t
      by_cases heq : removeCommas t = t
      · exact Or.inl ⟨heq, heq⟩
      · refine Or.inr (weight_lt_of_sublist hsub ?_)
        exact Nat.lt_of_le_of_ne hsub.length_le fun hlen => heq (hsub.eq_of_length hlen)

/-! ## Passes -/

/-- **Rules one after the other** leave the text as it is only if each of them does. -/
theorem rules_settle {rules : List Rule} {t u : Text}
    (h : rules.foldlM (fun t rule => rule.apply t) t = .ok u) :
    Settles (∀ rule ∈ rules, rule.apply t = .ok t ∧ rule.Idle t) t u := by
  induction rules generalizing t with
  | nil => exact Or.inl ⟨by simp, (Except.ok.inj h).symm⟩
  | cons rule rules ih =>
      rw [List.foldlM_cons] at h
      cases happ : rule.apply t with
      | error e => rw [happ] at h; exact absurd h (by simp [bind, Except.bind])
      | ok v =>
          rw [happ] at h
          have hfirst : Settles (rule.apply t = .ok t ∧ rule.Idle t) t v := by
            rcases Rule.apply_settles happ with ⟨hidle, rfl⟩ | hlt
            · exact Or.inl ⟨⟨happ, hidle⟩, rfl⟩
            · exact Or.inr hlt
          have hall := hfirst.trans
            (q := fun v => ∀ rule ∈ rules, rule.apply v = .ok v ∧ rule.Idle v) (ih h)
          rcases hall with ⟨⟨hrule, hrules⟩, heq⟩ | hlt
          · exact Or.inl ⟨List.forall_mem_cons.mpr ⟨hrule, hrules⟩, heq⟩
          · exact Or.inr hlt

/-- A pass that changes a text makes it lighter. -/
theorem pass_weight_lt {t u : Text} (h : pass t = .ok u) (hne : u ≠ t) : weight u < weight t := by
  rcases rules_settle h with ⟨_, heq⟩ | hlt
  · exact absurd heq hne
  · exact hlt

/-- A pass that leaves a text as it is does so rule by rule. -/
theorem pass_fixed {t : Text} (h : pass t = .ok t) (rule : Rule) :
    rule.apply t = .ok t ∧ rule.Idle t :=
  (rules_settle h).idle rule (by cases rule <;> decide)

/-! ## Failures -/

/-- The failures of a rule are about the arguments of a command. -/
def AboutArguments (e : StageError) : Prop :=
  e.reason? = some .missingArgument ∨ e.reason? = some .unbalancedDelimiter

theorem substituteFrom_error {name : Text} {n : Nat} {replace : List Text → Text} {bound : Nat}
    {written unread : Text} {e : StageError}
    (h : substituteFrom name n replace bound written unread = .error e) : AboutArguments e := by
  induction bound generalizing written unread with
  | zero => exact absurd h (by simp [substituteFrom])
  | succ bound ih =>
      rw [substituteFrom] at h
      split at h
      · exact absurd h (by simp)
      · dsimp only at h
        split at h
        · rename_i defect _
          cases h
          cases defect with
          | missing k => exact Or.inl rfl
          | unclosed offset rest => exact Or.inr rfl
        · exact ih h

theorem pass_error {t : Text} {e : StageError} (h : pass t = .error e) : AboutArguments e := by
  have hrule : ∀ {rule : Rule} {t : Text}, rule.apply t = .error e → AboutArguments e := by
    intro rule t h
    cases rule with
    | textcolor => rw [textcolor_apply] at h; exact substituteFrom_error h
    | text => rw [text_apply] at h; exact substituteFrom_error h
    | operators => exact absurd h (by simp [Rule.apply])
    | leftRight => exact absurd h (by simp [Rule.apply])
    | spacing => exact absurd h (by simp [Rule.apply])
    | ampersand => exact absurd h (by simp [Rule.apply])
    | comma => exact absurd h (by simp [Rule.apply])
  unfold pass at h
  generalize Rule.all = rules at h
  induction rules generalizing t with
  | nil => exact absurd h (by simp [pure, Except.pure])
  | cons rule rules ih =>
      rw [List.foldlM_cons] at h
      cases happ : rule.apply t with
      | error e' => rw [happ] at h; cases h; exact hrule happ
      | ok v => rw [happ] at h; exact ih h

/-! ## Cleaning -/

/-- With as many passes as the text has weight, and one more to see that nothing changes, cleaning
comes to its end. -/
theorem cleanFrom_converges {limit left : Nat} {t : Text} (hleft : weight t < left)
    (hlimit : left ≤ limit) :
    (∀ e, (cleanFrom limit left t).result = .error e → AboutArguments e)
      ∧ (cleanFrom limit left t).passes ≤ limit - left + weight t + 1 := by
  induction left generalizing t with
  | zero => exact absurd hleft (Nat.not_lt_zero _)
  | succ left ih =>
      rw [cleanFrom]
      cases hpass : pass t with
      | error e =>
          refine ⟨fun e' he => ?_, by show limit - left ≤ _; omega⟩
          obtain rfl := Except.error.inj he
          exact pass_error hpass
      | ok next =>
          dsimp only
          split
          · exact ⟨fun e he => absurd he (by simp), by show limit - left ≤ _; omega⟩
          · rename_i hne
            have hlt := pass_weight_lt hpass hne
            obtain ⟨herror, hpasses⟩ := ih (t := next) (by omega) (by omega)
            exact ⟨herror, by omega⟩

/-- Cleaning edits, so a cleaned text is not longer than its source. -/
theorem clean_length_le {limit : Nat} {t c : Text} (h : (clean limit t).result = .ok c) :
    c.length ≤ t.length := by
  rw [← traceClean_bytes] at h
  unfold traceClean at h
  cases htrace : traceFrom limit limit (marked t) with
  | error e => rw [htrace] at h; exact absurd h (by simp [Except.map])
  | ok xs =>
      rw [htrace] at h
      obtain rfl := Except.ok.inj h
      have hedits : Edits (marked t) xs := by
        rcases traceFrom_traces limit limit (marked t) with ht | ht
        · rw [htrace] at ht; exact ht
        · rw [htrace] at ht; exact absurd ht (by simp)
      have hlen := hedits.length_le
      rwa [← bytes_length, ← bytes_length (marked t), bytes_marked] at hlen

/--
**Cleaning always comes to an end.** A pass that changes a text makes it lighter. So if there may be
one more pass than the text has weight, no more are made, and cleaning never fails because the text
still changes. What comes out is not longer than the text.
-/
theorem clean_converges (t : Text) :
    (∀ u v, pass u = .ok v → v ≠ u →
      v.length + v.count (byte '&') < u.length + u.count (byte '&'))
    ∧ (∀ limit, t.length + t.count (byte '&') + 1 ≤ limit →
      (∀ e, (clean limit t).result = .error e → e.reason? ≠ some .nonConvergence)
        ∧ (clean limit t).passes ≤ t.length + t.count (byte '&') + 1)
    ∧ ∀ limit c, (clean limit t).result = .ok c → c.length ≤ t.length := by
  refine ⟨fun u v => pass_weight_lt, fun limit hlimit => ?_, fun limit c => clean_length_le⟩
  obtain ⟨herror, hpasses⟩ := cleanFrom_converges (t := t) hlimit (Nat.le_refl limit)
  refine ⟨fun e he => ?_, ?_⟩
  · rcases herror e he with hreason | hreason <;> simp [hreason]
  · rwa [Nat.sub_self, Nat.zero_add] at hpasses

/-- A command with a comma in its name takes three passes of the twelve that it may take: one for
the comma, which also replaces the `&`, one for the command, and one in which nothing changes. -/
theorem splitCommand_converges :
    (pass "\\te,xt\x7ba\x7d&" = .ok "\\text\x7ba\x7d " ∧ 9 + 0 < 10 + 1)
      ∧ (clean 12 "\\te,xt\x7ba\x7d&").passes = 3
      ∧ (clean 12 "\\te,xt\x7ba\x7d&").passes ≤ 10 + 1 + 1
      ∧ (clean 12 "\\te,xt\x7ba\x7d&").result = .ok " " ∧ 1 ≤ 10 := by
  obtain ⟨hpass, hlimit, hlength⟩ := clean_converges "\\te,xt\x7ba\x7d&"
  exact ⟨⟨rfl, hpass "\\te,xt\x7ba\x7d&" "\\text\x7ba\x7d " rfl (by decide)⟩, rfl,
    (hlimit 12 (by decide)).2, rfl, hlength 12 " " rfl⟩

end MathMarkup.Cleaning
