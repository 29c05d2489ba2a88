import MathMarkup.Proofs.Convergence
import MathMarkup.Proofs.Environments

/-!
# Which separators are kept

What is protected lies in a terminated environment; here is the other half. Every byte of a
terminated environment is protected (`protectedFrom_of_enclosed`), so a text keeps its separators if
each of them stands in a terminated environment, and only then (`blankSeparators_eq_iff`).

The environments of one name that are found from left to right do not overlap: one that begins
inside another one ends inside it (`Terminated.inside`), since the counts of both are equal at their
ends and nowhere before.
-/

namespace MathMarkup.Cleaning

open MathMarkup.Text (byte)

variable {name tag x : Text} {depth : Nat}

/-! ## Counting tags -/

/-- A byte more completes at most one tag, the one that ends with it. -/
theorem occurrences_concat (htag : tag ≠ []) (x : Text) (b : UInt8) :
    occurrences tag (x ++ [b])
      = occurrences tag x + if tag <:+ x ++ [b] then 1 else 0 := by
  induction x with
  | nil =>
      have hsingle : tag.isPrefixOf [b] = true ↔ tag <:+ [b] := by
        rw [List.isPrefixOf_iff_prefix]
        constructor
        · intro hp
          rcases List.prefix_cons_iff.mp hp with rfl | ⟨t, rfl, ht⟩
          · exact absurd rfl htag
          · obtain rfl := List.prefix_nil.mp ht
            exact List.suffix_refl _
        · intro hs
          rcases List.suffix_cons_iff.mp hs with rfl | hs
          · exact List.prefix_refl _
          · exact absurd (List.suffix_nil.mp hs) htag
      simp only [List.nil_append, occurrences, Nat.add_zero, Nat.zero_add, hsingle]
  | cons c x ih =>
      have hprefix : tag <+: c :: (x ++ [b]) ↔ tag = c :: (x ++ [b]) ∨ tag <+: c :: x := by
        rw [← List.cons_append, List.prefix_concat_iff]
      have hsuffix : tag <:+ c :: (x ++ [b]) ↔ tag = c :: (x ++ [b]) ∨ tag <:+ x ++ [b] :=
        List.suffix_cons_iff
      rw [List.cons_append, occurrences, occurrences, ih]
      simp only [List.isPrefixOf_iff_prefix, hprefix, hsuffix]
      by_cases hwhole : tag = c :: (x ++ [b])
      · -- the whole text is the tag, so no part of it is
        have hlength : tag.length = x.length + 2 := by
          rw [hwhole]
          simp
        have hbefore : ¬ tag <+: c :: x := by
          intro hp
          have := hp.length_le
          rw [List.length_cons] at this
          omega
        have hbehind : ¬ tag <:+ x ++ [b] := by
          intro hs
          have := hs.length_le
          rw [List.length_append, List.length_singleton] at this
          omega
        rw [if_pos (Or.inl hwhole), if_neg hbefore, if_neg hbehind, if_pos (Or.inl hwhole)]
        omega
      · simp only [hwhole, false_or]
        omega

/-- A backslash of a tag stands at its beginning. -/
theorem IsTag.only_head {p q : Text} (htag : IsTag tag) (h : p ++ byte '\\' :: q <+: tag) :
    p = [] := by
  obtain ⟨w, rfl, hw⟩ := htag
  cases p with
  | nil => rfl
  | cons b p =>
      obtain ⟨-, hp⟩ := List.cons_prefix_cons.mp h
      exact absurd (hp.mem (by simp)) hw

/-- No tag reaches over a backslash. -/
theorem IsTag.before_slash {u s : Text} (htag : IsTag tag) (hp : tag <+: u ++ byte '\\' :: s) :
    tag <+: u ∨ u = [] := by
  rcases Nat.lt_or_ge u.length tag.length with hlt | hge
  · have hall : u ++ [byte '\\'] <+: u ++ byte '\\' :: s := ⟨s, by simp⟩
    have hover : u ++ [byte '\\'] <+: tag := by
      refine List.prefix_of_prefix_length_le hall hp ?_
      rw [List.length_append, List.length_singleton]
      omega
    exact Or.inr (htag.only_head hover)
  · exact Or.inl (List.prefix_of_prefix_length_le hp (List.prefix_append _ _) hge)

theorem occurrences_append (htag : IsTag tag) (u s : Text) :
    occurrences tag (u ++ byte '\\' :: s)
      = occurrences tag u + occurrences tag (byte '\\' :: s) := by
  induction u with
  | nil => rw [List.nil_append, occurrences.eq_1, Nat.zero_add]
  | cons b u ih =>
      have hprefix : tag <+: b :: (u ++ byte '\\' :: s) ↔ tag <+: b :: u := by
        constructor
        · intro hp
          rcases htag.before_slash (u := b :: u) hp with hp | hnil
          · exact hp
          · exact absurd hnil (by simp)
        · intro hp
          exact hp.trans (List.prefix_append (b :: u) _)
      rw [List.cons_append, occurrences, ih, occurrences.eq_2 tag b u]
      simp only [List.isPrefixOf_iff_prefix, hprefix]
      omega

/-! ## The end of an environment is found -/

/-- What closes open environments ends with an end tag: the last byte makes the counts equal. -/
theorem Closes.of_counts
    (equal : occurrences (endTag name) x = depth + occurrences (beginTag name) x)
    (first : ∀ y, y <+: x → y ≠ x →
      occurrences (endTag name) y < depth + occurrences (beginTag name) y) :
    Closes name depth x := by
  refine ⟨equal, first, fun hdepth => ?_⟩
  rcases List.eq_nil_or_concat x with rfl | ⟨y, b, rfl⟩
  · rw [occurrences, occurrences] at equal
    omega
  · rw [List.concat_eq_append] at equal first ⊢
    have hlt := first y (List.prefix_append _ _) (by simp)
    have hbegun : beginTag name ≠ [] := List.cons_ne_nil _ _
    have hended : endTag name ≠ [] := List.cons_ne_nil _ _
    rw [occurrences_concat hended, occurrences_concat hbegun] at equal
    by_cases hends : endTag name <:+ y ++ [b]
    · exact hends
    · rw [if_neg hends] at equal
      omega

theorem Closes.of_begun (hname : byte '\\' ∉ name)
    (h : Closes name (depth + 1) (beginTag name ++ x)) : Closes name (depth + 2) x := by
  have hcount := occurrences_beginTag hname
  refine .of_counts ?_ fun y hy hne => ?_
  · have := h.equal
    rw [(hcount x).1, (hcount x).2] at this
    omega
  · have := h.first (beginTag name ++ y) ((List.prefix_append_right_inj _).mpr hy)
      (by simpa using hne)
    rw [(hcount y).1, (hcount y).2] at this
    omega

theorem Closes.of_ended (hname : byte '\\' ∉ name)
    (h : Closes name (depth + 1) (endTag name ++ x)) : Closes name depth x := by
  have hcount := occurrences_endTag hname
  refine .of_counts ?_ fun y hy hne => ?_
  · have := h.equal
    rw [(hcount x).1, (hcount x).2] at this
    omega
  · have := h.first (endTag name ++ y) ((List.prefix_append_right_inj _).mpr hy)
      (by simpa using hne)
    rw [(hcount y).1, (hcount y).2] at this
    omega

theorem Closes.of_cons {b : UInt8} (hb : ¬ beginTag name <+: b :: x)
    (he : ¬ endTag name <+: b :: x) (h : Closes name (depth + 1) (b :: x)) :
    Closes name (depth + 1) x := by
  refine .of_counts ?_ fun y hy hne => ?_
  · have := h.equal
    rw [occurrences_cons hb (List.prefix_refl x), occurrences_cons he (List.prefix_refl x)] at this
    exact this
  · have := h.first (b :: y) (List.cons_prefix_cons.mpr ⟨rfl, hy⟩) (by simpa using hne)
    rw [occurrences_cons hb hy, occurrences_cons he hy] at this
    exact this

/-- A tag at the beginning of a text does not reach over a tag at its end. -/
theorem prefix_of_ends {last v : Text} (htag : IsTag tag) (hlast : IsTag last)
    (hdiffer : last <+: tag → last = tag) (hx : last <:+ x) (hp : tag <+: x ++ v) : tag <+: x := by
  rcases Nat.lt_or_ge x.length tag.length with hlt | hge
  · exfalso
    obtain ⟨p, rfl⟩ := hx
    have hpiece : p ++ last <+: tag :=
      List.prefix_of_prefix_length_le (List.prefix_append _ _) hp (Nat.le_of_lt hlt)
    obtain ⟨w, rfl, -⟩ := hlast
    have hp := htag.only_head hpiece
    subst hp
    rw [List.nil_append] at hpiece hlt
    rw [hdiffer hpiece] at hlt
    omega
  · exact List.prefix_of_prefix_length_le hp (List.prefix_append _ _) hge

/-- **The end of an environment is found** where it is closed. -/
theorem environmentEnd?_of_closes (hname : byte '\\' ∉ name) (h : Closes name depth x) (v : Text) :
    environmentEnd? name depth 0 (x ++ v) = some x.length := by
  induction hlen : x.length using Nat.strongRecOn generalizing x depth with
  | ind len ih =>
    cases depth with
    | zero =>
        have hx : x = [] := by
          cases x with
          | nil => rfl
          | cons b r => exact absurd (h.first [] List.nil_prefix (by simp)) (by simp [occurrences])
        subst hx
        subst hlen
        cases v <;> rfl
    | succ depth =>
        have hends := h.ends (Nat.succ_pos _)
        cases x with
        | nil => exact absurd (List.suffix_nil.mp hends) (List.cons_ne_nil _ _)
        | cons b r =>
            -- a tag is read whole, and what is left closes as much as it leaves open
            have behind : ∀ {tag : Text} {depth' : Nat}, 0 < tag.length → tag <+: b :: r →
                (∀ x', b :: r = tag ++ x' → Closes name depth' x') →
                (environmentEnd? name depth' (tag.length - 1) (r ++ v)).map (· + 1) = some len := by
              intro tag depth' hpos hp hcloses
              obtain ⟨x', hx'⟩ := hp
              have hsize := congrArg List.length hx'
              rw [List.length_append, hlen] at hsize
              have hall : b :: (r ++ v) = tag ++ (x' ++ v) := by
                rw [← List.append_assoc, hx', List.cons_append]
              rw [environmentEnd?_tag hall hpos, ih x'.length (by omega) (hcloses x' hx'.symm) rfl]
              exact congrArg some ((Nat.add_comm _ _).trans hsize)
            rw [List.cons_append, environmentEnd?]
            split
            · rename_i hb
              have hb : beginTag name <+: b :: r :=
                prefix_of_ends (beginTag_isTag hname) (endTag_isTag hname)
                  (fun hp => absurd hp (not_endTag (List.prefix_refl _))) hends
                  (List.isPrefixOf_iff_prefix.mp hb)
              refine behind (Nat.succ_pos _) hb fun x' hx' => ?_
              rw [hx'] at h
              exact h.of_begun hname
            · rename_i hb
              split
              · rename_i he
                have he : endTag name <+: b :: r :=
                  prefix_of_ends (endTag_isTag hname) (endTag_isTag hname) (fun _ => rfl) hends
                    (List.isPrefixOf_iff_prefix.mp he)
                refine behind (Nat.succ_pos _) he fun x' hx' => ?_
                rw [hx'] at h
                exact h.of_ended hname
              · rename_i he
                have hno : ∀ {tag : Text}, ¬ tag.isPrefixOf (b :: (r ++ v)) = true →
                    ¬ tag <+: b :: r := fun hno hp =>
                  hno (List.isPrefixOf_iff_prefix.mpr (hp.trans (List.prefix_append (b :: r) v)))
                rw [List.length_cons] at hlen
                rw [ih r.length (by omega) (h.of_cons (hno hb) (hno he)) rfl]
                exact congrArg some hlen

/-! ## Environments do not overlap -/

theorem Terminated.closes (hname : byte '\\' ∉ name) (h : Terminated name (beginTag name ++ x)) :
    Closes name 1 x := by
  have hcount := occurrences_beginTag hname
  refine .of_counts ?_ fun y hy hne => ?_
  · have := h.equal
    rw [(hcount x).1, (hcount x).2] at this
    exact this.symm
  · have := h.first (beginTag name ++ y) (List.prefix_append _ _)
      ((List.prefix_append_right_inj _).mpr hy) (by simpa using hne)
    rw [(hcount y).1, (hcount y).2] at this
    exact this

/-- A beginning of a text with a tag in front that is no piece of the tag has it in front. -/
theorem prefix_or_piece {s : Text} (hs : s <+: x) (htag : tag <+: x) :
    tag <+: s ∨ (s <+: tag ∧ s ≠ tag) := by
  rcases Nat.lt_or_ge s.length tag.length with hlt | hge
  · refine Or.inr ⟨List.prefix_of_prefix_length_le hs htag (Nat.le_of_lt hlt), fun heq => ?_⟩
    rw [heq] at hlt
    omega
  · exact Or.inl (List.prefix_of_prefix_length_le htag hs hge)

/-- **An environment that begins inside another one of the name ends inside it.** -/
theorem Terminated.inside (hname : byte '\\' ∉ name) {u v w y : Text} (hy : Terminated name y)
    (hx : Terminated name x) (h : u ++ x ++ v = y ++ w) (hu : u.length < y.length) :
    u.length + x.length ≤ y.length := by
  refine Nat.le_of_not_lt fun hover => ?_
  -- the first one ends with `s`, with which the second one begins
  rw [List.append_assoc] at h
  obtain ⟨s, rfl⟩ : u <+: y :=
    List.prefix_of_prefix_length_le ⟨x ++ v, h⟩ (List.prefix_append _ _) (Nat.le_of_lt hu)
  rw [List.append_assoc, List.append_cancel_left_eq] at h
  rw [List.length_append] at hu hover
  have hsx : s <+: x :=
    List.prefix_of_prefix_length_le ⟨w, h.symm⟩ (List.prefix_append _ _) (by omega)
  have hne : s ≠ x := by
    intro heq
    rw [heq] at hover
    omega
  obtain ⟨s', rfl⟩ : ∃ s', s = byte '\\' :: s' := by
    obtain ⟨tail, rfl⟩ := hx.begins
    cases s with
    | nil => exact absurd hu (by simp)
    | cons b s' => exact ⟨s', by rw [(List.cons_prefix_cons.mp hsx).1]; rfl⟩
  have hbegun : beginTag name <+: byte '\\' :: s' := by
    rcases prefix_or_piece hsx hx.begins with hp | ⟨hpiece, _⟩
    · exact hp
    · -- else the end tag of the first one would be a piece of a begin tag
      exfalso
      rcases Nat.le_total (endTag name).length (byte '\\' :: s').length with hle | hle
      · obtain ⟨p, hp⟩ := List.suffix_of_suffix_length_le hy.ends (List.suffix_append _ _) hle
        rw [← hp] at hpiece
        have hnil := (beginTag_isTag hname).only_head hpiece
        subst hnil
        exact not_endTag (List.prefix_refl _) hpiece
      · obtain ⟨p, hp⟩ := List.suffix_of_suffix_length_le (List.suffix_append _ _) hy.ends hle
        have hnil := (endTag_isTag hname).only_head ⟨[], (List.append_nil _).trans hp⟩
        subst hnil
        rw [List.nil_append] at hp
        rw [hp] at hpiece
        exact not_endTag (List.prefix_refl _) hpiece
  have hsecond := hx.first _ hbegun hsx hne
  have hcount : ∀ {tag : Text}, IsTag tag → occurrences tag (u ++ byte '\\' :: s')
      = occurrences tag u + occurrences tag (byte '\\' :: s') := fun htag =>
    occurrences_append htag u s'
  have hequal := hy.equal
  rw [hcount (beginTag_isTag hname), hcount (endTag_isTag hname)] at hequal
  -- the first one begins before the second, or with it
  rcases (beginTag_isTag hname).before_slash hy.begins with hp | rfl
  · have hfirst := hy.first u hp (List.prefix_append _ _) (by simp)
    omega
  · rw [occurrences, occurrences] at hequal
    omega

/-! ## Protected bytes -/

theorem Enclosed.append_right {t : Text} {i : Nat} (h : Enclosed name t i) (v : Text) :
    Enclosed name (t ++ v) i := by
  obtain ⟨u, x, v', rfl, hx, hle, hlt⟩ := h
  exact ⟨u, x, v' ++ v, by simp, hx, hle, hlt⟩

/-- Enclosed bytes behind some bytes that hold no beginning of an environment. -/
theorem Enclosed.behind {t : Text} {i k : Nat} {u v : Text} (ht : t = u ++ x ++ v)
    (hx : Terminated name x) (hle : u.length ≤ i) (hlt : i < u.length + x.length)
    (hk : k ≤ u.length) : Enclosed name (t.drop k) (i - k) := by
  refine ⟨u.drop k, x, v, ?_, hx, ?_, ?_⟩
  · rw [ht, List.append_assoc, List.drop_append_of_le_length hk, List.append_assoc]
  · rw [List.length_drop]
    omega
  · rw [List.length_drop]
    omega

/-- An environment behind one that is found lies in it or begins after its end. -/
theorem Terminated.in_or_behind (hname : byte '\\' ∉ name) {u v rest : Text} {n : Nat}
    (hx : Terminated name x) (h : beginTag name ++ rest = u ++ x ++ v)
    (hn : environmentEnd? name 1 0 rest = some n) :
    n ≤ rest.length ∧ (u.length + x.length ≤ (beginTag name).length + n
      ∨ (beginTag name).length + n ≤ u.length) := by
  obtain ⟨hle, hcloses⟩ := environmentEnd?_closes hname hn
  have hlength : (beginTag name ++ rest.take n).length = (beginTag name).length + n := by
    rw [List.length_append, List.length_take, Nat.min_eq_left hle]
  refine ⟨hle, ?_⟩
  rcases Nat.lt_or_ge u.length (beginTag name ++ rest.take n).length with hu | hu
  · have hcut : u ++ x ++ v = beginTag name ++ rest.take n ++ rest.drop n := by
      rw [← h, List.append_assoc, List.take_append_drop]
    have hinside := (hcloses.terminated hname).inside hname hx hcut hu
    exact Or.inl (by omega)
  · exact Or.inr (by omega)

/-- An environment begins behind a begin tag that has no end. -/
theorem Terminated.behind_unended (hname : byte '\\' ∉ name) {u v rest : Text}
    (hx : Terminated name x) (h : beginTag name ++ rest = u ++ x ++ v)
    (hnone : environmentEnd? name 1 0 rest = none) : (beginTag name).length ≤ u.length := by
  obtain ⟨x', rfl⟩ := hx.begins
  have hp : beginTag name <+: u ++ byte '\\' :: (beginTag name ++ x' ++ v).tail := by
    refine ⟨rest, h.trans ?_⟩
    rw [List.append_assoc]
    rfl
  rcases (beginTag_isTag hname).before_slash hp with hu | rfl
  · exact hu.length_le
  · -- it begins with the tag, so its end would have been found
    rw [List.nil_append, List.append_assoc, List.append_cancel_left_eq] at h
    rw [h, environmentEnd?_of_closes hname (hx.closes hname)] at hnone
    exact absurd hnone (by simp)

/-- **The bytes of a terminated environment are protected.** -/
theorem protectedFrom_of_enclosed (hname : byte '\\' ∉ name) {t : Text} {i : Nat}
    (h : Enclosed name t i) : (protectedFrom name 0 false t)[i]? = some true := by
  induction hlen : t.length using Nat.strongRecOn generalizing t i with
  | ind len ih =>
    obtain ⟨u, x, v, ht, hx, hle, hlt⟩ := h
    cases t with
    | nil =>
        have := congrArg List.length ht
        rw [List.length_append, List.length_append, List.length_nil] at this
        omega
    | cons b r =>
        -- behind `k` bytes that are marked alike, if the environment begins there
        have behind : ∀ {k : Nat} {inside : Bool}, k ≤ r.length →
            (inside = true ∧ i ≤ k ∨ k + 1 ≤ u.length) →
            (inside :: protectedFrom name k inside r)[i]? = some true := by
          intro k inside hk hwhere
          rw [protectedFrom_run hk, ← List.cons_append, ← List.replicate_succ]
          rcases Nat.lt_or_ge i (k + 1) with hi | hi
          · rw [List.getElem?_append_left (by simpa using hi), List.getElem?_replicate_of_lt hi]
            rcases hwhere with ⟨hinside, _⟩ | hu
            · rw [hinside]
            · omega
          · have hu : k + 1 ≤ u.length := by
              rcases hwhere with ⟨_, hik⟩ | hu
              · omega
              · exact hu
            have henclosed := Enclosed.behind ht hx hle hlt hu
            rw [List.drop_succ_cons] at henclosed
            rw [List.getElem?_append_right (by simpa using hi), List.length_replicate]
            refine ih _ ?_ henclosed rfl
            rw [← hlen, List.length_drop, List.length_cons]
            omega
        have htag : 0 < (beginTag name).length := Nat.succ_pos _
        rw [protectedFrom]
        split
        · rename_i hb
          obtain ⟨rest, hrest⟩ := List.isPrefixOf_iff_prefix.mp hb
          have hsize := congrArg List.length hrest
          rw [List.length_append, List.length_cons] at hsize
          have hdrop : (b :: r).drop (beginTag name).length = rest := by
            rw [← hrest, List.drop_left]
          rw [hdrop]
          split
          · rename_i n hn
            obtain ⟨hn, hwhere⟩ := hx.in_or_behind hname (hrest.trans ht) hn
            refine behind (by omega) ?_
            rcases hwhere with hin | hu
            · exact Or.inl ⟨rfl, by omega⟩
            · exact Or.inr (by omega)
          · rename_i hnone
            have hu := hx.behind_unended hname (hrest.trans ht) hnone
            exact behind (by omega) (Or.inr (by omega))
        · rename_i hb
          refine behind (Nat.zero_le _) (Or.inr ?_)
          cases u with
          | nil =>
              refine absurd (List.isPrefixOf_iff_prefix.mpr ?_) hb
              rw [ht, List.nil_append]
              exact hx.begins.trans (List.prefix_append _ _)
          | cons c u => simp

theorem protectedIn_of_enclosed {names : List Text} (hnames : ∀ name ∈ names, byte '\\' ∉ name)
    {t : Text} {i : Nat} (hname : name ∈ names) (h : Enclosed name t i) :
    (protectedIn names t)[i]? = some true := by
  induction names with
  | nil => exact absurd hname (by simp)
  | cons first names ih =>
      have hmask : protectedIn (first :: names) t
          = List.zipWith (· || ·) (protectedFrom first 0 false t) (protectedIn names t) := rfl
      have hi : i < t.length := by
        obtain ⟨u, x, v, rfl, -, -, hlt⟩ := h
        rw [List.length_append, List.length_append]
        omega
      have hfirst : i < (protectedFrom first 0 false t).length := by rwa [protectedFrom_length]
      have hrest : i < (protectedIn names t).length := by rwa [protectedIn_length]
      rw [hmask, List.getElem?_zipWith_eq_some]
      refine ⟨_, _, List.getElem?_eq_getElem hfirst, List.getElem?_eq_getElem hrest, ?_⟩
      rw [Bool.or_eq_true_iff]
      rcases List.mem_cons.mp hname with rfl | hmem
      · have := protectedFrom_of_enclosed (hnames _ (by simp)) h
        rw [List.getElem?_eq_getElem hfirst] at this
        exact Or.inl (Option.some.inj this)
      · have := ih (fun n hn => hnames n (by simp [hn])) hmem
        rw [List.getElem?_eq_getElem hrest] at this
        exact Or.inr (Option.some.inj this)

theorem zipWith_blank_eq_iff {t : Text} {mask : List Bool} (h : mask.length = t.length) :
    List.zipWith (fun b inside => if b == byte '&' && !inside then byte ' ' else b) t mask = t
      ↔ Kept t mask := by
  constructor
  · intro heq
    rcases zipWith_blank_settles h with ⟨hkept, -⟩ | hlt
    · exact hkept
    · rw [heq] at hlt
      omega
  · intro hkept
    refine List.ext_getElem? fun i => ?_
    rw [List.getElem?_zipWith]
    cases ht : t[i]? with
    | none => rfl
    | some b =>
        have hi : i < mask.length := by
          rw [h]
          exact (List.getElem?_eq_some_iff.mp ht).1
        rw [List.getElem?_eq_getElem hi]
        by_cases hb : b = byte '&'
        · subst hb
          have hinside := hkept i ht
          rw [List.getElem?_eq_getElem hi] at hinside
          simp [Option.some.inj hinside]
        · simp [hb]

theorem matrixNames_no_slash : ∀ name ∈ matrixNames, byte '\\' ∉ name := by decide

/-- **A text keeps its separators** if each of them lies in a terminated matrix environment, and
only then. -/
theorem blankSeparators_eq_iff {t : Text} :
    blankSeparators t = t ↔
      ∀ i, t[i]? = some (byte '&') → ∃ name ∈ matrixNames, Enclosed name t i := by
  rw [blankSeparators, zipWith_blank_eq_iff (protectedIn_length matrixNames t)]
  constructor
  · intro hkept i hi
    exact protectedIn_enclosed matrixNames_no_slash (hkept i hi)
  · intro henclosed i hi
    obtain ⟨name, hname, h⟩ := henclosed i hi
    exact protectedIn_of_enclosed matrixNames_no_slash hname h

end MathMarkup.Cleaning
