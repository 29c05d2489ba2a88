import MathMarkup.Proofs.Nesting

/-!
# The partner of a bracket

`findEnd` scans a text with a counter and says nothing about what it skips. Here its answer is
described without the scan, by how many brackets of the one kind are opened and closed in the texts
that begin behind the bracket: the partner is the first byte up to which one more is closed than
opened (`findEnd_exact`). There is no other condition, so brackets of the other kinds may stand in
any order.

The counter of the scan is the number still open, so what carries the induction is that a prefix
never closes more than was open before it (`closeOffset?_eq_some_iff`).
-/

namespace MathMarkup.Bracket

/-! ## Counting one kind -/

/-- How many more brackets of a kind a text closes than it opens. -/
def surplus (k : Bracket) (t : Text) : Int := t.count k.closing - t.count k.opening

variable {k : Bracket} {t u : Text} {b : UInt8}

@[simp] theorem surplus_nil (k : Bracket) : surplus k [] = 0 := rfl

theorem surplus_append (k : Bracket) (t u : Text) :
    surplus k (t ++ u) = surplus k t + surplus k u := by
  unfold surplus
  rw [List.count_append, List.count_append]
  omega

theorem surplus_opening (k : Bracket) (t : Text) :
    surplus k (k.opening :: t) = surplus k t - 1 := by
  unfold surplus
  rw [List.count_cons_self, List.count_cons_of_ne (opening_ne_closing k k)]
  omega

theorem surplus_closing (k : Bracket) (t : Text) :
    surplus k (k.closing :: t) = surplus k t + 1 := by
  unfold surplus
  rw [List.count_cons_self, List.count_cons_of_ne (opening_ne_closing k k).symm]
  omega

theorem surplus_other (ho : b ≠ k.opening) (hc : b ≠ k.closing) (t : Text) :
    surplus k (b :: t) = surplus k t := by
  unfold surplus
  rw [List.count_cons_of_ne ho, List.count_cons_of_ne hc]

/-- One byte more closes at most one bracket more, and only a closing bracket does. -/
theorem surplus_snoc (k : Bracket) (t : Text) (b : UInt8) :
    surplus k (t ++ [b]) ≤ surplus k t + 1
      ∧ (surplus k t < surplus k (t ++ [b]) → b = k.closing) := by
  rw [surplus_append]
  by_cases hc : b = k.closing
  · rw [hc, surplus_closing, surplus_nil]
    exact ⟨by omega, fun _ => rfl⟩
  · by_cases ho : b = k.opening
    · rw [ho, surplus_opening, surplus_nil]
      exact ⟨by omega, fun h => by omega⟩
    · rw [surplus_other ho hc, surplus_nil]
      exact ⟨by omega, fun h => by omega⟩

/-- No beginning of a text closes more than `depth` brackets that it has not opened. -/
def StaysOpen (k : Bracket) (depth : Nat) (t : Text) : Prop :=
  ∀ p, p <+: t → surplus k p ≤ depth

theorem staysOpen_nil (k : Bracket) (depth : Nat) : StaysOpen k depth [] := by
  intro p hp
  rw [List.prefix_nil.mp hp, surplus_nil]
  omega

/-- The beginnings of a longer text are the empty one and those of the rest with a byte in front. -/
theorem staysOpen_cons {depth depth' : Nat}
    (h : ∀ p, surplus k (b :: p) = surplus k p + (depth - depth')) :
    StaysOpen k depth (b :: t) ↔ StaysOpen k depth' t := by
  constructor
  · intro hopen p hp
    have := hopen (b :: p) (List.cons_prefix_cons.mpr ⟨rfl, hp⟩)
    rw [h] at this
    omega
  · intro hopen p hp
    rcases List.prefix_cons_iff.mp hp with rfl | ⟨q, rfl, hq⟩
    · rw [surplus_nil]
      omega
    · have := hopen q hq
      rw [h]
      omega

theorem staysOpen_opening {depth : Nat} :
    StaysOpen k depth (k.opening :: t) ↔ StaysOpen k (depth + 1) t :=
  staysOpen_cons fun p => by rw [surplus_opening]; omega

theorem staysOpen_closing {depth : Nat} :
    StaysOpen k (depth + 1) (k.closing :: t) ↔ StaysOpen k depth t :=
  staysOpen_cons fun p => by rw [surplus_closing]; omega

theorem staysOpen_other {depth : Nat} (ho : b ≠ k.opening) (hc : b ≠ k.closing) :
    StaysOpen k depth (b :: t) ↔ StaysOpen k depth t :=
  staysOpen_cons fun p => by rw [surplus_other ho hc]; omega

/-- Where nothing is open, nothing can be closed. -/
theorem not_staysOpen_closing : ¬ StaysOpen k 0 (k.closing :: t) := by
  intro h
  have := h [k.closing] ⟨t, rfl⟩
  rw [surplus_closing, surplus_nil] at this
  omega

/-! ## The scan -/

/-- What the scan passes over before it stops at a closing bracket: it closes all of the `depth`
brackets that are counted, and never more. -/
def Enclosed (k : Bracket) (depth : Nat) (u : Text) : Prop :=
  surplus k u = depth ∧ StaysOpen k depth u

theorem enclosed_nil_iff {depth : Nat} : Enclosed k depth [] ↔ depth = 0 := by
  unfold Enclosed
  rw [surplus_nil]
  constructor
  · intro h
    omega
  · rintro rfl
    exact ⟨rfl, staysOpen_nil k 0⟩

theorem enclosed_opening_iff {depth : Nat} :
    Enclosed k depth (k.opening :: u) ↔ Enclosed k (depth + 1) u := by
  unfold Enclosed
  rw [staysOpen_opening, surplus_opening]
  exact and_congr_left fun _ => by omega

theorem enclosed_closing_iff {depth : Nat} :
    Enclosed k (depth + 1) (k.closing :: u) ↔ Enclosed k depth u := by
  unfold Enclosed
  rw [staysOpen_closing, surplus_closing]
  exact and_congr_left fun _ => by omega

theorem enclosed_other_iff {depth : Nat} (ho : b ≠ k.opening) (hc : b ≠ k.closing) :
    Enclosed k depth (b :: u) ↔ Enclosed k depth u := by
  unfold Enclosed
  rw [staysOpen_other ho hc, surplus_other ho hc]

/-- A byte in front of a text that is passed over is passed over itself. -/
theorem enclosed_split_cons {depth depth' j : Nat} (hb : depth = 0 → b ≠ k.closing)
    (h : ∀ u, Enclosed k depth (b :: u) ↔ Enclosed k depth' u) :
    (∃ u v, b :: t = u ++ k.closing :: v ∧ u.length = j ∧ Enclosed k depth u)
      ↔ ∃ i, i + 1 = j
        ∧ ∃ u v, t = u ++ k.closing :: v ∧ u.length = i ∧ Enclosed k depth' u := by
  constructor
  · rintro ⟨u, v, ht, rfl, hu⟩
    cases u with
    | nil => exact absurd (List.cons.inj ht).1 (hb (enclosed_nil_iff.mp hu))
    | cons x u =>
        obtain ⟨rfl, rfl⟩ := List.cons.inj ht
        exact ⟨u.length, rfl, u, v, rfl, rfl, (h u).mp hu⟩
  · rintro ⟨_, rfl, u, v, rfl, rfl, hu⟩
    exact ⟨b :: u, v, rfl, rfl, (h u).mpr hu⟩

/-- **The scan stops behind the text in which the open brackets are all closed.** -/
theorem closeOffset?_eq_some_iff {depth j : Nat} :
    closeOffset? k depth t = some j
      ↔ ∃ u v, t = u ++ k.closing :: v ∧ u.length = j ∧ Enclosed k depth u := by
  induction t generalizing depth j with
  | nil => simp [closeOffset?]
  | cons b t ih =>
      rw [closeOffset?_cons]
      by_cases ho : b = k.opening
      · subst ho
        rw [if_pos (beq_self_eq_true _), Option.map_eq_some_iff,
          enclosed_split_cons (fun _ => opening_ne_closing k k) fun _ => enclosed_opening_iff]
        exact exists_congr fun i => (and_congr_left' ih).trans and_comm
      · rw [if_neg (by simpa using ho)]
        by_cases hc : b = k.closing
        · subst hc
          rw [if_pos (beq_self_eq_true _)]
          cases depth with
          | zero =>
              -- nothing is open, so the scan is at its end
              constructor
              · intro h
                cases h
                exact ⟨[], t, rfl, rfl, enclosed_nil_iff.mpr rfl⟩
              · rintro ⟨u, v, ht, rfl, hu⟩
                cases u with
                | nil => rfl
                | cons x u =>
                    obtain ⟨rfl, rfl⟩ := List.cons.inj ht
                    exact absurd hu.2 not_staysOpen_closing
          | succ depth =>
              rw [Option.map_eq_some_iff,
                enclosed_split_cons (fun h => absurd h (by simp)) fun _ => enclosed_closing_iff]
              exact exists_congr fun i => (and_congr_left' ih).trans and_comm
        · rw [if_neg (by simpa using hc), Option.map_eq_some_iff,
            enclosed_split_cons (fun _ => hc) fun _ => enclosed_other_iff ho hc]
          exact exists_congr fun i => (and_congr_left' ih).trans and_comm

theorem closeOffset?_getElem {depth j : Nat} (h : closeOffset? k depth t = some j) :
    t[j]? = some k.closing := by
  obtain ⟨u, v, rfl, rfl, _⟩ := closeOffset?_eq_some_iff.mp h
  rw [List.getElem?_append_right (Nat.le_refl _), Nat.sub_self]
  rfl

/-- The scan finds nothing where the open brackets are never all closed. -/
theorem closeOffset?_eq_none_iff {depth : Nat} :
    closeOffset? k depth t = none ↔ StaysOpen k depth t := by
  induction t generalizing depth with
  | nil => simp [closeOffset?, staysOpen_nil]
  | cons b t ih =>
      rw [closeOffset?_cons]
      by_cases ho : b = k.opening
      · subst ho
        rw [if_pos (beq_self_eq_true _), Option.map_eq_none_iff, ih, staysOpen_opening]
      · rw [if_neg (by simpa using ho)]
        by_cases hc : b = k.closing
        · subst hc
          rw [if_pos (beq_self_eq_true _)]
          cases depth with
          | zero => simp [not_staysOpen_closing]
          | succ depth => rw [Option.map_eq_none_iff, ih, staysOpen_closing]
        · rw [if_neg (by simpa using hc), Option.map_eq_none_iff, ih, staysOpen_other ho hc]

/-! ## The first surplus -/

/-- A text holds one more closing bracket of a kind than opening ones. -/
def OneMore (k : Bracket) (t : Text) : Prop := t.count k.closing = t.count k.opening + 1

theorem oneMore_iff : OneMore k t ↔ surplus k t = 1 := by
  unfold OneMore surplus
  omega

/-- A beginning can close one more than it opens only behind one that closes as many. -/
theorem surplus_take_le {n : Nat} (h : ∀ i, i < n → ¬ OneMore k (t.take (i + 1))) :
    surplus k (t.take n) ≤ 0 := by
  induction n with
  | zero => simp
  | succ n ih =>
      have hn := ih fun i hi => h i (Nat.lt_succ_of_lt hi)
      have hne := h n (Nat.lt_succ_self n)
      rw [oneMore_iff] at hne
      cases hb : t[n]? with
      | none =>
          have hlen : t.length ≤ n := List.getElem?_eq_none_iff.mp hb
          rw [List.take_of_length_le (by omega)] at hn ⊢
          exact hn
      | some b =>
          rw [List.take_add_one, hb] at hne ⊢
          have := (surplus_snoc k (t.take n) b).1
          simp only [Option.toList_some] at hne ⊢
          omega

/-- What is passed over, and the closing bracket behind it, are the shortest beginning with one more
closing bracket. -/
theorem enclosed_iff_least {n : Nat} :
    (∃ u v, t = u ++ k.closing :: v ∧ u.length = n ∧ Enclosed k 0 u)
      ↔ OneMore k (t.take (n + 1)) ∧ ∀ i, i < n → ¬ OneMore k (t.take (i + 1)) := by
  constructor
  · rintro ⟨u, v, rfl, rfl, hsurplus, hopen⟩
    refine ⟨?_, ?_⟩
    · rw [oneMore_iff, List.take_append, List.take_of_length_le (Nat.le_succ _), surplus_append,
        hsurplus, Nat.add_sub_cancel_left, List.take_succ_cons, List.take_zero, surplus_closing]
      rfl
    · intro i hi hone
      rw [oneMore_iff, List.take_append_of_le_length (show i + 1 ≤ u.length from hi)] at hone
      have hle := hopen _ (List.take_prefix (i + 1) u)
      omega
  · rintro ⟨hone, hleast⟩
    have hle := surplus_take_le hleast
    rw [oneMore_iff] at hone
    cases hb : t[n]? with
    | none =>
        -- behind the end of the text nothing changes
        have hlen : t.length ≤ n := List.getElem?_eq_none_iff.mp hb
        rw [List.take_of_length_le (by omega)] at hone hle
        omega
    | some b =>
        obtain ⟨hn, hbn⟩ := List.getElem?_eq_some_iff.mp hb
        rw [List.take_add_one, hb] at hone
        simp only [Option.toList_some] at hone
        obtain ⟨hstep, hclosing⟩ := surplus_snoc k (t.take n) b
        obtain rfl := hclosing (by omega)
        refine ⟨t.take n, t.drop (n + 1), ?_, ?_, by omega, ?_⟩
        · rw [← hbn, List.getElem_cons_drop, List.take_append_drop]
        · rw [List.length_take, Nat.min_eq_left (Nat.le_of_lt hn)]
        · intro p hp
          -- a beginning of this beginning is one of the text
          have hpt : p = t.take p.length :=
            List.prefix_iff_eq_take.mp (hp.trans (List.take_prefix n t))
          have hpn : p.length ≤ n := Nat.le_trans hp.length_le (List.length_take_le n t)
          rw [hpt]
          exact surplus_take_le fun i hi => hleast i (by omega)

/-! ## The answer -/

/-- A bracket of a kind opens at a position of a text. -/
def OpensAt (t : Text) (pos : Int) (k : Bracket) : Prop :=
  0 ≤ pos ∧ t[pos.toNat]? = some k.opening

theorem OpensAt.unique {pos : Int} {j k : Bracket} (hj : OpensAt t pos j) (hk : OpensAt t pos k) :
    j = k := opening_injective (Option.some.inj (hj.2.symm.trans hk.2))

/-- Where a bracket opens, its kind is scanned for in what stands behind it. -/
theorem findEnd_of_opensAt {pos : Int} (h : OpensAt t pos k) :
    findEnd t pos = match closeOffset? k 0 (t.drop (pos.toNat + 1)) with
      | none => .error (unbalanced t pos)
      | some j => .ok (pos.toNat + 1 + j) := by
  obtain ⟨hpos, hb⟩ := h
  obtain ⟨hlt, hb⟩ := List.getElem?_eq_some_iff.mp hb
  unfold findEnd
  rw [if_neg (by omega), List.drop_eq_getElem_cons hlt, hb]
  cases hj : closeOffset? k 0 (t.drop (pos.toNat + 1)) <;> simp [hj]

/-- Elsewhere there is nothing to scan for. -/
theorem findEnd_of_not_opensAt {pos : Int} (h : ∀ k, ¬ OpensAt t pos k) :
    findEnd t pos = .error (noStart t pos) := by
  unfold findEnd
  split
  · rfl
  · rename_i hpos
    split
    · rfl
    · rename_i b r hdrop
      split
      · rfl
      · rename_i k hk
        have hb : t[pos.toNat]? = some b := by
          rw [← List.head?_drop, hdrop]
          rfl
        rw [ofOpening?_eq_some_iff.mp hk] at hb
        exact absurd ⟨by omega, hb⟩ (h k)

/-- A position at which no bracket opens is none of the text, or another byte stands there. -/
theorem forall_not_opensAt_iff {pos : Int} :
    (∀ k, ¬ OpensAt t pos k)
      ↔ pos < 0 ∨ t.length ≤ pos ∨ ∃ b, t[pos.toNat]? = some b ∧ ofOpening? b = none := by
  constructor
  · intro h
    rcases Int.lt_or_le pos 0 with hneg | hpos
    · exact Or.inl hneg
    · cases hb : t[pos.toNat]? with
      | none =>
          have := List.getElem?_eq_none_iff.mp hb
          exact Or.inr (Or.inl (by omega))
      | some b =>
          refine Or.inr (Or.inr ⟨b, rfl, ?_⟩)
          cases hk : ofOpening? b with
          | none => rfl
          | some k => exact absurd ⟨hpos, by rw [hb, ofOpening?_eq_some_iff.mp hk]⟩ (h k)
  · rintro h k ⟨hpos, hb⟩
    have hlt := (List.getElem?_eq_some_iff.mp hb).1
    rcases h with h | h | ⟨b, hb', hnone⟩
    · omega
    · omega
    · rw [hb] at hb'
      rw [← Option.some.inj hb', ofOpening?_opening] at hnone
      exact absurd hnone (by simp)

/-- `stop` is the first position behind `start` up to which one more bracket is closed than opened.
-/
def FirstSurplus (k : Bracket) (t : Text) (start stop : Nat) : Prop :=
  start < stop ∧ OneMore k (t.slice (start + 1) (stop + 1))
    ∧ ∀ i, start < i → i < stop → ¬ OneMore k (t.slice (start + 1) (i + 1))

theorem firstSurplus_iff {start stop : Nat} :
    FirstSurplus k t start stop
      ↔ ∃ j, closeOffset? k 0 (t.drop (start + 1)) = some j ∧ start + 1 + j = stop := by
  unfold FirstSurplus Text.slice
  constructor
  · rintro ⟨hlt, hone, hleast⟩
    refine ⟨stop - (start + 1), ?_, by omega⟩
    rw [closeOffset?_eq_some_iff, enclosed_iff_least]
    refine ⟨?_, fun i hi => ?_⟩
    · rwa [show stop - (start + 1) + 1 = stop + 1 - (start + 1) by omega]
    · have := hleast (start + 1 + i) (by omega) (by omega)
      rwa [show start + 1 + i + 1 - (start + 1) = i + 1 by omega] at this
  · rintro ⟨j, hj, rfl⟩
    rw [closeOffset?_eq_some_iff, enclosed_iff_least] at hj
    refine ⟨by omega, ?_, fun i hi hij => ?_⟩
    · rw [show start + 1 + j + 1 - (start + 1) = j + 1 by omega]
      exact hj.1
    · rw [show i + 1 - (start + 1) = i - (start + 1) + 1 by omega]
      exact hj.2 _ (by omega)

/-- A part of a text that is given by its beginning and its length. -/
theorem slice_add (t : Text) (start length : Nat) :
    t.slice start (start + length) = (t.drop start).take length := by
  unfold Text.slice
  rw [Nat.add_sub_cancel_left]

/-- The text between a bracket and its partner. -/
theorem inner_of_findEnd {pos : Int} {e : Nat} (h : findEnd t pos = .ok e) :
    inner t pos = .ok (t.slice (pos.toNat + 1) e) := by
  unfold inner
  rw [h]
  rfl

theorem inner_of_findEnd_error {pos : Int} {d : DelimiterError} (h : findEnd t pos = .error d) :
    inner t pos = .error d := by
  unfold inner
  rw [h]
  rfl

/-- What is passed over stands between the bracket and the partner that is found. -/
theorem enclosed_of_findEnd {pos : Int} {e : Nat} (hk : OpensAt t pos k)
    (h : findEnd t pos = .ok e) :
    t[e]? = some k.closing ∧ Enclosed k 0 (t.slice (pos.toNat + 1) e) := by
  rw [findEnd_of_opensAt hk] at h
  cases hj : closeOffset? k 0 (t.drop (pos.toNat + 1)) with
  | none => rw [hj] at h; exact absurd h (by simp)
  | some j =>
      rw [hj] at h
      obtain rfl := Except.ok.inj h
      constructor
      · rw [← List.getElem?_drop]
        exact closeOffset?_getElem hj
      · obtain ⟨u, v, huv, rfl, hu⟩ := closeOffset?_eq_some_iff.mp hj
        rw [slice_add, huv, List.take_left]
        exact hu

/-- The two ways to fail. -/
theorem findEnd_error_cases (t : Text) (pos : Int) :
    ((∃ k, OpensAt t pos k ∧ StaysOpen k 0 (t.drop (pos.toNat + 1)))
        ∧ findEnd t pos = .error (unbalanced t pos))
      ∨ ((∀ k, ¬ OpensAt t pos k) ∧ findEnd t pos = .error (noStart t pos))
      ∨ ∃ e k, OpensAt t pos k ∧ ¬ StaysOpen k 0 (t.drop (pos.toNat + 1))
        ∧ findEnd t pos = .ok e := by
  by_cases h : ∃ k, OpensAt t pos k
  · obtain ⟨k, hk⟩ := h
    have hend := findEnd_of_opensAt hk
    cases hj : closeOffset? k 0 (t.drop (pos.toNat + 1)) with
    | none =>
        rw [hj] at hend
        exact Or.inl ⟨⟨k, hk, closeOffset?_eq_none_iff.mp hj⟩, hend⟩
    | some j =>
        rw [hj] at hend
        refine Or.inr (Or.inr ⟨_, k, hk, fun hopen => ?_, hend⟩)
        rw [closeOffset?_eq_none_iff.mpr hopen] at hj
        exact absurd hj (by simp)
  · have h : ∀ k, ¬ OpensAt t pos k := fun k hk => h ⟨k, hk⟩
    exact Or.inr (Or.inl ⟨h, findEnd_of_not_opensAt h⟩)

theorem findEnd_eq_ok_iff {pos : Int} {e : Nat} :
    findEnd t pos = .ok e ↔ ∃ k, OpensAt t pos k ∧ FirstSurplus k t pos.toNat e := by
  constructor
  · intro h
    by_cases hopens : ∃ k, OpensAt t pos k
    · obtain ⟨k, hk⟩ := hopens
      rw [findEnd_of_opensAt hk] at h
      cases hj : closeOffset? k 0 (t.drop (pos.toNat + 1)) with
      | none => rw [hj] at h; exact absurd h (by simp)
      | some j =>
          rw [hj] at h
          exact ⟨k, hk, firstSurplus_iff.mpr ⟨j, hj, Except.ok.inj h⟩⟩
    · rw [findEnd_of_not_opensAt fun k hk => hopens ⟨k, hk⟩] at h
      exact absurd h (by simp)
  · rintro ⟨k, hk, hfirst⟩
    obtain ⟨j, hj, rfl⟩ := firstSurplus_iff.mp hfirst
    rw [findEnd_of_opensAt hk, hj]

/-- Never closing what has not been opened, in numbers. -/
theorem staysOpen_zero_iff :
    StaysOpen k 0 t ↔ ∀ p, p <+: t → p.count k.closing ≤ p.count k.opening := by
  unfold StaysOpen surplus
  refine forall_congr' fun p => imp_congr_right fun _ => ?_
  omega

/--
**The scan for the partner of a bracket is exact.** It gives the first position up to which one more
bracket of the kind is closed than opened; the text in between opens and closes equally many and
never closes one that it has not opened. It fails where no bracket opens, and where the one that
opens is never closed, and in no other way.
-/
theorem findEnd_exact (t : Text) (pos : Int) :
    (∀ e, findEnd t pos = .ok e ↔ ∃ k, OpensAt t pos k ∧ FirstSurplus k t pos.toNat e)
      ∧ (∀ e k, findEnd t pos = .ok e → OpensAt t pos k →
        t[e]? = some k.closing
          ∧ (∀ p, p <+: t.slice (pos.toNat + 1) e → p.count k.closing ≤ p.count k.opening)
          ∧ (t.slice (pos.toNat + 1) e).count k.closing
            = (t.slice (pos.toNat + 1) e).count k.opening
          ∧ inner t pos = .ok (t.slice (pos.toNat + 1) e))
      ∧ ((∃ d, findEnd t pos = .error d ∧ d.reason = some .delimiterStart)
        ↔ pos < 0 ∨ t.length ≤ pos ∨ ∃ b, t[pos.toNat]? = some b ∧ ofOpening? b = none)
      ∧ ((∃ d, findEnd t pos = .error d ∧ d.reason = some .unbalancedDelimiter)
        ↔ ∃ k, OpensAt t pos k
          ∧ ∀ p, p <+: t.drop (pos.toNat + 1) → p.count k.closing ≤ p.count k.opening)
      ∧ ∀ d, findEnd t pos = .error d →
        (d.reason = some .delimiterStart ∨ d.reason = some .unbalancedDelimiter)
          ∧ d.position = pos ∧ inner t pos = .error d := by
  refine ⟨fun e => findEnd_eq_ok_iff, fun e k he hk => ?_, ?_⟩
  · obtain ⟨hlast, hsurplus, hopen⟩ := enclosed_of_findEnd hk he
    refine ⟨hlast, staysOpen_zero_iff.mp hopen, ?_, inner_of_findEnd he⟩
    unfold surplus at hsurplus
    omega
  · rw [← forall_not_opensAt_iff]
    simp only [← staysOpen_zero_iff]
    rcases findEnd_error_cases t pos with ⟨hopen, he⟩ | ⟨hno, he⟩ | ⟨e, k, hk, hopen, he⟩
    · -- a bracket opens and is never closed
      have ⟨k, hk, _⟩ := hopen
      refine ⟨⟨?_, fun h => absurd hk (h k)⟩, ⟨fun _ => hopen, fun _ => ⟨_, he, rfl⟩⟩, ?_⟩
      · rintro ⟨d, hd, hreason⟩
        obtain rfl := Except.error.inj (he.symm.trans hd)
        exact absurd hreason (by simp [unbalanced])
      · rintro d hd
        obtain rfl := Except.error.inj (he.symm.trans hd)
        exact ⟨Or.inr rfl, rfl, inner_of_findEnd_error he⟩
    · -- no bracket opens
      refine ⟨⟨fun _ => hno, fun _ => ⟨_, he, rfl⟩⟩, ⟨?_, ?_⟩, ?_⟩
      · rintro ⟨d, hd, hreason⟩
        obtain rfl := Except.error.inj (he.symm.trans hd)
        exact absurd hreason (by simp [noStart])
      · rintro ⟨k, hk, _⟩
        exact absurd hk (hno k)
      · rintro d hd
        obtain rfl := Except.error.inj (he.symm.trans hd)
        exact ⟨Or.inl rfl, rfl, inner_of_findEnd_error he⟩
    · -- a bracket opens and has a partner
      have hok : ∀ d, findEnd t pos ≠ .error d := fun d hd => by
        rw [he] at hd
        exact absurd hd (by simp)
      refine ⟨⟨fun ⟨d, hd, _⟩ => absurd hd (hok d), fun h => absurd hk (h k)⟩,
        ⟨fun ⟨d, hd, _⟩ => absurd hd (hok d), ?_⟩, fun d hd => absurd hd (hok d)⟩
      rintro ⟨k', hk', hopen'⟩
      obtain rfl := hk.unique hk'
      exact absurd hopen' hopen

end MathMarkup.Bracket
