import Mathlib.Data.List.Induction
import MathMarkup.Proofs.Protection

/-!
# What blanking separators does

An `&` is kept if it stands between a begin tag and the end tag that belongs to it, and becomes a
space otherwise (`blankSeparators_exact`). The end tag that belongs to a begin tag is said by
counting from the begin tag on: it is the first one after which as many tags of either kind have
been read (`Matching`). That the begin tags were read first up to there, as `Terminated` has it,
follows: the counts differ by at most one tag from one byte to the next.

Blanking is done after one time. No tag has an `&` or a space in it, so a text and the text with all
its separators blanked have the same tags at the same places (`enclosed_map_blank`), and everything
between the two has as well.
-/

namespace MathMarkup.Cleaning

open MathMarkup.Text (byte)

variable {name tag t x : Text} {b e i : Nat}

/-! ## Begin tags and their end tags -/

/-- The end tag that ends at `e` belongs to the begin tag at `b`: it is the first one after which
the begin and the end tags of the name, counted from `b` on, are equally many. -/
structure Matching (name t : Text) (b e : Nat) : Prop where
  begins : beginTag name <+: t.drop b
  le_length : e ≤ t.length
  ends : endTag name <:+ t.slice b e
  equal : occurrences (beginTag name) (t.slice b e) = occurrences (endTag name) (t.slice b e)
  first : ∀ e', e' < e → endTag name <:+ t.slice b e' →
    occurrences (beginTag name) (t.slice b e') ≠ occurrences (endTag name) (t.slice b e')

/-- A begin tag has one end tag. -/
theorem Matching.unique {e' : Nat} (h : Matching name t b e) (h' : Matching name t b e') :
    e = e' := by
  rcases Nat.lt_trichotomy e e' with hlt | heq | hlt
  · exact absurd h.equal (h'.first e hlt h.ends)
  · exact heq
  · exact absurd h'.equal (h.first e' hlt h'.ends)

theorem slice_begins (t : Text) (b e : Nat) : t.slice b e <+: t.drop b := List.take_prefix _ _

theorem Matching.lt (h : Matching name t b e) : b < e := by
  have hslice := h.ends.length_le
  have hpos : 0 < (endTag name).length := Nat.succ_pos _
  rw [Text.slice, List.length_take] at hslice
  omega

theorem slice_length (h : e ≤ t.length) : (t.slice b e).length = e - b := by
  rw [Text.slice, List.length_take, List.length_drop]
  omega

/-- A beginning of a slice is a slice. -/
theorem eq_slice_of_begins {y : Text} (hy : y <+: t.slice b e) :
    y = t.slice b (b + y.length) := by
  rw [Text.slice, Nat.add_sub_cancel_left]
  exact List.prefix_iff_eq_take.mp (hy.trans (slice_begins t b e))

/-- A begin tag at the beginning of a text that ends with an end tag is part of it. -/
theorem beginTag_prefix_slice (hname : byte '\\' ∉ name) (hbegins : beginTag name <+: t.drop b)
    (hends : endTag name <:+ t.slice b e) : beginTag name <+: t.slice b e := by
  obtain ⟨v, hv⟩ := slice_begins t b e
  rw [← hv] at hbegins
  exact prefix_of_ends (beginTag_isTag hname) (endTag_isTag hname)
    (fun hp => absurd hp (not_endTag (List.prefix_refl _))) hends hbegins

/-- **The counts are equal for the first time at an end tag**: until then more environments have
been begun than ended. -/
theorem Matching.more_begun (hname : byte '\\' ∉ name) (h : Matching name t b e) {w : Text}
    (hw : beginTag name ++ w <+: t.slice b e) (hne : beginTag name ++ w ≠ t.slice b e) :
    occurrences (endTag name) (beginTag name ++ w)
      < occurrences (beginTag name) (beginTag name ++ w) := by
  -- byte for byte behind the begin tag, since a byte changes the counts by at most one
  induction w using List.reverseRecOn with
  | nil =>
      rw [(occurrences_beginTag hname []).1, (occurrences_beginTag hname []).2]
      simp [occurrences]
  | append_singleton w c ih =>
      rw [← List.append_assoc] at hw hne ⊢
      have hshort : (beginTag name ++ w ++ [c]).length < (t.slice b e).length :=
        Nat.lt_of_le_of_ne hw.length_le fun heq => hne (hw.eq_of_length heq)
      have hbefore : beginTag name ++ w ≠ t.slice b e := by
        intro heq
        rw [← heq, List.length_append] at hshort
        omega
      have hlt := ih ((List.prefix_append _ _).trans hw) hbefore
      have hbegun : beginTag name ≠ [] := List.cons_ne_nil _ _
      have hended : endTag name ≠ [] := List.cons_ne_nil _ _
      rw [occurrences_concat hended, occurrences_concat hbegun]
      by_cases hends : endTag name <:+ beginTag name ++ w ++ [c]
      · -- only here the counts can become equal, but they are not before `e`
        have hcut := eq_slice_of_begins hw
        rw [slice_length h.le_length] at hshort
        have hunequal := h.first _ (Nat.add_lt_of_lt_sub' hshort) (by rwa [← hcut])
        rw [← hcut, occurrences_concat hended, occurrences_concat hbegun] at hunequal
        rw [if_pos hends] at hunequal ⊢
        omega
      · rw [if_neg hends]
        omega

theorem Matching.terminated (hname : byte '\\' ∉ name) (h : Matching name t b e) :
    Terminated name (t.slice b e) where
  begins := beginTag_prefix_slice hname h.begins h.ends
  ends := h.ends
  equal := h.equal
  first y hbegin hy hne := by
    obtain ⟨w, rfl⟩ := hbegin
    exact h.more_begun hname hy hne

theorem Terminated.matching (hname : byte '\\' ∉ name) (hle : e ≤ t.length)
    (h : Terminated name (t.slice b e)) : Matching name t b e where
  begins := h.begins.trans (slice_begins t b e)
  le_length := hle
  ends := h.ends
  equal := h.equal
  first e' hlt hends heq := by
    have hprefix : t.slice b e' <+: t.slice b e :=
      List.take_prefix_take_left (by omega)
    have hbegins := beginTag_prefix_slice hname (h.begins.trans (slice_begins t b e)) hends
    have hne : t.slice b e' ≠ t.slice b e := by
      intro hsame
      have hpos := hends.length_le
      have hlength := congrArg List.length hsame
      rw [slice_length hle, slice_length (by omega)] at hlength
      rw [slice_length (by omega)] at hpos
      have : 0 < (endTag name).length := Nat.succ_pos _
      omega
    have := h.first _ hbegins hprefix hne
    omega

/-- A byte lies in a terminated environment if it stands between a begin tag and its end tag. -/
theorem enclosed_iff_matching (hname : byte '\\' ∉ name) :
    Enclosed name t i ↔ ∃ b e, Matching name t b e ∧ b ≤ i ∧ i < e := by
  constructor
  · rintro ⟨u, x, v, rfl, hx, hle, hlt⟩
    have hslice : (u ++ x ++ v).slice u.length (u.length + x.length) = x := by
      rw [Text.slice, List.append_assoc, List.drop_left, Nat.add_sub_cancel_left, List.take_left]
    refine ⟨u.length, u.length + x.length, Terminated.matching hname ?_ ?_, hle, hlt⟩
    · rw [List.length_append, List.length_append]
      omega
    · rw [hslice]
      exact hx
  · rintro ⟨b, e, h, hle, hlt⟩
    have hbe := h.lt
    have hlength := h.le_length
    refine ⟨t.take b, t.slice b e, t.drop e, ?_, h.terminated hname, ?_, ?_⟩
    · have hdrop : t.drop e = (t.drop b).drop (e - b) := by
        rw [List.drop_drop]
        congr 1
        omega
      rw [Text.slice, List.append_assoc, hdrop, List.take_append_drop, List.take_append_drop]
    · rw [List.length_take]
      omega
    · rw [List.length_take, slice_length hlength]
      omega

/-! ## One byte of the result -/

/-- A byte that is no separator is left alone. -/
theorem blankSeparators_other (h : t[i]? ≠ some (byte '&')) :
    (blankSeparators t)[i]? = t[i]? := by
  rw [blankSeparators, List.getElem?_zipWith]
  cases ht : t[i]? with
  | none => rfl
  | some c =>
      have hi : i < (protectedIn matrixNames t).length := by
        rw [protectedIn_length]
        exact (List.getElem?_eq_some_iff.mp ht).1
      have hc : c ≠ byte '&' := fun heq => h (by rw [ht, heq])
      rw [List.getElem?_eq_getElem hi]
      simp [hc]

/-- A separator is kept in a terminated matrix environment and becomes a space elsewhere. -/
theorem blankSeparators_separator (h : t[i]? = some (byte '&')) :
    (blankSeparators t)[i]? = some (byte '&') ∧ (∃ name ∈ matrixNames, Enclosed name t i)
      ∨ (blankSeparators t)[i]? = some (byte ' ') ∧ ¬ ∃ name ∈ matrixNames, Enclosed name t i := by
  have hi : i < (protectedIn matrixNames t).length := by
    rw [protectedIn_length]
    exact (List.getElem?_eq_some_iff.mp h).1
  rw [blankSeparators, List.getElem?_zipWith, h, List.getElem?_eq_getElem hi]
  cases hinside : (protectedIn matrixNames t)[i] with
  | true =>
      have hsome : (protectedIn matrixNames t)[i]? = some true := by
        rw [List.getElem?_eq_getElem hi, hinside]
      exact Or.inl ⟨by simp, protectedIn_enclosed matrixNames_no_slash hsome⟩
  | false =>
      refine Or.inr ⟨by simp, ?_⟩
      rintro ⟨name, hname, henclosed⟩
      have := protectedIn_of_enclosed matrixNames_no_slash hname henclosed
      rw [List.getElem?_eq_getElem hi, hinside] at this
      exact absurd this (by simp)

theorem blankSeparators_eq_separator_iff :
    (blankSeparators t)[i]? = some (byte '&')
      ↔ t[i]? = some (byte '&') ∧ ∃ name ∈ matrixNames, Enclosed name t i := by
  by_cases h : t[i]? = some (byte '&')
  · rcases blankSeparators_separator h with ⟨hkept, henclosed⟩ | ⟨hspace, hnone⟩
    · simp only [hkept, h, true_and, henclosed]
    · have hne : some (byte ' ') ≠ some (byte '&') := by decide
      simp only [hspace, hne, hnone, and_false]
  · simp only [blankSeparators_other h, h, false_and]

theorem length_blankSeparators (t : Text) : (blankSeparators t).length = t.length := by
  rw [blankSeparators, List.length_zipWith, protectedIn_length, Nat.min_self]

/-! ## Tags of a text with its separators blanked -/

/-- What a separator outside every environment becomes; other bytes stay. -/
def blank (c : UInt8) : UInt8 := if c = byte '&' then byte ' ' else c

theorem blank_of_ne {c : UInt8} (h : c ≠ byte '&') : blank c = c := if_neg h

/-- Blanking yields no byte but a space that was not there. -/
theorem eq_of_blank_eq {c d : UInt8} (hd : d ≠ byte ' ') (h : blank c = d) : c = d := by
  rw [blank] at h
  split at h
  · exact absurd h.symm hd
  · exact h

/-- A text without separators and spaces. -/
def Solid (w : Text) : Prop := byte '&' ∉ w ∧ byte ' ' ∉ w

theorem map_blank_eq_iff {w y : Text} (hw : Solid w) : y.map blank = w ↔ y = w := by
  constructor
  · intro h
    subst h
    refine (List.map_id y).symm.trans (List.map_congr_left fun c hc => ?_)
    exact eq_of_blank_eq (fun heq => hw.2 (heq ▸ List.mem_map_of_mem hc)) rfl
  · rintro rfl
    have hsame : ∀ c ∈ y, blank c = c := fun c hc => blank_of_ne fun heq => hw.1 (heq ▸ hc)
    exact (List.map_congr_left hsame).trans (List.map_id y)

theorem prefix_map_blank_iff {w y : Text} (hw : Solid w) : w <+: y.map blank ↔ w <+: y := by
  rw [List.prefix_map_iff]
  constructor
  · rintro ⟨l, hl, heq⟩
    rwa [(map_blank_eq_iff hw).mp heq.symm] at hl
  · exact fun h => ⟨w, h, ((map_blank_eq_iff hw).mpr rfl).symm⟩

theorem suffix_map_blank_iff {w y : Text} (hw : Solid w) : w <:+ y.map blank ↔ w <:+ y := by
  rw [List.suffix_map_iff]
  constructor
  · rintro ⟨l, hl, heq⟩
    rwa [(map_blank_eq_iff hw).mp heq.symm] at hl
  · exact fun h => ⟨w, h, ((map_blank_eq_iff hw).mpr rfl).symm⟩

theorem occurrences_map_blank (htag : Solid tag) (y : Text) :
    occurrences tag (y.map blank) = occurrences tag y := by
  induction y with
  | nil => rfl
  | cons c y ih =>
      have hprefix : tag <+: blank c :: y.map blank ↔ tag <+: c :: y :=
        prefix_map_blank_iff (y := c :: y) htag
      rw [List.map_cons, occurrences, occurrences, ih]
      simp only [List.isPrefixOf_iff_prefix, hprefix]

theorem terminated_map_blank (hbegin : Solid (beginTag name)) (hend : Solid (endTag name)) :
    Terminated name (x.map blank) ↔ Terminated name x := by
  constructor
  · intro h
    refine ⟨(prefix_map_blank_iff hbegin).mp h.begins, (suffix_map_blank_iff hend).mp h.ends, ?_,
      fun y hy hyx hne => ?_⟩
    · have := h.equal
      rwa [occurrences_map_blank hbegin, occurrences_map_blank hend] at this
    · have := h.first (y.map blank) ((prefix_map_blank_iff hbegin).mpr hy) (hyx.map blank)
        fun heq => hne (hyx.eq_of_length (by simpa using congrArg List.length heq))
      rwa [occurrences_map_blank hbegin, occurrences_map_blank hend] at this
  · intro h
    refine ⟨(prefix_map_blank_iff hbegin).mpr h.begins, (suffix_map_blank_iff hend).mpr h.ends, ?_,
      fun y hy hyx hne => ?_⟩
    · rw [occurrences_map_blank hbegin, occurrences_map_blank hend, h.equal]
    · obtain ⟨l, hl, rfl⟩ := List.prefix_map_iff.mp hyx
      rw [occurrences_map_blank hbegin, occurrences_map_blank hend]
      exact h.first l ((prefix_map_blank_iff hbegin).mp hy) hl fun heq => hne (by rw [heq])

/-- **Blanking moves no tag**, so it opens and closes no environment. -/
theorem enclosed_map_blank (hbegin : Solid (beginTag name)) (hend : Solid (endTag name)) :
    Enclosed name (t.map blank) i ↔ Enclosed name t i := by
  constructor
  · rintro ⟨u, x, v, ht, hx, hle, hlt⟩
    obtain ⟨ux, v, rfl, hux, rfl⟩ := List.map_eq_append_iff.mp ht
    obtain ⟨u, x, rfl, rfl, rfl⟩ := List.map_eq_append_iff.mp hux
    rw [List.length_map] at hle hlt
    rw [List.length_map] at hlt
    exact ⟨u, x, v, rfl, (terminated_map_blank hbegin hend).mp hx, hle, hlt⟩
  · rintro ⟨u, x, v, rfl, hx, hle, hlt⟩
    refine ⟨u.map blank, x.map blank, v.map blank, by simp,
      (terminated_map_blank hbegin hend).mpr hx, ?_, ?_⟩
    · rwa [List.length_map]
    · rwa [List.length_map, List.length_map]

theorem solid_matrix_tags :
    ∀ name ∈ matrixNames, Solid (beginTag name) ∧ Solid (endTag name) := by
  unfold Solid
  decide

/-- A text with some of its separators blanked, and the rest of them now. -/
theorem map_blank_blankSeparators (t : Text) :
    (blankSeparators t).map blank = t.map blank := by
  refine List.ext_getElem? fun i => ?_
  rw [List.getElem?_map, List.getElem?_map]
  by_cases h : t[i]? = some (byte '&')
  · rw [h]
    rcases blankSeparators_separator h with ⟨hkept, -⟩ | ⟨hspace, -⟩
    · rw [hkept]
    · rw [hspace]
      decide
  · rw [blankSeparators_other h]

theorem enclosed_blankSeparators (hname : name ∈ matrixNames) :
    Enclosed name (blankSeparators t) i ↔ Enclosed name t i := by
  obtain ⟨hbegin, hend⟩ := solid_matrix_tags name hname
  rw [← enclosed_map_blank hbegin hend, map_blank_blankSeparators, enclosed_map_blank hbegin hend]

/-- What is kept is kept again. -/
theorem blankSeparators_idem (t : Text) : blankSeparators (blankSeparators t) = blankSeparators t :=
  blankSeparators_eq_iff.mpr fun i hi => by
    obtain ⟨-, name, hname, henclosed⟩ := blankSeparators_eq_separator_iff.mp hi
    exact ⟨name, hname, (enclosed_blankSeparators hname).mpr henclosed⟩

/-! ## Unterminated environments -/

/-- A separator that is kept is kept behind whatever else. -/
theorem blankSeparators_behind {rest : Text} (p : Text)
    (h : (blankSeparators rest)[i]? = some (byte '&')) :
    (blankSeparators (p ++ rest))[p.length + i]? = some (byte '&') := by
  obtain ⟨hi, name, hname, henclosed⟩ := blankSeparators_eq_separator_iff.mp h
  refine blankSeparators_eq_separator_iff.mpr ⟨?_, name, hname, henclosed.append p⟩
  rw [List.getElem?_append_right (Nat.le_add_right _ _), Nat.add_sub_cancel_left, hi]

/-- No begin tag of a matrix environment begins another one. -/
theorem eq_of_beginTag_begins :
    ∀ name ∈ matrixNames, ∀ other ∈ matrixNames,
      beginTag name <+: beginTag other → name = other := by
  decide

/-- Behind a begin tag that has no end tag environments begin as if it were not there. -/
theorem enclosed_behind_unterminated {other rest : Text} (hname : name ∈ matrixNames)
    (hother : other ∈ matrixNames) (hnone : ∀ e, ¬ Matching other (beginTag other ++ rest) 0 e)
    (h : Enclosed name (beginTag other ++ rest) ((beginTag other).length + i)) :
    Enclosed name rest i := by
  obtain ⟨u, x, v, ht, hx, hle, hlt⟩ := h
  have htag := beginTag_isTag (matrixNames_no_slash other hother)
  obtain ⟨x', rfl⟩ := hx.begins
  have hp : beginTag other <+: u ++ byte '\\' :: (beginTag name ++ x' ++ v).tail := by
    refine ⟨rest, ht.trans ?_⟩
    rw [List.append_assoc]
    rfl
  rcases htag.before_slash hp with ⟨u', rfl⟩ | rfl
  · rw [List.append_assoc, List.append_assoc, List.append_cancel_left_eq] at ht
    rw [List.length_append] at hle hlt
    exact ⟨u', beginTag name ++ x', v, by rw [ht]; simp, hx, by omega, by omega⟩
  · -- an environment that begins with the tag is one of the same name, and the tag has an end
    rw [List.nil_append] at ht
    have hsame : name = other := by
      have hfirst : beginTag name <+: beginTag other ++ rest := ⟨x' ++ v, by rw [ht]; simp⟩
      rcases List.prefix_or_prefix_of_prefix hfirst (List.prefix_append _ _) with hn | hn
      · exact eq_of_beginTag_begins name hname other hother hn
      · exact (eq_of_beginTag_begins other hother name hname hn).symm
    subst hsame
    refine absurd (Terminated.matching (matrixNames_no_slash name hname) ?_ ?_)
      (hnone (beginTag name ++ x').length)
    · rw [ht]
      exact (List.prefix_append _ v).length_le
    · rw [ht, Text.slice, List.drop_zero, Nat.sub_zero, List.take_left]
      exact hx

/-- **A begin tag that has no end tag changes nothing** behind it. -/
theorem blankSeparators_unterminated {other rest : Text} (hother : other ∈ matrixNames)
    (hnone : ∀ e, ¬ Matching other (beginTag other ++ rest) 0 e) :
    blankSeparators (beginTag other ++ rest) = beginTag other ++ blankSeparators rest := by
  refine List.ext_getElem? fun i => ?_
  rcases Nat.lt_or_ge i (beginTag other).length with hi | hi
  · have htag : (beginTag other ++ rest)[i]? ≠ some (byte '&') := by
      rw [List.getElem?_append_left hi]
      exact fun h => (solid_matrix_tags other hother).1.1 (List.mem_of_getElem? h)
    rw [blankSeparators_other htag, List.getElem?_append_left hi, List.getElem?_append_left hi]
  · obtain ⟨j, rfl⟩ := Nat.exists_eq_add_of_le hi
    have hrest : ∀ r : Text, (beginTag other ++ r)[(beginTag other).length + j]? = r[j]? := by
      intro r
      rw [List.getElem?_append_right hi, Nat.add_sub_cancel_left]
    rw [hrest]
    by_cases h : rest[j]? = some (byte '&')
    · rcases blankSeparators_separator h with ⟨hkept, -⟩ | ⟨hspace, hout⟩
      · rw [hkept]
        exact blankSeparators_behind _ hkept
      · rcases blankSeparators_separator ((hrest rest).trans h) with ⟨-, hin⟩ | ⟨hspace', -⟩
        · obtain ⟨name, hname, henclosed⟩ := hin
          exact absurd ⟨name, hname, enclosed_behind_unterminated hname hother hnone henclosed⟩ hout
        · rw [hspace, hspace']
    · rw [blankSeparators_other h, blankSeparators_other (by rwa [hrest]), hrest]

/-- **The separators of a text**: each one between a begin tag of a matrix environment and its end
tag is kept, every other one becomes a space, and nothing else is changed. A begin tag without an
end tag takes no separator behind it out of an environment, and a second time nothing is done. -/
theorem blankSeparators_exact (t : Text) :
    (blankSeparators t).length = t.length
      ∧ (∀ i : Nat, t[i]? ≠ some (byte '&') → (blankSeparators t)[i]? = t[i]?)
      ∧ (∀ i : Nat, t[i]? = some (byte '&') →
        ((blankSeparators t)[i]? = some (byte '&') ∨ (blankSeparators t)[i]? = some (byte ' '))
          ∧ ((blankSeparators t)[i]? = some (byte '&')
            ↔ ∃ name ∈ matrixNames, ∃ b e, Matching name t b e ∧ b ≤ i ∧ i < e))
      ∧ (∀ p rest : Text, ∀ name ∈ matrixNames, t = p ++ beginTag name ++ rest →
        (∀ e, ¬ Matching name t p.length e) →
        ∀ i : Nat, (blankSeparators rest)[i]? = some (byte '&') →
          (blankSeparators t)[(p ++ beginTag name).length + i]? = some (byte '&'))
      ∧ blankSeparators (blankSeparators t) = blankSeparators t := by
  refine ⟨length_blankSeparators t, fun _ => blankSeparators_other, fun i hi => ⟨?_, ?_⟩, ?_,
    blankSeparators_idem t⟩
  · rcases blankSeparators_separator hi with ⟨hkept, -⟩ | ⟨hspace, -⟩
    · exact Or.inl hkept
    · exact Or.inr hspace
  · rw [blankSeparators_eq_separator_iff, and_iff_right hi]
    refine exists_congr fun name => and_congr_right fun hname => ?_
    exact enclosed_iff_matching (matrixNames_no_slash name hname)
  · rintro p rest name - rfl - i hi
    exact blankSeparators_behind (p ++ beginTag name) hi

/-- A matrix that is never ended around one that is. -/
def unendedMatrix : Text := "\\begin\x7bmatrix\x7d&\\begin\x7bpmatrix\x7da&b\\end\x7bpmatrix\x7d&"

/-- The separator of the inner matrix is kept, those around it are not. -/
theorem unendedMatrix_keeps_inner :
    (∀ e, ¬ Matching "matrix" unendedMatrix 0 e)
      ∧ (blankSeparators unendedMatrix)[31]? = some (byte '&')
      ∧ (blankSeparators unendedMatrix)[14]? = some (byte ' ') := by
  have hunended : ∀ e, ¬ Matching "matrix" unendedMatrix 0 e := by
    intro e h
    have hnone : ∀ e ≤ unendedMatrix.length, ¬ endTag "matrix" <:+ unendedMatrix.slice 0 e := by
      decide
    exact hnone e h.le_length h.ends
  refine ⟨hunended, ?_, by decide⟩
  exact (blankSeparators_exact unendedMatrix).2.2.2.1 [] (unendedMatrix.drop 14) "matrix"
    (by decide) (by decide) hunended 17 (by decide)

end MathMarkup.Cleaning
