import MathMarkup.Proofs.Conversion
import MathMarkup.Proofs.Origins
import MathMarkup.Proofs.Stopping

/-!
# Where a failure of cleaning is in the source

A failure of cleaning has a position in the text at which cleaning stops, but a caller has only the
source. The byte at that position is a backslash or a brace, so it has a place in the source, and
the two differ by what rules have cut out in front of it, less what they have put in
(`Derived.place_add_putBefore`). Nothing that is put in is longer than what it stands for, so the
position is never behind the place.

So a position that is looked up in the source is right if nothing is lost in front of it, and what
a failure shows is found there if the source has the same bytes in that window
(`cleaning_failure_place`).
-/

namespace MathMarkup

namespace Cleaning

open MathMarkup.Text (byte)

variable {source t : Text} {xs ys : List Mark} {p o : Nat}

/-! ## In front of a byte that is kept -/

/-- **A byte that is kept divides an edit** into what is done in front of it and behind it. -/
theorem Edited.divide {y : Mark} {ys₁ ys₂ : List Mark} (h : Edited xs (ys₁ ++ y :: ys₂))
    (hy : y.origin ≠ none) :
    ∃ xs₁ xs₂, xs = xs₁ ++ y :: xs₂ ∧ Edited xs₁ ys₁ ∧ Edited xs₂ ys₂ := by
  generalize hys : ys₁ ++ y :: ys₂ = ys at h
  induction h generalizing ys₁ with
  | done => exact absurd hys (by simp)
  | @keep x xs ys h ih =>
      cases ys₁ with
      | nil =>
          obtain ⟨rfl, rfl⟩ := List.cons.inj hys
          exact ⟨[], xs, rfl, .done, h⟩
      | cons z ys₁ =>
          obtain ⟨rfl, htail⟩ := List.cons.inj hys
          obtain ⟨xs₁, xs₂, rfl, h₁, h₂⟩ := ih htail
          exact ⟨z :: xs₁, xs₂, rfl, .keep z h₁, h₂⟩
  | @cut x gap out xs ys hx hlength h ih =>
      -- the byte is none of those that are put in
      have hbehind : ∃ zs, ys₁ = put out ++ zs ∧ zs ++ y :: ys₂ = ys := by
        rcases List.append_eq_append_iff.mp hys with ⟨zs, hout, hzs⟩ | ⟨zs, hys₁, hzs⟩
        · cases zs with
          | nil => exact ⟨[], by simpa using hout.symm, by simpa using hzs⟩
          | cons z zs =>
              obtain ⟨rfl, -⟩ := List.cons.inj hzs
              have hmem : y ∈ put out := by rw [hout]; simp
              obtain ⟨b, -, rfl⟩ := List.mem_map.mp hmem
              exact absurd rfl hy
        · exact ⟨zs, hys₁, hzs.symm⟩
      obtain ⟨zs, rfl, hzs⟩ := hbehind
      obtain ⟨xs₁, xs₂, rfl, h₁, h₂⟩ := ih hzs
      exact ⟨x :: (gap ++ xs₁), xs₂, by simp, .cut x gap out hx hlength h₁, h₂⟩

theorem Edits.divide {y : Mark} {ys₁ ys₂ : List Mark} (h : Edits xs (ys₁ ++ y :: ys₂))
    (hy : y.origin ≠ none) :
    ∃ xs₁ xs₂, xs = xs₁ ++ y :: xs₂ ∧ Edits xs₁ ys₁ ∧ Edits xs₂ ys₂ := by
  generalize hys : ys₁ ++ y :: ys₂ = ys at h
  induction h generalizing ys₁ ys₂ with
  | refl => exact ⟨ys₁, ys₂, hys.symm, .refl, .refl⟩
  | tail _ hlast ih =>
      subst hys
      obtain ⟨zs₁, zs₂, rfl, h₁, h₂⟩ := hlast.divide hy
      obtain ⟨xs₁, xs₂, rfl, h₁', h₂'⟩ := ih rfl
      exact ⟨xs₁, xs₂, rfl, h₁'.tail h₁, h₂'.tail h₂⟩

theorem originAt_split (h : originAt xs p = some o) :
    ∃ x, x.origin = some o ∧ xs = xs.take p ++ x :: xs.drop (p + 1) ∧ p < xs.length := by
  obtain ⟨x, hx, hxo⟩ := Option.bind_eq_some_iff.mp h
  obtain ⟨hp, rfl⟩ := List.getElem?_eq_some_iff.mp hx
  refine ⟨xs[p], hxo, ?_, hp⟩
  rw [List.getElem_cons_drop, List.take_append_drop]

/-- **No byte moves to the right.** -/
theorem Derived.le_origin (h : Derived source xs) (ho : originAt xs p = some o) : p ≤ o := by
  obtain ⟨x, hxo, hsplit, hp⟩ := originAt_split ho
  have hedits := h.edits
  rw [hsplit] at hedits
  obtain ⟨xs₁, xs₂, hsource, hfront, -⟩ := hedits.divide (by rw [hxo]; simp)
  have hlength := hfront.length_le
  rw [List.length_take, Nat.min_eq_left (Nat.le_of_lt hp)] at hlength
  -- the place of the byte in the source is the length of what is in front of it there
  have hplace : (marked source)[xs₁.length]? = some x := by rw [hsource]; simp
  rw [marked, List.getElem?_map, List.getElem?_zipIdx, Option.map_map] at hplace
  obtain ⟨b, -, rfl⟩ := Option.map_eq_some_iff.mp hplace
  have : xs₁.length = o := by simpa using hxo
  omega

/-! ## What is lost in front of a byte -/

/-- The places in the source of the bytes that come from it. -/
def origins (xs : List Mark) : List Nat := xs.filterMap Mark.origin

/-- The number of bytes in front of a position that rules have put in. -/
def putBefore (xs : List Mark) (p : Nat) : Nat :=
  ((xs.take p).filter fun x => x.origin.isNone).length

/-- The number of bytes of the source in front of a place that are cut out. -/
def cutBefore (xs : List Mark) (o : Nat) : Nat :=
  ((List.range o).filter fun i => !(origins xs).contains i).length

theorem map_snd_kept (xs : List Mark) : (kept xs).map Prod.snd = origins xs := by
  unfold kept origins
  rw [List.map_filterMap]
  refine List.filterMap_congr fun x _ => ?_
  cases x.origin <;> rfl

theorem Derived.origins_sublist (h : Derived source xs) :
    (origins xs).Sublist (List.range source.length) := by
  have := h.edits.kept_sublist.map Prod.snd
  rwa [map_snd_kept, kept_marked, List.zipIdx_map_snd, ← List.range_eq_range'] at this

/-- Every byte comes from the source or is put in. -/
theorem length_origins (xs : List Mark) :
    (origins xs).length + (xs.filter fun x => x.origin.isNone).length = xs.length := by
  induction xs with
  | nil => rfl
  | cons x xs ih =>
      rw [origins] at ih ⊢
      cases hx : x.origin with
      | none =>
          rw [List.filterMap_cons_none hx, List.filter_cons_of_pos (by simp [hx])]
          simp only [List.length_cons]
          omega
      | some i =>
          rw [List.filterMap_cons_some hx, List.filter_cons_of_neg (by simp [hx])]
          simp only [List.length_cons]
          omega

/-- The bytes in front of a place that are kept are those in front of the position that come from
the source. -/
theorem Derived.kept_before (h : Derived source xs) (ho : originAt xs p = some o) :
    ((List.range o).filter fun i => (origins xs).contains i).Perm (origins (xs.take p)) := by
  obtain ⟨x, hxo, hsplit, -⟩ := originAt_split ho
  have horigins : origins xs = origins (xs.take p) ++ o :: origins (xs.drop (p + 1)) := by
    conv_lhs => rw [hsplit]
    rw [origins, List.filterMap_append, List.filterMap_cons_some hxo]
    rfl
  -- the places increase from the beginning of the text to its end
  have hsorted : (origins xs).Pairwise (· < ·) := List.pairwise_lt_range.sublist h.origins_sublist
  rw [horigins, List.pairwise_append, List.pairwise_cons] at hsorted
  obtain ⟨hfront, ⟨hbehind, -⟩, hcross⟩ := hsorted
  refine (List.perm_ext_iff_of_nodup (List.nodup_range.filter _)
    (hfront.imp fun hlt => Nat.ne_of_lt hlt)).mpr fun i => ?_
  rw [List.mem_filter, List.mem_range, List.contains_iff_mem, horigins, List.mem_append,
    List.mem_cons]
  constructor
  · rintro ⟨hi, hmem | rfl | hmem⟩
    · exact hmem
    · exact absurd hi (Nat.lt_irrefl i)
    · exact absurd hi (Nat.lt_asymm (hbehind i hmem))
  · intro hmem
    exact ⟨hcross i hmem o List.mem_cons_self, Or.inl hmem⟩

/-- **The place and the position of a byte** differ by what is cut out and put in in front of it. -/
theorem Derived.place_add_putBefore (h : Derived source xs) (ho : originAt xs p = some o) :
    o + putBefore xs p = p + cutBefore xs o := by
  obtain ⟨_, -, -, hp⟩ := originAt_split ho
  have hplace := List.length_eq_length_filter_add (l := List.range o)
    fun i => (origins xs).contains i
  have hposition := length_origins (xs.take p)
  rw [List.length_range, (h.kept_before ho).length_eq] at hplace
  rw [List.length_take, Nat.min_eq_left (Nat.le_of_lt hp)] at hposition
  unfold putBefore cutBefore
  omega

/-! ## What a failure shows -/

theorem FailsAt.not_filler {e : StageError} (h : FailsAt t p e) :
    ∃ b, t[p]? = some b ∧ ¬ Filler b := by
  cases h with
  | missing hcommand hdefective _ =>
      have hslash : ∀ c ∈ commands, c.1.head? = some (byte '\\') := by decide
      obtain ⟨letters, hname⟩ := List.head?_eq_some_iff.mp (hslash _ hcommand)
      obtain ⟨r, hr⟩ := hdefective.next.2.1.1
      dsimp only at hname
      refine ⟨byte '\\', ?_, by decide⟩
      rw [← List.head?_drop, ← hr, hname]
      rfl
  | unclosed _ _ hfirst _ => exact ⟨Bracket.curly.opening, hfirst.2.1, by decide⟩

/-- The place of a failure has a place in the source. -/
theorem FailsAt.originAt {e : StageError} (h : FailsAt (bytes xs) p e) (hxs : Derived source xs) :
    ∃ o, originAt xs p = some o := by
  obtain ⟨b, hb, hfiller⟩ := h.not_filler
  rw [bytes, List.getElem?_map] at hb
  obtain ⟨x, hx, rfl⟩ := Option.map_eq_some_iff.mp hb
  cases hxo : x.origin with
  | none => exact absurd (hxs.filled x (List.mem_of_getElem? hx) hxo) hfiller
  | some o => exact ⟨o, by rw [Cleaning.originAt, hx, Option.bind_some, hxo]⟩

theorem FailsAt.position {e : StageError} (h : FailsAt t p e) (s : Text) :
    (e.report s).position = p := by
  cases h <;> rfl

/-- **What a failure shows is found in another text** at its place if that text has the same bytes
there, and only then. -/
theorem FailsAt.shown_iff {c : CleaningError} (h : FailsAt t p (.cleaning c)) (s : Text) :
    (c.missing.command <+: s.drop p ∧ c.context = (s.drop p).take contextLength)
      ↔ (s.drop p).take contextLength = (t.drop p).take contextLength := by
  cases h with
  | missing hcommand hdefective _ =>
      have hshort : ∀ c ∈ commands, c.1.length ≤ contextLength := by decide
      have hlength := hshort _ hcommand
      dsimp only [CleaningError.atCommand] at hlength ⊢
      rw [contextAt_nat]
      refine ⟨fun h => h.2.symm, fun h => ⟨?_, h.symm⟩⟩
      have hprefix := List.prefix_take_iff.mpr ⟨hdefective.next.2.1.1, hlength⟩
      rw [← h] at hprefix
      exact hprefix.trans (List.take_prefix _ _)

end Cleaning

open Cleaning

/-! ## Conversion -/

theorem report_category {e : StageError} {t : Text}
    (h : (e.report t).category = .cleaning ∨ (e.report t).category = .delimiter) :
    (∃ c, e = .cleaning c) ∨ ∃ d, e = .delimiter d := by
  cases e with
  | delimiter d => exact Or.inr ⟨d, rfl⟩
  | cleaning c => exact Or.inl ⟨c, rfl⟩
  | markup s => exact absurd h (by simp [StageError.report])
  | rendering r => exact absurd h (by simp [StageError.report])
  | limit l => exact absurd h (by simp [StageError.report])

/-- A report of a missing argument or an open brace is one of cleaning. -/
theorem convert_cleaning_cause {limits : Limits} {source : Text} {report : Report}
    (h : Conversion.convert limits source = .error report)
    (hcategory : report.category = .cleaning ∨ report.category = .delimiter) :
    (clean limits.passes source).result = .error report.cause
      ∧ report = report.cause.report source := by
  unfold Conversion.convert at h
  dsimp only at h
  split at h
  · rename_i e hclean
    cases h
    cases e <;> exact ⟨hclean, rfl⟩
  · rename_i cleaned hclean
    -- the other stages fail in other ways
    exfalso
    have hparsed := Grammar.parse_outcome true limits.depth cleaned (by simp)
    split at h
    · rename_i e hparse
      cases h
      rw [hparse] at hparsed
      rcases report_category hcategory with ⟨c, rfl⟩ | ⟨d, rfl⟩
      · exact hparsed
      · exact hparsed
    · rename_i tree hparse
      have hrendered := Solver.parsed_renders true (by simp) hparse limits.depth
      split at h
      · rename_i e hrender
        cases h
        rw [hrender] at hrendered
        rcases report_category hcategory with ⟨c, rfl⟩ | ⟨d, rfl⟩
        · exact hrendered
        · exact hrendered
      · exact absurd h (by simp)

/-- **Where a failure of cleaning is.** The position that a report gives is one of the text at which
cleaning stops: the command that lacks an argument or the open brace stands there. It comes from a
place of the source, which the position falls short of by the bytes that are cut out in front of it,
less those that are put in. So what the report shows is found at the position in the source if the
source has the same bytes there, and the open brace is the byte at the position in the source if
nothing is lost in front of it, and only then. -/
theorem cleaning_failure_place {limits : Limits} {source : Text} {report : Report}
    (h : Conversion.convert limits source = .error report)
    (hcategory : report.category = .cleaning ∨ report.category = .delimiter) :
    let xs := stopClean limits.passes source
    Edits (marked source) xs
      ∧ ∃ p o : Nat, report.position = p ∧ FailsAt (bytes xs) p report.cause
        ∧ originAt xs p = some o ∧ p ≤ o ∧ o + putBefore xs p = p + cutBefore xs o
        ∧ (∀ c, report.cause = .cleaning c →
          ((c.missing.command <+: source.drop p ∧ c.context = (source.drop p).take contextLength)
            ↔ (source.drop p).take contextLength = ((bytes xs).drop p).take contextLength))
        ∧ ∀ d, report.cause = .delimiter d →
          ((BraceAt source p ∧ originAt xs p = some p) ↔ cutBefore xs o = putBefore xs p) := by
  intro xs
  obtain ⟨hclean, hreport⟩ := convert_cleaning_cause h hcategory
  have hxs : Derived source xs := stopClean_derived limits.passes source
  refine ⟨hxs.edits, ?_⟩
  rcases stopClean_failsAt hclean with ⟨p, hfails⟩ | hlimit
  · obtain ⟨o, ho⟩ := hfails.originAt hxs
    have hshift := hxs.place_add_putBefore ho
    refine ⟨p, o, ?_, hfails, ho, hxs.le_origin ho, hshift, fun c hc => ?_, fun d hd => ?_⟩
    · rw [hreport]
      exact hfails.position source
    · rw [hc] at hfails
      exact hfails.shown_iff source
    · rw [ho, Option.some.injEq]
      constructor
      · rintro ⟨-, rfl⟩
        omega
      · intro hequal
        obtain rfl : o = p := by omega
        rw [hd] at hfails
        cases hfails with
        | unclosed _ _ hfirst _ =>
            have hbrace := hfirst.2.1
            refine ⟨?_, rfl⟩
            unfold BraceAt at hbrace ⊢
            have hkept := hxs.edits.kept_sublist
            rw [kept_marked] at hkept
            rwa [originAt_byte hkept ho] at hbrace
  · exfalso
    rw [hreport, hlimit] at hcategory
    exact absurd hcategory (by simp [nonConvergence, StageError.report])

/-- A text argument that is removed, and behind it a command without one. -/
def removedText : Text := "\\text\x7babc\x7dx\\text"

/-- The ten bytes that are removed are missing in the position, and the source has other bytes
there. -/
theorem removedText_misplaced :
    ∃ report c, Conversion.convert {} removedText = .error report
      ∧ report.category = .cleaning ∧ report.cause = .cleaning c ∧ report.position = 1
      ∧ originAt (stopClean 64 removedText) 1 = some 11
      ∧ cutBefore (stopClean 64 removedText) 11 = 10
      ∧ ¬ (c.missing.command <+: removedText.drop 1
        ∧ c.context = (removedText.drop 1).take contextLength) := by
  have hconvert : Conversion.convert {} removedText
      = .error ((StageError.cleaning (CleaningError.atCommand "x\\text" "\\text" 1 1)).report
        removedText) := rfl
  obtain ⟨-, p, o, hposition, -, ho, -, hshift, hshown, -⟩ :=
    cleaning_failure_place hconvert (Or.inl rfl)
  obtain rfl : p = 1 := (Int.ofNat.inj hposition).symm
  have hplace : originAt (stopClean 64 removedText) 1 = some 11 := by decide
  obtain rfl : o = 11 := Option.some.inj (ho.symm.trans hplace)
  have hput : putBefore (stopClean 64 removedText) 1 = 0 := by decide
  refine ⟨_, _, hconvert, rfl, rfl, rfl, hplace, ?_, fun h => ?_⟩
  · have hshift : 11 + putBefore (stopClean 64 removedText) 1
        = 1 + cutBefore (stopClean 64 removedText) 11 := hshift
    omega
  · have hsame := (hshown _ rfl).mp h
    have hother : (removedText.drop 1).take contextLength
        ≠ ((bytes (stopClean 64 removedText)).drop 1).take contextLength := by decide
    exact hother hsame

end MathMarkup
