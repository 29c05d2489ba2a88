import MathMarkup.History.Field
import MathMarkup.Proofs.Runes

/-!
# Shortened texts

A well formed text is a sequence of characters (`WellFormed`), each of them a first byte and up to
three bytes that continue it. So a beginning of the text is well formed exactly if it ends between
two characters (`WellFormed.take_iff`), and the byte behind it tells.

Where there is room for the ellipsis, a text is shortened to the longest well formed beginning that
leaves this room. Where there is none, it is cut at the limit, whatever is there, and the result is
well formed only if the limit happens to be between two characters (`shorten_exact`).
-/

namespace MathMarkup

namespace Text

/-! ## Characters -/

/-- A byte and those that continue it are one character. -/
structure IsCharacter (b : UInt8) (tails : Text) : Prop where
  valid : (headRune b tails).isInvalid = false
  whole : (headRune b tails).width = tails.length + 1

namespace IsCharacter

variable {b : UInt8} {tails : Text}

/-- The bytes of a character: the first one continues nothing, and at most three others do. -/
theorem bytes (h : IsCharacter b tails) :
    isTail b = false ∧ (∀ x ∈ tails, isTail x = true) ∧ tails.length ≤ 3 := by
  have hshape := headRune_shape b tails
  obtain ⟨-, -, hfour⟩ := hshape.width_bounds
  have htails := hshape.tails
  rw [h.whole, Nat.add_sub_cancel, List.take_length] at htails
  rw [h.whole] at hfour
  exact ⟨hshape.head_not_tail h.valid, htails, by omega⟩

/-- A character is found at the head of a text, and the rest is read behind it. -/
theorem valid_append (h : IsCharacter b tails) (rest : Text) :
    isValidUtf8 (b :: (tails ++ rest)) = isValidUtf8 rest := by
  have hhead : headRune b (tails ++ rest) = headRune b tails := by
    refine headRune_congr_of_valid h.valid ?_
    rw [h.whole, Nat.add_sub_cancel, List.take_left', List.take_length]
    rfl
  rw [isValidUtf8_cons_eq, hhead, h.valid, h.whole, Nat.add_sub_cancel, List.drop_left' rfl]
  rfl

/-- Part of a character encodes nothing: it would be found by these bytes in the whole as well. -/
theorem not_valid_take (h : IsCharacter b tails) {j : Nat} (hj : j < tails.length) :
    isValidUtf8 (b :: tails.take j) = false := by
  rw [isValidUtf8_cons_eq]
  cases hvalid : (headRune b (tails.take j)).isInvalid with
  | true => rfl
  | false =>
      obtain ⟨-, hlength, -⟩ := (headRune_shape b (tails.take j)).width_bounds
      rw [List.length_take] at hlength
      have hsame : headRune b tails = headRune b (tails.take j) := by
        refine headRune_congr_of_valid hvalid ?_
        rw [List.take_take, Nat.min_eq_left (by omega)]
      have hwhole := h.whole
      rw [hsame] at hwhole
      omega

end IsCharacter

/-- A text that is one character after another. -/
inductive WellFormed : Text → Prop where
  | nil : WellFormed []
  | cons {b : UInt8} {tails rest : Text} :
      IsCharacter b tails → WellFormed rest → WellFormed (b :: (tails ++ rest))

theorem WellFormed.valid_append {s : Text} (h : WellFormed s) (t : Text) :
    isValidUtf8 (s ++ t) = isValidUtf8 t := by
  induction h with
  | nil => rfl
  | cons hchar _ ih => rw [List.cons_append, List.append_assoc, hchar.valid_append, ih]

theorem WellFormed.valid {t : Text} (h : WellFormed t) : isValidUtf8 t = true := by
  rw [← List.append_nil t, h.valid_append]
  rfl

theorem wellFormed_of_valid (t : Text) (h : isValidUtf8 t = true) : WellFormed t := by
  match t with
  | [] => exact .nil
  | b :: r =>
      obtain ⟨hhead, hrest⟩ := isValidUtf8_cons h
      obtain ⟨hone, hlength, -⟩ := (headRune_shape b r).width_bounds
      have hchar : IsCharacter b (r.take ((headRune b r).width - 1)) := by
        refine ⟨by rw [headRune_alone hhead, hhead], ?_⟩
        rw [headRune_alone hhead, List.length_take]
        omega
      have := WellFormed.cons hchar (wellFormed_of_valid _ hrest)
      rwa [List.take_append_drop] at this
termination_by t.length
decreasing_by simp only [List.length_drop, List.length_cons]; omega

theorem isValidUtf8_iff {t : Text} : isValidUtf8 t = true ↔ WellFormed t :=
  ⟨wellFormed_of_valid t, WellFormed.valid⟩

/-! ## Between two characters -/

/-- No byte that continues a character stands at a place of a text. -/
def isBoundary (t : Text) (k : Nat) : Bool := (t[k]?).all (!isTail ·)

theorem isBoundary_append (s t : Text) (k : Nat) :
    isBoundary (s ++ t) (s.length + k) = isBoundary t k := by
  unfold isBoundary
  rw [List.getElem?_append_right (Nat.le_add_right ..), Nat.add_sub_cancel_left]

namespace WellFormed

variable {t : Text}

/-- A beginning of a well formed text is well formed exactly if it ends between two characters. -/
theorem take_iff (h : WellFormed t) (k : Nat) :
    isValidUtf8 (t.take k) = true ↔ isBoundary t k = true := by
  induction h generalizing k with
  | nil => simp [isBoundary, isValidUtf8_iff, WellFormed.nil]
  | @cons b tails rest hchar hrest ih =>
      obtain ⟨hhead, htails, -⟩ := hchar.bytes
      rcases k with _ | j
      · simp [isBoundary, hhead, isValidUtf8_iff, WellFormed.nil]
      rcases Nat.lt_or_ge j tails.length with hj | hj
      · -- within the character
        have hcut : (b :: (tails ++ rest)).take (j + 1) = b :: tails.take j := by
          rw [List.take_succ_cons, List.take_append_of_le_length (by omega)]
        have hmid : (b :: (tails ++ rest))[j + 1]? = some tails[j] := by
          rw [List.getElem?_cons_succ, List.getElem?_append_left hj, List.getElem?_eq_getElem hj]
        rw [hcut, hchar.not_valid_take hj, isBoundary, hmid]
        simp [htails _ (List.getElem_mem hj)]
      · -- behind it
        obtain ⟨i, rfl⟩ := Nat.exists_eq_add_of_le hj
        have hcut : (b :: (tails ++ rest)).take (tails.length + i + 1)
            = b :: (tails ++ rest.take i) := by
          rw [List.take_succ_cons, List.take_append, List.take_of_length_le (by omega)]
          simp
        rw [hcut, hchar.valid_append, ih i, ← isBoundary_append (b :: tails) rest i]
        simp [Nat.add_right_comm]

/-- One of four places in a row is between two characters. -/
theorem exists_boundary (h : WellFormed t) (k : Nat) :
    ∃ j, j ≤ k ∧ k ≤ j + 3 ∧ isBoundary t j = true := by
  induction h generalizing k with
  | nil => exact ⟨k, by omega, by omega, by simp [isBoundary]⟩
  | @cons b tails rest hchar hrest ih =>
      obtain ⟨hhead, -, hthree⟩ := hchar.bytes
      rcases Nat.lt_or_ge tails.length k with hk | hk
      · obtain ⟨j, hle, hnear, hj⟩ := ih (k - (tails.length + 1))
        refine ⟨(b :: tails).length + j, ?_, ?_, ?_⟩
        · rw [List.length_cons]; omega
        · rw [List.length_cons]; omega
        · exact (isBoundary_append (b :: tails) rest j).trans hj
      · exact ⟨0, by omega, by omega, by simp [isBoundary, hhead]⟩

end WellFormed

end Text

/-! ## Shortening -/

namespace History

open Text (isBoundary WellFormed)

section CharStart

variable {t : Text} {k : Nat}

theorem charStart_le : charStart t k ≤ k := by
  induction k with
  | zero => exact Nat.le_refl 0
  | succ k ih =>
      rw [charStart]
      split
      · exact Nat.le_refl _
      · exact Nat.le_succ_of_le ih

theorem isBoundary_charStart (hzero : isBoundary t 0 = true) :
    isBoundary t (charStart t k) = true := by
  induction k with
  | zero => exact hzero
  | succ k ih =>
      rw [charStart]
      split
      · rename_i hstart
        obtain ⟨b, hb, hb'⟩ := Option.any_eq_true .. |>.mp hstart
        rw [isBoundary, hb, Option.all_some, hb']
      · exact ih

/-- No later place up to `k` is between two characters. -/
theorem le_charStart {j : Nat} (hk : k < t.length) (hjk : j ≤ k) (hj : isBoundary t j = true) :
    j ≤ charStart t k := by
  induction k with
  | zero => exact hjk
  | succ k ih =>
      rw [charStart]
      split
      · exact hjk
      · rename_i hstart
        -- here a character goes on, so the place is an earlier one
        have hne : j ≠ k + 1 := by
          rintro rfl
          rw [isBoundary, List.getElem?_eq_getElem hk] at hj
          rw [List.getElem?_eq_getElem hk] at hstart
          exact hstart hj
        exact ih (by omega) (by omega)

end CharStart

/-- What is put behind a text that is cut; there may be no room for it. -/
def mark (limit : Int) : Text := if 3 < limit then ellipsis else []

/-- How many bytes of a text that is too long a limit leaves room for. -/
def room (limit : Int) : Nat := limit.toNat - (mark limit).length

/-- How many bytes of a text that is too long are kept. -/
def keptLength (t : Text) (limit : Int) : Nat :=
  if 3 < limit then charStart t (limit.toNat - 3) else limit.toNat

section Shorten

variable {t : Text} {limit : Int}

theorem ellipsis_length : ellipsis.length = 3 := by decide

theorem room_add_mark (limit : Int) : room limit + (mark limit).length = limit.toNat := by
  unfold room mark
  split
  · rw [ellipsis_length]; omega
  · rfl

theorem shorten_self (hfits : (t.length : Int) ≤ limit) : shorten t limit = t := by
  unfold shorten
  rw [if_pos (by simp [hfits])]

theorem shorten_long (hlimit : 0 < limit) (hlong : limit < t.length) :
    shorten t limit = t.take (keptLength t limit) ++ mark limit := by
  unfold shorten keptLength mark
  rw [if_neg (by simp; omega)]
  rcases Int.lt_or_le 3 limit with hmark | hmark
  · rw [if_neg (by omega), if_pos hmark, if_pos hmark]
  · rw [if_pos hmark, if_neg (by omega), if_neg (by omega), List.append_nil]

theorem keptLength_le_room : keptLength t limit ≤ room limit := by
  unfold keptLength room mark
  split
  · exact charStart_le
  · exact Nat.le_refl _

/-- No longer beginning that leaves room for the mark ends between two characters. -/
theorem le_keptLength {k : Nat} (hlong : limit < t.length) (hroom : k ≤ room limit)
    (hk : isBoundary t k = true) : k ≤ keptLength t limit := by
  unfold keptLength
  unfold room mark at hroom
  split at hroom
  · rw [if_pos ‹_›]
    exact le_charStart (by omega) hroom hk
  · rw [if_neg ‹_›]
    exact hroom

theorem isBoundary_keptLength (h : WellFormed t) (hmark : 3 < limit) :
    isBoundary t (keptLength t limit) = true := by
  unfold keptLength
  rw [if_pos hmark]
  exact isBoundary_charStart ((h.take_iff 0).mp rfl)

theorem isBoundary_of_length_le {k : Nat} (hk : t.length ≤ k) : isBoundary t k = true := by
  rw [isBoundary, List.getElem?_eq_none hk, Option.all_none]

/-- With room for the ellipsis no character is cut; without it, one is cut unless the limit happens
to be between two characters. -/
theorem valid_shorten_iff (h : WellFormed t) (hlimit : 0 < limit) :
    Text.isValidUtf8 (shorten t limit) = true ↔ 3 < limit ∨ isBoundary t limit.toNat = true := by
  rcases Int.lt_or_le limit t.length with hlong | hfits
  case inr =>
    rw [shorten_self hfits]
    exact iff_of_true h.valid (.inr (isBoundary_of_length_le (by omega)))
  rw [shorten_long hlimit hlong]
  by_cases hmark : 3 < limit
  · have hkept := (h.take_iff _).mpr (isBoundary_keptLength h hmark)
    have hdots : Text.isValidUtf8 ellipsis = true := by decide
    unfold mark
    rw [if_pos hmark, (Text.isValidUtf8_iff.mp hkept).valid_append]
    exact iff_of_true hdots (.inl hmark)
  · unfold keptLength mark
    rw [if_neg hmark, if_neg hmark, List.append_nil, h.take_iff]
    exact (or_iff_right hmark).symm

/-- A shortened text keeps within the limit. -/
theorem shorten_length_le (hlimit : 0 < limit) : ((shorten t limit).length : Int) ≤ limit := by
  rcases Int.lt_or_le limit t.length with hlong | hfits
  · have hroom := room_add_mark limit
    have hkept : keptLength t limit ≤ room limit := keptLength_le_room
    rw [shorten_long hlimit hlong, List.length_append, List.length_take]
    omega
  · rwa [shorten_self hfits]

end Shorten

/-- **A shortened text** keeps within its limit, and a text that fits is left alone. Of a longer one
a beginning is kept that leaves room for the mark, fills this room but for three bytes at most, and
is as long as any well formed beginning that does. The result is well formed if and only if there is
room for the ellipsis or no character goes on behind the limit. -/
theorem shorten_exact (t : Text) (limit : Int) (hvalid : Text.isValidUtf8 t = true)
    (hlimit : 0 < limit) :
    ((shorten t limit).length : Int) ≤ limit
      ∧ ((t.length : Int) ≤ limit → shorten t limit = t)
      ∧ (limit < t.length → ∃ kept, kept <+: t ∧ shorten t limit = kept ++ mark limit
          ∧ kept.length ≤ room limit ∧ room limit ≤ kept.length + 3
          ∧ ∀ other, other <+: t → Text.isValidUtf8 other = true → other.length ≤ room limit →
              other.length ≤ kept.length)
      ∧ (Text.isValidUtf8 (shorten t limit) = true
          ↔ 3 < limit ∨ isBoundary t limit.toNat = true) := by
  have h := Text.wellFormed_of_valid t hvalid
  refine ⟨shorten_length_le hlimit, shorten_self, fun hlong => ?_, valid_shorten_iff h hlimit⟩
  have hkept : keptLength t limit ≤ room limit := keptLength_le_room
  have hroom : room limit ≤ t.length := by
    have := room_add_mark limit
    omega
  have hlength : (t.take (keptLength t limit)).length = keptLength t limit := by
    rw [List.length_take, Nat.min_eq_left (by omega)]
  refine ⟨t.take (keptLength t limit), List.take_prefix .., shorten_long hlimit hlong, ?_⟩
  rw [hlength]
  refine ⟨hkept, ?_, fun other hother hvalid' hle => ?_⟩
  · obtain ⟨j, hj, hnear, hboundary⟩ := h.exists_boundary (room limit)
    have := le_keptLength hlong hj hboundary
    omega
  · refine le_keptLength hlong hle ((h.take_iff _).mp ?_)
    rwa [← List.prefix_iff_eq_take.mp hother]

/-- A character of two bytes with a limit of one: its first byte is left, and that is no text. -/
theorem accented_splits :
    Text.isValidUtf8 [0xC3, 0xA9] = true ∧ 0 < (1 : Int) ∧ shorten [0xC3, 0xA9] 1 = [0xC3]
      ∧ Text.isValidUtf8 (shorten [0xC3, 0xA9] 1) = false := by
  have hvalid : Text.isValidUtf8 [0xC3, 0xA9] = true := by decide
  refine ⟨hvalid, by decide, by decide, ?_⟩
  obtain ⟨-, -, -, hiff⟩ := shorten_exact [0xC3, 0xA9] 1 hvalid (by decide)
  exact Bool.eq_false_iff.mpr (mt hiff.mp (by decide))

end History

end MathMarkup
