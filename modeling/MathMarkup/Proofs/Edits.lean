import Mathlib.Logic.Relation
import MathMarkup.Text.Basic

/-!
# Edited texts

Cleaning edits a text again and again. To say where a byte of the result comes from, every byte
carries a mark: its place in the source, or none if a rule has put it there.

All that a rule does is to keep bytes, and to cut pieces out and put other bytes in their place
(`Edited`). Two things about the pieces matter: what is put in is not longer, and no piece begins
with a letter. From the second it follows that a letter behind a byte that is kept is kept with it
(`Joined`), so the name of a command can grow but not shrink.
-/

namespace MathMarkup.Cleaning

/-- A byte and the place in the source it comes from. -/
structure Mark where
  byte : UInt8
  origin : Option Nat
deriving DecidableEq, Repr

/-- The text without its marks. -/
def bytes (xs : List Mark) : Text := xs.map Mark.byte

/-- Bytes that a rule puts in. -/
def put (t : Text) : List Mark := t.map fun b => ⟨b, none⟩

/-- The bytes that come from the source, with their places. -/
def kept (xs : List Mark) : List (UInt8 × Nat) :=
  xs.filterMap fun x => x.origin.map fun i => (x.byte, i)

/-- A source that nothing has been done to. -/
def marked (source : Text) : List Mark := source.zipIdx.map fun p => ⟨p.1, some p.2⟩

@[simp] theorem bytes_nil : bytes [] = [] := rfl

@[simp] theorem bytes_cons (x : Mark) (xs : List Mark) : bytes (x :: xs) = x.byte :: bytes xs := rfl

@[simp] theorem bytes_append (xs ys : List Mark) : bytes (xs ++ ys) = bytes xs ++ bytes ys :=
  List.map_append

@[simp] theorem bytes_put (t : Text) : bytes (put t) = t := by
  simp [bytes, put, Function.comp_def]

@[simp] theorem bytes_length (xs : List Mark) : (bytes xs).length = xs.length := List.length_map _

theorem bytes_take (n : Nat) (xs : List Mark) : bytes (xs.take n) = (bytes xs).take n :=
  List.map_take

theorem bytes_drop (n : Nat) (xs : List Mark) : bytes (xs.drop n) = (bytes xs).drop n :=
  List.map_drop

@[simp] theorem bytes_marked (source : Text) : bytes (marked source) = source := by
  simp [bytes, marked, Function.comp_def, List.zipIdx_map_fst]

@[simp] theorem put_length (t : Text) : (put t).length = t.length := List.length_map _

theorem kept_append (xs ys : List Mark) : kept (xs ++ ys) = kept xs ++ kept ys :=
  List.filterMap_append

@[simp] theorem kept_put (t : Text) : kept (put t) = [] := by
  simp [kept, put, List.filterMap_map]

@[simp] theorem kept_marked (source : Text) : kept (marked source) = source.zipIdx := by
  unfold kept marked
  rw [List.filterMap_map]
  exact List.filterMap_some

/-! ## One edit -/

/-- One text comes from another by cutting pieces out and putting bytes in their place. -/
inductive Edited : List Mark → List Mark → Prop where
  | done : Edited [] []
  | keep (x : Mark) {xs ys : List Mark} : Edited xs ys → Edited (x :: xs) (x :: ys)
  | cut (x : Mark) (gap : List Mark) (out : Text) {xs ys : List Mark} :
      Text.isLetter x.byte = false → out.length ≤ gap.length + 1 → Edited xs ys →
      Edited (x :: (gap ++ xs)) (put out ++ ys)

variable {xs ys xs' ys' : List Mark}

theorem edited_refl (xs : List Mark) : Edited xs xs := by
  induction xs with
  | nil => exact .done
  | cons x xs ih => exact .keep x ih

theorem Edited.append (h : Edited xs ys) (h' : Edited xs' ys') :
    Edited (xs ++ xs') (ys ++ ys') := by
  induction h with
  | done => exact h'
  | keep x _ ih => exact .keep x ih
  | cut x gap out hx hlen _ ih =>
      rw [List.cons_append, List.append_assoc, List.append_assoc]
      exact .cut x gap out hx hlen ih

/-- A piece that is removed. -/
theorem edited_removed {x : Mark} (h : Text.isLetter x.byte = false) (gap : List Mark) :
    Edited (x :: gap) [] := by
  simpa [put] using Edited.cut x gap [] h (by simp) .done

theorem Edited.length_le (h : Edited xs ys) : ys.length ≤ xs.length := by
  induction h with
  | done => exact Nat.le_refl _
  | keep x _ ih => simpa using ih
  | cut x gap out _ hlen _ ih =>
      simp only [List.length_append, put_length, List.length_cons]
      omega

theorem Edited.kept_sublist (h : Edited xs ys) : (kept ys).Sublist (kept xs) := by
  induction h with
  | done => exact List.Sublist.refl _
  | @keep x xs ys _ ih =>
      have := ih.append_left (kept [x])
      rwa [← kept_append, ← kept_append] at this
  | cut x gap out _ _ _ ih =>
      rw [kept_append, kept_put, List.nil_append, ← List.cons_append, kept_append]
      exact ih.trans (List.sublist_append_right _ _)

/-- A letter at the beginning is kept. -/
theorem Edited.letter {x : Mark} (h : Edited (x :: xs) ys) (hx : Text.isLetter x.byte = true) :
    ys.head? = some x := by
  cases h with
  | keep x _ => rfl
  | cut x gap out hnot _ _ =>
      rw [hx] at hnot
      exact absurd hnot (by simp)

/-! ## Letters stay with what is before them -/

/-- A letter that follows a byte in the source follows it still. -/
def Joined (source : Text) : List Mark → Prop
  | [] => True
  | x :: xs =>
      (∀ i l, x.origin = some i → source[i + 1]? = some l → Text.isLetter l = true →
        xs.head? = some ⟨l, some (i + 1)⟩) ∧ Joined source xs

variable {source : Text}

theorem Joined.right (h : Joined source (xs ++ ys)) : Joined source ys := by
  induction xs with
  | nil => exact h
  | cons x xs ih => exact ih h.2

theorem joined_put (t : Text) (h : Joined source ys) : Joined source (put t ++ ys) := by
  induction t with
  | nil => exact h
  | cons b t ih => exact ⟨fun _ _ he => absurd he (by simp), ih⟩

theorem Edited.joined (h : Edited xs ys) (hj : Joined source xs) : Joined source ys := by
  induction h with
  | done => exact hj
  | @keep x xs ys h ih =>
      -- the letter behind a byte that is kept is at the head of the rest, and no cut begins there
      refine ⟨fun i l hi hl hletter => ?_, ih hj.2⟩
      obtain ⟨xs', rfl⟩ := List.head?_eq_some_iff.mp (hj.1 i l hi hl hletter)
      exact h.letter hletter
  | cut x gap out _ _ _ ih => exact joined_put out (ih hj.2.right)

theorem joined_marked (source : Text) : Joined source (marked source) := by
  -- the bytes from place `n` on
  have tail : ∀ (t : Text) (n : Nat), source.drop n = t →
      Joined source ((t.zipIdx n).map fun p => ⟨p.1, some p.2⟩) := by
    intro t
    induction t with
    | nil => exact fun _ _ => trivial
    | cons b t ih =>
        intro n hn
        have hrest : source.drop (n + 1) = t := by rw [← List.drop_drop, hn]; rfl
        refine ⟨fun i l hi hl hletter => ?_, ih (n + 1) hrest⟩
        obtain rfl : n = i := by simpa using hi
        have hhead : t.head? = some l := by rw [← hrest, List.head?_drop]; exact hl
        obtain ⟨t', rfl⟩ := List.head?_eq_some_iff.mp hhead
        rfl
  exact tail source 0 rfl

/-! ## Many edits -/

/-- One text comes from another by editing it again and again. -/
def Edits : List Mark → List Mark → Prop := Relation.ReflTransGen Edited

theorem Edits.length_le (h : Edits xs ys) : ys.length ≤ xs.length := by
  induction h with
  | refl => exact Nat.le_refl _
  | tail _ he ih => exact Nat.le_trans he.length_le ih

theorem Edits.kept_sublist (h : Edits xs ys) : (kept ys).Sublist (kept xs) := by
  induction h with
  | refl => exact List.Sublist.refl _
  | tail _ he ih => exact he.kept_sublist.trans ih

theorem Edits.joined (h : Edits xs ys) (hj : Joined source xs) : Joined source ys := by
  induction h with
  | refl => exact hj
  | tail _ he ih => exact he.joined ih

end MathMarkup.Cleaning
