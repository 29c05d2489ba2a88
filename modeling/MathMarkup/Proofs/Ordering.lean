import Mathlib.Data.List.Nodup
import MathMarkup.History.Memory

/-!
# Sorting by a number and a name

Stores sort by a number and, where numbers are equal, by an identifier, upwards or downwards.
Neither a number nor a direction alone decides the order, but number and identifier together do: two
things in one place have the same identifier (`Place.Le.antisymm`). So sorting things with distinct
identifiers has one result, however they were kept before (`SortsBy.mergeSort_eq_of_perm`), and no
two of them tie in it (`SortsBy.strict`).
-/

namespace MathMarkup.History

/-! ## Places -/

/-- Where something stands in an order by numbers, and by names among equal numbers. -/
structure Place where
  number : Int
  name : Text

namespace Place

/-- A place is at or before another. -/
def Le (a b : Place) : Prop := a.number < b.number ∨ a.number = b.number ∧ a.name ≤ b.name

/-- A place is before another. -/
def Lt (a b : Place) : Prop := a.number < b.number ∨ a.number = b.number ∧ a.name < b.name

variable {a b c : Place}

theorem Le.trans (hab : a.Le b) (hbc : b.Le c) : a.Le c := by
  rcases hab with hlt | ⟨heq, hname⟩
  · rcases hbc with hlt' | ⟨heq', -⟩
    · exact .inl (by omega)
    · exact .inl (by omega)
  · rcases hbc with hlt' | ⟨heq', hname'⟩
    · exact .inl (by omega)
    · exact .inr ⟨heq.trans heq', List.le_trans hname hname'⟩

theorem Le.total (a b : Place) : a.Le b ∨ b.Le a := by
  rcases Int.lt_trichotomy a.number b.number with hlt | heq | hgt
  · exact .inl (.inl hlt)
  · exact (List.le_total a.name b.name).imp (fun h => .inr ⟨heq, h⟩) fun h => .inr ⟨heq.symm, h⟩
  · exact .inr (.inl hgt)

/-- Two things in one place have one name. -/
theorem Le.antisymm (hab : a.Le b) (hba : b.Le a) : a.name = b.name := by
  rcases hab with hlt | ⟨heq, hname⟩
  · rcases hba with hlt' | ⟨heq', -⟩ <;> omega
  · rcases hba with hlt' | ⟨-, hname'⟩
    · omega
    · exact List.le_antisymm hname hname'

/-- Different names leave no ties. -/
theorem Le.lt_of_ne (hab : a.Le b) (hne : a.name ≠ b.name) : a.Lt b := by
  refine hab.imp id fun ⟨heq, hname⟩ => ⟨heq, ?_⟩
  exact Classical.byContradiction fun hnot => hne (List.le_antisymm hname (List.not_lt.mp hnot))

end Place

/-! ## Sorting -/

/-- A test compares things by their places, upwards or downwards. -/
def SortsBy {α : Type} (upwards : Bool) (place : α → Place) (le : α → α → Bool) : Prop :=
  ∀ a b, le a b = true ↔ if upwards then (place a).Le (place b) else (place b).Le (place a)

namespace SortsBy

variable {α : Type} {upwards : Bool} {place : α → Place} {le : α → α → Bool} {as bs : List α}

/-- Things are sorted by their places. -/
theorem sorted (h : SortsBy upwards place le) (as : List α) :
    (as.mergeSort le).Pairwise fun a b => le a b = true := by
  refine List.pairwise_mergeSort (fun a b c hab hbc => ?_) (fun a b => ?_) as
  · rw [h] at hab hbc ⊢
    cases upwards with
    | true => exact hab.trans hbc
    | false => exact hbc.trans hab
  · rw [Bool.or_eq_true, h, h]
    cases upwards with
    | true => exact Place.Le.total _ _
    | false => exact Place.Le.total _ _

/-- Two things in one place have one name, in either direction. -/
theorem name_eq (h : SortsBy upwards place le) {a b : α} (hab : le a b = true)
    (hba : le b a = true) : (place a).name = (place b).name := by
  rw [h] at hab hba
  cases upwards with
  | true => exact Place.Le.antisymm hab hba
  | false => exact Place.Le.antisymm hba hab

/-- **Sorting things with distinct names has one result**, however they were ordered before. -/
theorem mergeSort_eq_of_perm (h : SortsBy upwards place le)
    (hdistinct : (as.map fun a => (place a).name).Nodup) (hperm : as.Perm bs) :
    as.mergeSort le = bs.mergeSort le := by
  refine List.Perm.eq_of_pairwise (fun a b ha hb hab hba => ?_) (h.sorted as) (h.sorted bs) ?_
  · have hb' := hperm.mem_iff.mpr (List.mem_mergeSort.mp hb)
    exact List.inj_on_of_nodup_map hdistinct (List.mem_mergeSort.mp ha) hb' (h.name_eq hab hba)
  · exact (List.mergeSort_perm as _).trans (hperm.trans (List.mergeSort_perm bs _).symm)

/-- **Things with distinct names do not tie.** What is sorted downwards goes upwards from its
end. -/
theorem strict (h : SortsBy upwards place le)
    (hdistinct : (as.map fun a => (place a).name).Nodup) :
    (if upwards then as.mergeSort le else (as.mergeSort le).reverse).Pairwise
      fun a b => (place a).Lt (place b) := by
  have hnames : (as.mergeSort le).Pairwise fun a b => (place a).name ≠ (place b).name :=
    List.pairwise_map.mp (((List.mergeSort_perm as le).map _).nodup_iff.mpr hdistinct)
  have hboth := (h.sorted as).and hnames
  cases upwards with
  | true =>
      refine hboth.imp fun {a b} ⟨hle, hne⟩ => ?_
      exact ((h a b).mp hle).lt_of_ne hne
  | false =>
      refine List.pairwise_reverse.mpr (hboth.imp fun {a b} ⟨hle, hne⟩ => ?_)
      exact ((h a b).mp hle).lt_of_ne hne.symm

end SortsBy

/-! ## Records in memory -/

/-- Where a query sorts a record. -/
def Query.place (q : Query) (r : Record) : Place := ⟨q.sortKey r, r.id⟩

namespace Memory

variable {m m' : Memory} {q : Query}

/-- **Records are sorted by the number that a query asks for and by their identifiers.** -/
theorem precedes_sortsBy (q : Query) :
    SortsBy q.isAscending q.place fun a b => !precedes q b a := by
  intro a b
  unfold precedes
  by_cases hkey : q.sortKey b = q.sortKey a
  · by_cases hid : b.id = a.id
    · cases q.isAscending <;> simp [Place.Le, Query.place, hkey, hid]
    · -- of two different identifiers exactly one is less
      have hless : b.id ≤ a.id ↔ b.id < a.id := by
        refine ⟨fun h => ?_, fun h => List.not_lt.mp (List.lt_asymm h)⟩
        exact Classical.byContradiction fun h' => hid (List.le_antisymm h (List.not_lt.mp h'))
      cases q.isAscending <;> simp [Place.Le, Query.place, hkey, hid, hless, List.not_lt]
  · have hkey' : (q.sortKey b == q.sortKey a) = false := beq_eq_false_iff_ne.mpr hkey
    have hless : q.sortKey a ≤ q.sortKey b ↔ q.sortKey a < q.sortKey b := by omega
    cases q.isAscending <;> simp [Place.Le, Query.place, hkey', hkey, Ne.symm hkey, hless]

/-- The wanted records are selected, each of them once. -/
theorem selected_perm (m : Memory) (q : Query) :
    (m.selected q).Perm (m.records.filter q.admits) :=
  List.mergeSort_perm _ _

theorem filter_distinct (m : Memory) (p : Record → Bool) :
    ((m.records.filter p).map Record.id).Nodup :=
  m.distinct.sublist (List.filter_sublist.map _)

/-- **The order of the selected records is strict**, upwards or downwards. -/
theorem selected_strict (m : Memory) (q : Query) :
    (if q.isAscending then m.selected q else (m.selected q).reverse).Pairwise
      fun a b => (q.place a).Lt (q.place b) :=
  (precedes_sortsBy q).strict (m.filter_distinct q.admits)

/-- **How records are kept does not matter** to what a query selects. -/
theorem selected_eq_of_perm (hperm : m.records.Perm m'.records) :
    m.selected q = m'.selected q :=
  (precedes_sortsBy q).mergeSort_eq_of_perm (m.filter_distinct q.admits) (hperm.filter q.admits)

end Memory

end MathMarkup.History
