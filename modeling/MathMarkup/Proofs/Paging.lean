import MathMarkup.Proofs.Backends
import MathMarkup.Proofs.Literal

/-!
# Pages

All pages of a query to records in memory are cut from one list (`query_tiles`): the wanted records,
upwards or downwards in an order in which no two of them tie. The list depends on which records
there are and not on how they are kept, and neither does a page. So a caller who asks for one page
after the other sees every wanted record once, in order, however long the pages are; the induction
is on the number of pages (`flatten_pages`).

What the order and the direction are is said in terms of the records and of the text that names the
direction (`Query.place_lt_iff`, `Query.isAscending_iff`).
-/

namespace MathMarkup

/-! ## Letters in either case -/

namespace Text

/-- No run of letters is taken into ASCII, apart from two runs of one letter. -/
theorem lowerRuns_apart :
    ∀ r ∈ lowerRuns,
      128 ≤ (r.low : Int) + r.shift ∨ r.low = r.high ∧ (r.low = 304 ∨ r.low = 8490) := by
  decide +kernel

theorem toNat_charOfCode_ge {n : Int} (h : 128 ≤ n) : 128 ≤ (charOfCode n).toNat := by
  unfold charOfCode
  split
  · rename_i hvalid
    rw [toNat_ofNat_of_valid hvalid.2]
    omega
  · decide

/-- Characters above ASCII stay there, apart from two. -/
theorem toNat_lowerChar_ge {x : Char} (hx : 128 ≤ x.toNat) (hdotted : x.toNat ≠ 304)
    (hkelvin : x.toNat ≠ 8490) : 128 ≤ (lowerChar x).toNat := by
  unfold lowerChar
  rw [if_neg (by omega)]
  split
  · rename_i r hfound
    have hwithin := List.find?_some hfound
    simp only [Bool.and_eq_true, decide_eq_true_eq] at hwithin
    refine toNat_charOfCode_ge ?_
    rcases lowerRuns_apart r (List.mem_of_find?_eq_some hfound) with hhigh | ⟨hone, hlow⟩
    · omega
    · omega
  · exact hx

theorem mem_asc {l : Char} : l ∈ ['a', 's', 'c'] ↔ l = 'a' ∨ l = 's' ∨ l = 'c' := by
  simp

/-- Above ASCII one character counts as one of the letters of the word `asc`. -/
theorem foldChar_eq_iff_of_ge {x l : Char} (hx : 128 ≤ x.toNat) (hl : l ∈ ['a', 's', 'c']) :
    foldChar x = l ↔ x = 'ſ' ∧ l = 's' := by
  obtain ⟨hascii, hk, hi⟩ : l.toNat < 128 ∧ l ≠ 'k' ∧ l ≠ 'i' := by
    rcases mem_asc.mp hl with rfl | rfl | rfl <;> decide
  have hcode (y : Char) : x = y ↔ x.toNat = y.toNat := Char.toNat_inj.symm
  unfold foldChar
  simp only [beq_iff_eq]
  split
  · rename_i hlong
    rw [eq_comm, and_iff_right ((hcode 'ſ').mpr hlong)]
  · rename_i hlong
    refine iff_of_false ?_ fun h => hlong ((hcode 'ſ').mp h.1)
    split
    · exact Ne.symm hk
    · rename_i hkelvin
      intro heq
      by_cases hdotted : x.toNat = 304
      · have hlower : lowerChar 'İ' = 'i' := by decide +kernel
        rw [(hcode 'İ').mpr hdotted, hlower] at heq
        exact hi heq.symm
      · have hhigh := toNat_lowerChar_ge hx hdotted hkelvin
        rw [heq] at hhigh
        omega

/-- The characters that count as one of the letters of the word `asc`. -/
theorem foldChar_eq_iff {x l : Char} (hl : l ∈ ['a', 's', 'c']) :
    foldChar x = l ↔ x = l ∨ x = l.toUpper ∨ x = 'ſ' ∧ l = 's' := by
  by_cases hx : x.toNat < 128
  · have hascii : ∀ n < 128, foldChar (Char.ofNat n) = l
        ↔ Char.ofNat n = l ∨ Char.ofNat n = l.toUpper ∨ Char.ofNat n = 'ſ' ∧ l = 's' := by
      rcases mem_asc.mp hl with rfl | rfl | rfl <;> decide
    have := hascii x.toNat hx
    rwa [Char.ofNat_toNat] at this
  · obtain ⟨hlower, hupper⟩ : l.toNat < 128 ∧ l.toUpper.toNat < 128 := by
      rcases mem_asc.mp hl with rfl | rfl | rfl <;> decide
    rw [foldChar_eq_iff_of_ge (by omega) hl, or_iff_right (by rintro rfl; exact hx hlower),
      or_iff_right (by rintro rfl; exact hx hupper)]

end Text

namespace History

/-- The query for a page with a number, counted from zero, of a given length. -/
def Query.onPage (q : Query) (size k : Nat) : Query := { q with offset := k * size, limit := size }

/-- Records that go upwards, in the direction of a query. -/
def Query.turned (q : Query) (rs : List Record) : List Record :=
  if q.isAscending then rs else rs.reverse

theorem Query.turned_turned (q : Query) (rs : List Record) : q.turned (q.turned rs) = rs := by
  unfold turned
  split
  · rfl
  · exact rs.reverse_reverse

theorem Query.turned_perm (q : Query) (rs : List Record) : (q.turned rs).Perm rs := by
  unfold turned
  split
  · exact .refl rs
  · exact rs.reverse_perm

/-- **Which records come first**: those of less time, if durations are asked for, and otherwise
those created earlier, and among equal ones those of the smaller identifier. -/
theorem Query.place_lt_iff {q : Query} {a b : Record} :
    (q.place a).Lt (q.place b) ↔
      if q.sortBy = Text.ofString "duration" then
        a.duration < b.duration ∨ a.duration = b.duration ∧ a.id < b.id
      else a.createdAt.instant < b.createdAt.instant
        ∨ a.createdAt.instant = b.createdAt.instant ∧ a.id < b.id := by
  unfold place Place.Lt sortKey
  by_cases hfield : q.sortBy = Text.ofString "duration"
  · simp [hfield]
  · have hinstant : a.createdAt.instant.nanos = b.createdAt.instant.nanos
        ↔ a.createdAt.instant = b.createdAt.instant := by
      rw [Time.Instant.mk.injEq]
    simp [hfield, hinstant]
    rfl

/-- **Which queries ascend**: those whose direction is spelled `asc` in letters of either case. -/
theorem Query.isAscending_iff {q : Query} :
    q.isAscending = true ↔ ∃ a s c : Char, Text.chars q.sortOrder = [a, s, c]
      ∧ a ∈ ['a', 'A'] ∧ s ∈ ['s', 'S', 'ſ'] ∧ c ∈ ['c', 'C'] := by
  have hword : (Text.chars "asc").map Text.foldChar = ['a', 's', 'c'] := by decide
  have ha (x : Char) : Text.foldChar x = 'a' ↔ x ∈ ['a', 'A'] := by
    rw [Text.foldChar_eq_iff (by decide)]
    simp
  have hs (x : Char) : Text.foldChar x = 's' ↔ x ∈ ['s', 'S', 'ſ'] := by
    rw [Text.foldChar_eq_iff (by decide)]
    simp
  have hc (x : Char) : Text.foldChar x = 'c' ↔ x ∈ ['c', 'C'] := by
    rw [Text.foldChar_eq_iff (by decide)]
    simp
  unfold isAscending Text.equalFold
  rw [hword, beq_iff_eq]
  simp only [List.map_eq_cons_iff, List.map_eq_nil_iff, ha, hs, hc]
  constructor
  · rintro ⟨a, -, hchars, ha, s, -, rfl, hs, c, -, rfl, hc, rfl⟩
    exact ⟨a, s, c, hchars, ha, hs, hc⟩
  · rintro ⟨a, s, c, hchars, ha, hs, hc⟩
    exact ⟨a, _, hchars, ha, s, _, rfl, hs, c, _, rfl, hc, rfl⟩

namespace Memory

variable {m m' : Memory} {q : Query}

/-- The first pages of a query, all of one length. -/
def pages (m : Memory) (q : Query) (size n : Nat) : Except Fault (List (List Record)) :=
  (List.range n).mapM fun k => m.query (q.onPage size k)

theorem query_eq (hoffset : 0 ≤ q.offset) :
    m.query q = .ok (if 0 < q.limit then ((m.selected q).drop q.offset.toNat).take q.limit.toNat
      else (m.selected q).drop q.offset.toNat) := by
  unfold query
  rw [if_neg (by omega), page_eq]

/-- A query goes wrong exactly if its page would start before the first record, and the order of the
records makes no difference to either. -/
theorem query_eq_of_perm (hperm : m.records.Perm m'.records) : m.query q = m'.query q := by
  unfold query
  rw [selected_eq_of_perm hperm]

theorem query_onPage {size : Nat} (hsize : 0 < size) (k : Nat) :
    m.query (q.onPage size k) = .ok (((m.selected q).drop (k * size)).take size) := by
  have hoffset : (q.onPage size k).offset = ((k * size : Nat) : Int) := by
    unfold Query.onPage
    push_cast
    rfl
  rw [query_eq (by omega), if_pos (by exact Int.natCast_pos.mpr hsize), hoffset, Int.toNat_natCast]
  rfl

/-- **Pages follow one another without gap or overlap.** -/
theorem flatten_pages {size : Nat} (hsize : 0 < size) (m : Memory) (q : Query) (n : Nat) :
    ∃ ps, m.pages q size n = .ok ps ∧ ps.flatten = (m.selected q).take (n * size) := by
  induction n with
  | zero => exact ⟨[], rfl, by simp⟩
  | succ n ih =>
      obtain ⟨ps, hpages, hflatten⟩ := ih
      refine ⟨ps ++ [((m.selected q).drop (n * size)).take size], ?_, ?_⟩
      · unfold pages at hpages ⊢
        rw [List.range_succ, List.mapM_append, hpages]
        simp only [List.mapM_cons, List.mapM_nil, query_onPage hsize]
        rfl
      · rw [List.flatten_append, List.flatten_singleton, hflatten, Nat.succ_mul, List.take_add]

/-- What is sorted already is what is selected. -/
theorem selected_eq_of_sorted {rs : List Record} (hperm : (m.records.filter q.admits).Perm rs)
    (hsorted : rs.Pairwise fun a b => (!precedes q b a) = true) : m.selected q = rs := by
  have heq := (precedes_sortsBy q).mergeSort_eq_of_perm (m.filter_distinct q.admits) hperm
  exact heq.trans (List.mergeSort_of_pairwise hsorted)

theorem length_selected (m : Memory) (q : Query) : (m.selected q).length = m.count q :=
  (m.selected_perm q).length_eq

/-- **Queries are deterministic and their pages tile.** There is one list of the wanted records,
strictly ordered by the number that the query sorts by and by identifier, and turned around unless
the query ascends. The answer is this list from the offset on, as far as the limit goes if there is
one, in whatever order the records are kept. Pages of any length, asked for one after the other, put
the list together again; its length is the count. -/
theorem query_tiles (m : Memory) (q : Query) (hoffset : 0 ≤ q.offset) :
    ∃ sorted : List Record,
      sorted.Perm (m.records.filter q.admits)
        ∧ (sorted.Pairwise fun a b => (q.place a).Lt (q.place b))
        ∧ m.query q = .ok (if 0 < q.limit
            then ((q.turned sorted).drop q.offset.toNat).take q.limit.toNat
            else (q.turned sorted).drop q.offset.toNat)
        ∧ (∀ m' : Memory, m'.records.Perm m.records → m'.query q = m.query q)
        ∧ (q.turned sorted).length = m.count q
        ∧ ∀ size n : Nat, 0 < size →
          ∃ ps, m.pages q size n = .ok ps ∧ ps.flatten = (q.turned sorted).take (n * size)
            ∧ (m.count q ≤ n * size → ps.flatten = q.turned sorted) := by
  refine ⟨q.turned (m.selected q), ?_⟩
  rw [q.turned_turned]
  refine ⟨(q.turned_perm _).trans (m.selected_perm q), m.selected_strict q, query_eq hoffset,
    fun m' => query_eq_of_perm, m.length_selected q, fun size n hsize => ?_⟩
  obtain ⟨ps, hpages, hflatten⟩ := flatten_pages hsize m q n
  refine ⟨ps, hpages, hflatten, fun hall => ?_⟩
  rw [hflatten]
  exact List.take_of_length_le (by rw [m.length_selected q]; exact hall)

/-- Three records of one moment. -/
def threeTied : Memory := ⟨[early "b" [], early "c" "syntax", early "a" []], by decide⟩

/-- The second record from the end, in an order that is spelled in neither direction. -/
def nextToLast : Query := { sortOrder := "downwards", offset := 1, limit := 1 }

/-- Equal numbers leave the order to the identifiers. -/
theorem threeTied_selected :
    threeTied.selected nextToLast = [early "c" "syntax", early "b" [], early "a" []] := by
  have hperm : (threeTied.records.filter nextToLast.admits).Perm
      [early "c" "syntax", early "b" [], early "a" []] := by decide
  exact selected_eq_of_sorted hperm (by decide)

/-- A record of the same moment that took some time. -/
def lasting (duration : Time.Duration) (id : Text) : Record := { early id [] with duration }

/-- Three records of one moment, of which the ones with greater identifiers took less time. -/
def threeApart : Memory := ⟨[lasting 20 "b", lasting 10 "c", lasting 30 "a"], by decide⟩

/-- The two that took the least time; the direction is spelled in large letters. -/
def shortestTwo : Query := { sortBy := "duration", sortOrder := "ASC", limit := 2 }

/-- Unequal numbers decide before the identifiers. -/
theorem threeApart_selected :
    threeApart.selected shortestTwo = [lasting 10 "c", lasting 20 "b", lasting 30 "a"] := by
  have hperm : (threeApart.records.filter shortestTwo.admits).Perm
      [lasting 10 "c", lasting 20 "b", lasting 30 "a"] := by decide
  exact selected_eq_of_sorted hperm (by decide)

/-- Of three records of one moment the one with the middle identifier is next to the last, and two
pages of two hold all three. Of three records of different durations, asked for upwards, the page of
two holds the shorter ones, and each of them took less time than those behind it. -/
theorem threeTied_tiles :
    (0 ≤ nextToLast.offset
      ∧ threeTied.query nextToLast = .ok [early "b" []]
      ∧ ∃ sorted : List Record,
        sorted.Perm threeTied.records
          ∧ (sorted.Pairwise fun a b => (nextToLast.place a).Lt (nextToLast.place b))
          ∧ threeTied.query nextToLast = .ok ((sorted.reverse.drop 1).take 1)
          ∧ ∃ ps, threeTied.pages nextToLast 2 2 = .ok ps ∧ ps.flatten = sorted.reverse)
      ∧ 0 ≤ shortestTwo.offset
      ∧ threeApart.query shortestTwo = .ok [lasting 10 "c", lasting 20 "b"]
      ∧ ∃ sorted : List Record,
        sorted.Perm threeApart.records
          ∧ (sorted.Pairwise fun a b =>
            a.duration < b.duration ∨ a.duration = b.duration ∧ a.id < b.id)
          ∧ threeApart.query shortestTwo = .ok (sorted.take 2)
          ∧ ∃ ps, threeApart.pages shortestTwo 2 2 = .ok ps ∧ ps.flatten = sorted := by
  refine ⟨?_, ?_⟩
  · have hoffset : 0 ≤ nextToLast.offset := by decide
    have hdown : nextToLast.isAscending = false := by decide
    have hall : threeTied.records.filter nextToLast.admits = threeTied.records := by decide
    have hcount : threeTied.count nextToLast = 3 := by decide
    have hmiddle : threeTied.query nextToLast = .ok [early "b" []] := by
      rw [query_eq hoffset, threeTied_selected]
      rfl
    obtain ⟨sorted, hperm, hstrict, hquery, -, -, hpages⟩ :=
      query_tiles threeTied nextToLast hoffset
    have hturned : nextToLast.turned sorted = sorted.reverse := by
      rw [Query.turned, hdown]
      rfl
    rw [hturned] at hquery hpages
    obtain ⟨ps, hps, -, hflatten⟩ := hpages 2 2 (by decide)
    exact ⟨hoffset, hmiddle, sorted, hall ▸ hperm, hstrict, hquery, ps, hps,
      hflatten (by rw [hcount]; decide)⟩
  · have hoffset : 0 ≤ shortestTwo.offset := by decide
    have hup : shortestTwo.isAscending = true :=
      Query.isAscending_iff.mpr ⟨'A', 'S', 'C', by decide, by decide, by decide, by decide⟩
    have hall : threeApart.records.filter shortestTwo.admits = threeApart.records := by decide
    have hcount : threeApart.count shortestTwo = 3 := by decide
    have hshorter : threeApart.query shortestTwo = .ok [lasting 10 "c", lasting 20 "b"] := by
      rw [query_eq hoffset, threeApart_selected]
      rfl
    obtain ⟨sorted, hperm, hstrict, hquery, -, -, hpages⟩ :=
      query_tiles threeApart shortestTwo hoffset
    have hturned : shortestTwo.turned sorted = sorted := by rw [Query.turned, if_pos hup]
    rw [hturned] at hquery hpages
    have hduration : shortestTwo.sortBy = Text.ofString "duration" := rfl
    simp only [Query.place_lt_iff, if_pos hduration] at hstrict
    obtain ⟨ps, hps, -, hflatten⟩ := hpages 2 2 (by decide)
    exact ⟨hoffset, hshorter, sorted, hall ▸ hperm, hstrict, hquery, ps, hps,
      hflatten (by rw [hcount]; decide)⟩

end Memory

end History

end MathMarkup
