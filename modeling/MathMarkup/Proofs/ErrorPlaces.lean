import MathMarkup.Failure.Report
import MathMarkup.Proofs.Parsing

/-!
# Where the syntax errors are

A syntax error names the bytes that are refused, the line and column of the first of them, and shows
the text from there on. That the bytes lie in the text is what every production of the grammar owes
(`parse_outcome`). This file is about the rest: what line and column say, why they say it of one
offset only, and what is shown.

The line of an offset is the text behind the last line feed before it, so both numbers come from one
cut of the text in front of the offset (`StandsAt`).
-/

namespace MathMarkup

open MathMarkup.Text (byte)
open MathMarkup.Grammar (lineAt columnAt)

variable {t : Text}

/-! ## Lines and columns -/

/-- An offset of a text stands on a line and in a column, both counted from one. The text before the
offset is cut behind its last line feed. -/
def StandsAt (t : Text) (offset : Nat) (line column : Int) : Prop :=
  ∃ before rest : Text, t.take offset = before ++ rest
    ∧ (before = [] ∨ before.getLast? = some (byte '\n')) ∧ byte '\n' ∉ rest
    ∧ line = before.count (byte '\n') + 1 ∧ column = rest.length + 1

/-- What is counted for the column ends at a line feed. -/
theorem takeWhile_line {before rest : Text}
    (hbefore : before = [] ∨ before.getLast? = some (byte '\n')) (hrest : byte '\n' ∉ rest) :
    (before ++ rest).reverse.takeWhile (· != byte '\n') = rest.reverse := by
  rw [List.reverse_append, List.takeWhile_append_of_pos]
  · rcases hbefore with rfl | hlast
    · simp
    · obtain ⟨init, rfl⟩ := List.getLast?_eq_some_iff.mp hlast
      simp
  · intro b hb
    have hb : b ∈ rest := List.mem_reverse.mp hb
    simp only [bne_iff_ne, ne_eq]
    rintro rfl
    exact hrest hb

/-- **Every offset stands on the line and in the column that are computed for it**, and on no
others. -/
theorem standsAt_iff {offset : Nat} {line column : Int} :
    StandsAt t offset line column ↔ line = lineAt t offset ∧ column = columnAt t offset := by
  constructor
  · rintro ⟨before, rest, hcut, hbefore, hrest, hline, hcolumn⟩
    have hzero : rest.count (byte '\n') = 0 := List.count_eq_zero.mpr hrest
    unfold lineAt columnAt
    rw [hcut, takeWhile_line hbefore hrest, List.count_append, hzero, List.length_reverse]
    exact ⟨hline, hcolumn⟩
  · rintro ⟨rfl, rfl⟩
    -- cut where the count of the column ends
    have hcut :=
      List.takeWhile_append_dropWhile (p := (· != byte '\n')) (l := (t.take offset).reverse)
    generalize hrest : (t.take offset).reverse.takeWhile (· != byte '\n') = rest at hcut
    generalize hbefore : (t.take offset).reverse.dropWhile (· != byte '\n') = before at hcut
    have hno : byte '\n' ∉ rest := by
      have hall := List.all_takeWhile (p := (· != byte '\n')) (l := (t.take offset).reverse)
      rw [hrest, List.all_eq_true] at hall
      intro hmem
      exact absurd (hall _ hmem) (by simp)
    have htake : t.take offset = before.reverse ++ rest.reverse := by
      rw [← List.reverse_append, hcut, List.reverse_reverse]
    refine ⟨before.reverse, rest.reverse, htake, ?_, by simpa using hno, ?_, ?_⟩
    · cases hhead : before.head? with
      | none =>
          rw [List.head?_eq_none_iff.mp hhead]
          exact Or.inl rfl
      | some b =>
          have hb := List.head?_dropWhile_not (· != byte '\n') (t.take offset).reverse
          rw [hbefore, hhead] at hb
          rw [List.getLast?_reverse, hhead]
          exact Or.inr (by simpa using hb)
    · have hzero : rest.reverse.count (byte '\n') = 0 :=
        List.count_eq_zero.mpr (by simpa using hno)
      unfold lineAt
      rw [htake, List.count_append, hzero]
      rfl
    · unfold columnAt
      rw [hrest, List.length_reverse]
      rfl

/-- On one line the column grows with the offset. -/
theorem columnAt_of_lineAt_eq {a b : Nat} (hab : a ≤ b) (hb : b ≤ t.length)
    (h : lineAt t a = lineAt t b) : columnAt t b = columnAt t a + (b - a) := by
  have hstands : StandsAt t a (lineAt t a) (columnAt t a) := standsAt_iff.mpr ⟨rfl, rfl⟩
  obtain ⟨before, rest, hcut, hbefore, hrest, _, hcolumn⟩ := hstands
  have htake : t.take b = t.take a ++ (t.drop a).take (b - a) := by
    rw [← List.take_append_drop a (t.take b), List.take_take, Nat.min_eq_left hab, List.drop_take]
  -- no line feed stands between two offsets of one line
  have hbetween : byte '\n' ∉ (t.drop a).take (b - a) := by
    unfold lineAt at h
    rw [htake, List.count_append] at h
    exact List.count_eq_zero.mp (by omega)
  have hrest' : byte '\n' ∉ rest ++ (t.drop a).take (b - a) := by
    intro hmem
    rcases List.mem_append.mp hmem with hmem | hmem
    · exact hrest hmem
    · exact hbetween hmem
  have hlen : ((t.drop a).take (b - a)).length = b - a := by
    rw [List.length_take, List.length_drop]
    omega
  have hcolumn' : columnAt t b = (rest ++ (t.drop a).take (b - a)).length + 1 := by
    unfold columnAt
    rw [htake, hcut, List.append_assoc, takeWhile_line hbefore hrest', List.length_reverse]
  rw [hcolumn', List.length_append, hlen]
  omega

/-- **Line and column determine the offset.** -/
theorem StandsAt.unique {a b : Nat} {line column : Int} (ha : StandsAt t a line column)
    (hb : StandsAt t b line column) (hat : a ≤ t.length) (hbt : b ≤ t.length) : a = b := by
  obtain ⟨hla, hca⟩ := standsAt_iff.mp ha
  obtain ⟨hlb, hcb⟩ := standsAt_iff.mp hb
  rcases Nat.le_total a b with hab | hba
  · have := columnAt_of_lineAt_eq hab hbt (by omega)
    omega
  · have := columnAt_of_lineAt_eq hba hat (by omega)
    omega

/-! ## What is shown -/

/-- The text that is shown begins with the refused bytes and ends `contextLength` bytes past the one
behind them, or with the text. -/
theorem SyntaxError.window_eq {e : SyntaxError} {start stop : Nat} (hstart : e.start = start)
    (hstop : e.stop = stop) :
    e.window t = t.slice start (min (stop + contextLength + 1) t.length) := by
  have hend : (if e.stop + contextLength + 1 > t.length then (t.length : Int)
      else e.stop + contextLength + 1)
      = (min (stop + contextLength + 1) t.length : Nat) := by
    rw [hstop]
    split <;> omega
  unfold window
  dsimp only
  rw [hend, hstart, if_neg (show ¬ (start : Int) < 0 by omega)]
  split
  · -- nothing is left to be shown
    unfold Text.slice
    rw [show min (stop + contextLength + 1) t.length - start = 0 by omega, List.take_zero]
  · rfl

/--
**A syntax error says where it is.** The refused bytes lie in the text; line and column are those of
the first of them and of no other offset; and the report shows the text from there on, to eleven
bytes past the refused ones or to its end.
-/
theorem error_located {limit : Nat} {e : SyntaxError}
    (h : Grammar.parse limit t = .error (.markup e)) :
    ∃ start stop : Nat, e.start = start ∧ e.stop = stop ∧ start ≤ stop ∧ stop ≤ t.length
      ∧ e.line = (t.take start).count (byte '\n') + 1
      ∧ StandsAt t start e.line e.column
      ∧ (∀ offset, offset ≤ t.length → StandsAt t offset e.line e.column → offset = start)
      ∧ ((StageError.markup e).report t).position = start
      ∧ ((StageError.markup e).report t).message
        = "Error: Unexpected token \"" ++ e.found ++ "\" at line " ++ Text.ofInt e.line
          ++ ", column " ++ Text.ofInt e.column ++ ", within context: "
          ++ t.slice start (min (stop + 11) t.length) := by
  have hplaced := Grammar.parse_outcome true limit t (by simp)
  rw [h] at hplaced
  obtain ⟨start, stop, hle, hlt, hstart, hstop, hline, hcolumn⟩ := hplaced
  have hstands : StandsAt t start e.line e.column := standsAt_iff.mpr ⟨hline, hcolumn⟩
  refine ⟨start, stop, hstart, hstop, hle, hlt, hline, hstands, ?_, hstart, ?_⟩
  · intro offset hoffset hother
    exact hother.unique hstands hoffset (Nat.le_trans hle hlt)
  · show e.reportMessage t = _
    unfold SyntaxError.reportMessage
    rw [SyntaxError.window_eq hstart hstop]
    rfl

/-- An environment of an unknown name on the second line, with a blank in the name. -/
def secondLine : Text := "x\n+\\begin\x7ba b\x7dc"

/-- It is refused from the name on, and found there by line and column alone. -/
theorem secondLine_located :
    ∃ e, Grammar.parse 256 secondLine = .error (.markup e) ∧ e.line = 2 ∧ e.column = 9
      ∧ (∀ offset, offset ≤ secondLine.length → StandsAt secondLine offset 2 9 → offset = 10)
      ∧ ((StageError.markup e).report secondLine).message
        = "Error: Unexpected token \"ab\" at line 2, column 9, within context: a b\x7dc" := by
  have hparse : Grammar.parse 256 secondLine = .error (.markup
      { Grammar.syntaxError secondLine 10 14 "ab" "unsupported environment \"ab\"" with
        suggestion := [] }) := rfl
  obtain ⟨start, stop, hstart, hstop, _, _, _, _, hunique, _, hmessage⟩ := error_located hparse
  obtain rfl : start = 10 := Int.ofNat.inj hstart.symm
  obtain rfl : stop = 14 := Int.ofNat.inj hstop.symm
  exact ⟨_, hparse, rfl, rfl, hunique, hmessage⟩

end MathMarkup
