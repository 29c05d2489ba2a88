import MathMarkup.Proofs.SinglePass

/-!
# The invocations of a command

The invocations that a text has are described by positions of the text as it is given: the name
stands at the first place for it behind the invocation before, and each argument goes from the first
brace behind the argument before to its partner (`Greedy`). What replaces them plays no part in
that.

`substitute_single_pass` says that replacing follows this description. It succeeds where every
invocation has all its arguments, and then the gaps between the invocations are kept; or it fails at
the first one that has not, for the reason that this one gives.

There is always such a description, as each invocation takes at least its name from the text
(`exists_greedy`). The run is computed along it (`substituteFrom_over`), so nothing needs to be
known about which descriptions a run excludes.
-/

namespace MathMarkup.Cleaning

variable {name t : Text} {n : Nat} {replace : List Text → Text}

/-! ## First places -/

/-- The first position at or after `pos` at which something holds. -/
def First (P : Nat → Prop) (pos i : Nat) : Prop :=
  pos ≤ i ∧ P i ∧ ∀ j, pos ≤ j → j < i → ¬ P j

/-- The name of a command stands at a position, and no letter follows it. -/
def CommandAt (name t : Text) (i : Nat) : Prop :=
  name <+: t.drop i ∧ ∀ b, t[i + name.length]? = some b → Text.isLetter b = false

/-- An opening brace stands at a position. -/
def BraceAt (t : Text) (i : Nat) : Prop := t[i]? = some Bracket.curly.opening

/-- The first place in the rest of a text is the first one in the text from there on. -/
theorem first_iff {P Q : Nat → Prop} {pos i : Nat} (hPQ : ∀ k, Q k ↔ P (pos + k)) :
    First P pos i ↔ ∃ k, (Q k ∧ ∀ j, j < k → ¬ Q j) ∧ pos + k = i := by
  constructor
  · rintro ⟨hle, hP, hfirst⟩
    refine ⟨i - pos, ⟨(hPQ _).mpr (by rwa [Nat.add_sub_cancel' hle]), fun j hj hQ => ?_⟩, by omega⟩
    exact hfirst (pos + j) (by omega) (by omega) ((hPQ j).mp hQ)
  · rintro ⟨k, ⟨hQ, hfirst⟩, rfl⟩
    refine ⟨Nat.le_add_right _ _, (hPQ k).mp hQ, fun j hj hjk hP => ?_⟩
    exact hfirst (j - pos) (by omega) ((hPQ _).mpr (by rwa [Nat.add_sub_cancel' hj]))

theorem commandAt_drop {pos i : Nat} :
    CommandAt name (t.drop pos) i ↔ CommandAt name t (pos + i) := by
  unfold CommandAt
  rw [List.drop_drop, List.getElem?_drop, Nat.add_assoc]

theorem commandAt_cons {b : UInt8} {i : Nat} :
    CommandAt name (b :: t) (i + 1) ↔ CommandAt name t i := by
  rw [Nat.add_comm, ← commandAt_drop]
  rfl

theorem commandAt_zero_iff {b : UInt8} :
    CommandAt name (b :: t) 0
      ↔ (name.isPrefixOf (b :: t)
        && !(((b :: t).drop name.length).head?.any Text.isLetter)) = true := by
  unfold CommandAt
  rw [Bool.and_eq_true, List.isPrefixOf_iff_prefix, List.drop_zero, List.head?_drop, Nat.zero_add]
  refine and_congr_right fun _ => ?_
  cases (b :: t)[name.length]? <;> simp

theorem not_commandAt_nil (hne : name ≠ []) (i : Nat) : ¬ CommandAt name [] i := by
  rintro ⟨hbegins, _⟩
  rw [List.drop_nil] at hbegins
  exact hne (List.prefix_nil.mp hbegins)

/-- The search for a name finds its first place. -/
theorem findCommand?_eq_some_iff (hne : name ≠ []) {i : Nat} :
    findCommand? name t = some i ↔ CommandAt name t i ∧ ∀ j, j < i → ¬ CommandAt name t j := by
  induction t generalizing i with
  | nil => simp [findCommand?, not_commandAt_nil hne]
  | cons b t ih =>
      rw [findCommand?]
      by_cases h0 : CommandAt name (b :: t) 0
      · rw [if_pos (commandAt_zero_iff.mp h0)]
        constructor
        · intro h
          obtain rfl := Option.some.inj h
          exact ⟨h0, fun j hj => absurd hj (Nat.not_lt_zero j)⟩
        · rintro ⟨_, hfirst⟩
          cases i with
          | zero => rfl
          | succ i => exact absurd h0 (hfirst 0 (Nat.succ_pos i))
      · rw [if_neg fun h => h0 (commandAt_zero_iff.mpr h), Option.map_eq_some_iff]
        constructor
        · rintro ⟨k, hk, rfl⟩
          obtain ⟨hat, hfirst⟩ := ih.mp hk
          refine ⟨commandAt_cons.mpr hat, fun j hj => ?_⟩
          cases j with
          | zero => exact h0
          | succ j => exact fun hat' => hfirst j (by omega) (commandAt_cons.mp hat')
        · rintro ⟨hat, hfirst⟩
          cases i with
          | zero => exact absurd hat h0
          | succ i =>
              refine ⟨i, ih.mpr ⟨commandAt_cons.mp hat, fun j hj hat' => ?_⟩, rfl⟩
              exact hfirst (j + 1) (by omega) (commandAt_cons.mpr hat')

theorem findCommand?_eq_none_iff (hne : name ≠ []) :
    findCommand? name t = none ↔ ∀ i, ¬ CommandAt name t i := by
  induction t with
  | nil => simp [findCommand?, not_commandAt_nil hne]
  | cons b t ih =>
      rw [findCommand?]
      by_cases h0 : CommandAt name (b :: t) 0
      · rw [if_pos (commandAt_zero_iff.mp h0)]
        exact ⟨fun h => absurd h (by simp), fun h => absurd h0 (h 0)⟩
      · rw [if_neg fun h => h0 (commandAt_zero_iff.mpr h), Option.map_eq_none_iff, ih]
        constructor
        · intro h i
          cases i with
          | zero => exact h0
          | succ i => exact fun hat => h i (commandAt_cons.mp hat)
        · exact fun h i hat => h (i + 1) (commandAt_cons.mpr hat)

theorem first_commandAt_iff (hne : name ≠ []) {pos i : Nat} :
    First (CommandAt name t) pos i
      ↔ ∃ k, findCommand? name (t.drop pos) = some k ∧ pos + k = i := by
  simp only [findCommand?_eq_some_iff hne]
  exact first_iff fun _ => commandAt_drop

theorem findByte?_eq_some_iff {x : UInt8} {i : Nat} :
    t.findByte? x = some i ↔ t[i]? = some x ∧ ∀ j, j < i → t[j]? ≠ some x := by
  unfold Text.findByte?
  rw [List.findIdx?_eq_some_iff_getElem]
  constructor
  · rintro ⟨hi, hx, hfirst⟩
    refine ⟨by rw [List.getElem?_eq_getElem hi, eq_of_beq hx], fun j hj hxj => ?_⟩
    rw [List.getElem?_eq_getElem (Nat.lt_trans hj hi)] at hxj
    exact hfirst j hj (beq_iff_eq.mpr (Option.some.inj hxj))
  · rintro ⟨hx, hfirst⟩
    obtain ⟨hi, hx⟩ := List.getElem?_eq_some_iff.mp hx
    refine ⟨hi, beq_iff_eq.mpr hx, fun j hj hxj => hfirst j hj ?_⟩
    rw [List.getElem?_eq_getElem (Nat.lt_trans hj hi), eq_of_beq hxj]

theorem findByte?_eq_none_iff {x : UInt8} : t.findByte? x = none ↔ ∀ i : Nat, t[i]? ≠ some x := by
  unfold Text.findByte?
  rw [List.findIdx?_eq_none_iff]
  constructor
  · intro h i hi
    exact absurd (h x (List.mem_of_getElem? hi)) (by simp)
  · intro h b hb
    obtain ⟨i, hi⟩ := List.mem_iff_getElem?.mp hb
    exact beq_eq_false_iff_ne.mpr fun hbx => h i (hbx ▸ hi)

theorem braceAt_drop {pos i : Nat} : BraceAt (t.drop pos) i ↔ BraceAt t (pos + i) := by
  unfold BraceAt
  rw [List.getElem?_drop]

theorem first_braceAt_iff {pos i : Nat} :
    First (BraceAt t) pos i
      ↔ ∃ k, Text.findByte? Bracket.curly.opening (t.drop pos) = some k ∧ pos + k = i := by
  simp only [findByte?_eq_some_iff]
  exact first_iff fun _ => braceAt_drop

/-- A search in the rest of a text finds nothing. -/
theorem none_from_iff {P Q : Nat → Prop} {pos : Nat} (hPQ : ∀ k, Q k ↔ P (pos + k)) :
    (∀ k, ¬ Q k) ↔ ∀ i, pos ≤ i → ¬ P i := by
  constructor
  · intro h i hi hP
    exact h (i - pos) ((hPQ _).mpr (by rwa [Nat.add_sub_cancel' hi]))
  · exact fun h k hQ => h (pos + k) (Nat.le_add_right _ _) ((hPQ k).mp hQ)

/-! ## Invocations -/

/-- The brace that opens at `first` is closed at `last`. -/
def ClosedAt (t : Text) (first last : Nat) : Prop := Bracket.FirstSurplus .curly t first last

/-- The brace that opens at `first` is not closed. -/
def NeverClosed (t : Text) (first : Nat) : Prop := Bracket.StaysOpen .curly 0 (t.drop (first + 1))

/-- The braces of arguments, one after the other from a position on, and the position behind
them. -/
inductive Braces (t : Text) : Nat → List (Nat × Nat) → Nat → Prop where
  | nil (pos : Nat) : Braces t pos [] pos
  | cons {pos first last behind : Nat} {more : List (Nat × Nat)} :
      First (BraceAt t) pos first → ClosedAt t first last → Braces t (last + 1) more behind →
      Braces t pos ((first, last) :: more) behind

/-- The texts in pairs of braces. -/
def contents (t : Text) (braces : List (Nat × Nat)) : List Text :=
  braces.map fun b => t.slice (b.1 + 1) b.2

/-- A command with its arguments: where its name stands, where the braces of its arguments stand,
and where it ends. -/
structure Invocation where
  start : Nat
  braces : List (Nat × Nat)
  stop : Nat

/-- The invocations of a command with `n` arguments, one after the other from a position on, and the
position behind them. -/
inductive Greedy (name : Text) (n : Nat) (t : Text) : Nat → List Invocation → Nat → Prop where
  | nil (pos : Nat) : Greedy name n t pos [] pos
  | cons {pos behind : Nat} {v : Invocation} {more : List Invocation} :
      First (CommandAt name t) pos v.start →
      Braces t (v.start + name.length) v.braces v.stop → v.braces.length = n →
      Greedy name n t v.stop more behind → Greedy name n t pos (v :: more) behind

/-- What is written for the text from a position to the end of the last invocation. -/
def written (replace : List Text → Text) (t : Text) : Nat → List Invocation → Text
  | _, [] => []
  | pos, v :: more =>
    t.slice pos v.start ++ replace (contents t v.braces) ++ written replace t v.stop more

/-- No invocation begins at a position or behind it. -/
def NoneFrom (name t : Text) (pos : Nat) : Prop := ∀ i, pos ≤ i → ¬ CommandAt name t i

/-- No brace opens at a position or behind it. -/
def NoBraceFrom (t : Text) (pos : Nat) : Prop := ∀ i, pos ≤ i → ¬ BraceAt t i

/-- The first command from `pos` on has only the arguments in these braces, fewer than `n`. The
search for the next one begins at `behind`. -/
structure Defective (name : Text) (n : Nat) (t : Text) (pos start : Nat)
    (braces : List (Nat × Nat)) (behind : Nat) : Prop where
  next : First (CommandAt name t) pos start
  arguments : Braces t (start + name.length) braces behind
  few : braces.length < n

theorem ClosedAt.lt_length {first last : Nat} (h : ClosedAt t first last) :
    first < last ∧ last < t.length := by
  obtain ⟨j, hj, rfl⟩ := Bracket.firstSurplus_iff.mp h
  have hlast := Bracket.closeOffset?_getElem hj
  rw [List.getElem?_drop] at hlast
  exact ⟨by omega, (List.getElem?_eq_some_iff.mp hlast).1⟩

/-- A brace is closed somewhere or never. -/
theorem closedAt_or_neverClosed (t : Text) (first : Nat) :
    (∃ last, ClosedAt t first last) ∨ NeverClosed t first := by
  cases hj : Bracket.closeOffset? .curly 0 (t.drop (first + 1)) with
  | none => exact Or.inr (Bracket.closeOffset?_eq_none_iff.mp hj)
  | some j => exact Or.inl ⟨_, Bracket.firstSurplus_iff.mpr ⟨j, hj, rfl⟩⟩

theorem Braces.le {pos behind : Nat} {braces : List (Nat × Nat)} (h : Braces t pos braces behind) :
    pos ≤ behind := by
  induction h with
  | nil => exact Nat.le_refl _
  | cons hfirst hlast _ ih =>
      have h1 := hfirst.1
      have h2 := hlast.lt_length.1
      omega

theorem Braces.le_length {pos behind : Nat} {braces : List (Nat × Nat)}
    (h : Braces t pos braces behind) (hpos : pos ≤ t.length) : behind ≤ t.length := by
  induction h with
  | nil => exact hpos
  | cons _ hlast _ ih => exact ih hlast.lt_length.2

theorem CommandAt.le_length {i : Nat} (h : CommandAt name t i) (hne : name ≠ []) :
    i + name.length ≤ t.length := by
  have hle := h.1.length_le
  have hpos : name.length ≠ 0 := fun h0 => hne (List.length_eq_zero_iff.mp h0)
  rw [List.length_drop] at hle
  omega

theorem Greedy.le_length {pos behind : Nat} {vs : List Invocation}
    (h : Greedy name n t pos vs behind) (hne : name ≠ []) (hpos : pos ≤ t.length) :
    behind ≤ t.length := by
  induction h with
  | nil => exact hpos
  | cons hnext hbraces _ _ ih => exact ih (hbraces.le_length (hnext.2.1.le_length hne))

/-- Each invocation takes at least one byte of the text. -/
theorem Greedy.length_le {pos behind : Nat} {vs : List Invocation}
    (h : Greedy name n t pos vs behind) (hne : name ≠ []) : pos + vs.length ≤ behind := by
  have hpos : name.length ≠ 0 := fun h0 => hne (List.length_eq_zero_iff.mp h0)
  induction h with
  | nil => exact Nat.le_refl _
  | cons hnext hbraces _ _ ih =>
      have h1 := hnext.1
      have h2 := hbraces.le
      rw [List.length_cons]
      omega

/-! ## There is always a description -/

/-- The arguments that are there, and what is wrong with the next one if they are fewer than `n`. -/
theorem exists_braces (t : Text) (n pos : Nat) :
    ∃ braces behind, Braces t pos braces behind
      ∧ (braces.length = n
        ∨ braces.length < n
          ∧ (NoBraceFrom t behind
            ∨ ∃ first, First (BraceAt t) behind first ∧ NeverClosed t first)) := by
  induction n generalizing pos with
  | zero => exact ⟨[], pos, .nil pos, Or.inl rfl⟩
  | succ n ih =>
      cases hi : Text.findByte? Bracket.curly.opening (t.drop pos) with
      | none =>
          have hnone : NoBraceFrom t pos :=
            (none_from_iff fun _ => braceAt_drop).mp (findByte?_eq_none_iff.mp hi)
          exact ⟨[], pos, .nil pos, Or.inr ⟨Nat.succ_pos n, Or.inl hnone⟩⟩
      | some i =>
          have hfirst : First (BraceAt t) pos (pos + i) := first_braceAt_iff.mpr ⟨i, hi, rfl⟩
          rcases closedAt_or_neverClosed t (pos + i) with ⟨last, hlast⟩ | hnever
          · obtain ⟨braces, behind, hbraces, hcount⟩ := ih (last + 1)
            refine ⟨(pos + i, last) :: braces, behind, .cons hfirst hlast hbraces, ?_⟩
            rw [List.length_cons]
            rcases hcount with hall | ⟨hfew, hwhy⟩
            · exact Or.inl (by omega)
            · exact Or.inr ⟨by omega, hwhy⟩
          · exact ⟨[], pos, .nil pos, Or.inr ⟨Nat.succ_pos n, Or.inr ⟨_, hfirst, hnever⟩⟩⟩

/-- **Every text has its invocations up to the last one, or up to one that lacks an argument.** -/
theorem exists_greedy (hne : name ≠ []) (n : Nat) (t : Text) {pos : Nat} (hpos : pos ≤ t.length) :
    ∃ vs behind, Greedy name n t pos vs behind
      ∧ (NoneFrom name t behind
        ∨ ∃ start braces last, Defective name n t behind start braces last
          ∧ (NoBraceFrom t last
            ∨ ∃ first, First (BraceAt t) last first ∧ NeverClosed t first)) := by
  -- on what is unread, which every invocation makes shorter
  induction hleft : t.length - pos using Nat.strongRecOn generalizing pos with
  | ind left ih =>
      cases hk : findCommand? name (t.drop pos) with
      | none =>
          have hnone : NoneFrom name t pos := (none_from_iff fun _ => commandAt_drop).mp
            ((findCommand?_eq_none_iff hne).mp hk)
          exact ⟨[], pos, .nil pos, Or.inl hnone⟩
      | some k =>
          have hnext : First (CommandAt name t) pos (pos + k) :=
            (first_commandAt_iff hne).mpr ⟨k, hk, rfl⟩
          have hname : name.length ≠ 0 := fun h0 => hne (List.length_eq_zero_iff.mp h0)
          have hstart := hnext.2.1.le_length hne
          obtain ⟨braces, stop, hbraces, hcount⟩ := exists_braces t n (pos + k + name.length)
          have hle := hbraces.le
          have hstop := hbraces.le_length hstart
          rcases hcount with hall | ⟨hfew, hwhy⟩
          · obtain ⟨vs, behind, hvs, hend⟩ := ih (t.length - stop) (by omega) hstop rfl
            exact ⟨⟨pos + k, braces, stop⟩ :: vs, behind, .cons hnext hbraces hall hvs, hend⟩
          · exact ⟨[], pos, .nil pos, Or.inr ⟨_, _, _, ⟨hnext, hbraces, hfew⟩, hwhy⟩⟩

/-! ## The pass goes along it -/

/-- One argument: the search finds its first brace, and the scan its last one. -/
theorem readArguments_closed {k offset pos first last : Nat} (h : First (BraceAt t) pos first)
    (hlast : ClosedAt t first last) :
    readArguments k (n + 1) offset (t.drop pos)
      = (readArguments (k + 1) n (offset + (last + 1 - pos)) (t.drop (last + 1))).map fun more =>
          ⟨t.slice (first + 1) last :: more.contents, more.rest, more.stop⟩ := by
  obtain ⟨i, hi, rfl⟩ := first_braceAt_iff.mp h
  obtain ⟨j, hj, rfl⟩ := Bracket.firstSurplus_iff.mp hlast
  have hbody : (t.drop pos).drop (i + 1) = t.drop (pos + i + 1) := List.drop_drop
  rw [readArguments, hi]
  dsimp only
  rw [hbody, hj]
  dsimp only
  rw [List.drop_drop, show pos + i + 1 + (j + 1) = pos + i + 1 + j + 1 by omega,
    show offset + (pos + i + 1 + j + 1 - pos) = offset + i + j + 2 by omega, Bracket.slice_add]
  cases readArguments (k + 1) n (offset + i + j + 2) (t.drop (pos + i + 1 + j + 1)) <;> rfl

/-- An argument that is not closed is the end of reading. -/
theorem readArguments_neverClosed {k offset pos first : Nat} (h : First (BraceAt t) pos first)
    (hnever : NeverClosed t first) :
    readArguments k (n + 1) offset (t.drop pos)
      = .error (.unclosed (offset + (first - pos)) (t.drop first)) := by
  obtain ⟨i, hi, rfl⟩ := first_braceAt_iff.mp h
  have hbody : (t.drop pos).drop (i + 1) = t.drop (pos + i + 1) := List.drop_drop
  rw [readArguments, hi]
  dsimp only
  rw [hbody, Bracket.closeOffset?_eq_none_iff.mpr hnever, List.drop_drop, Nat.add_sub_cancel_left]

/-- Reading arguments goes over those that are there. -/
theorem readArguments_over {pos behind : Nat} {braces : List (Nat × Nat)}
    (h : Braces t pos braces behind) (k m offset : Nat) :
    readArguments k (braces.length + m) offset (t.drop pos)
      = (readArguments (k + braces.length) m (offset + (behind - pos)) (t.drop behind)).map
          fun more => ⟨contents t braces ++ more.contents, more.rest, more.stop⟩ := by
  induction h generalizing k offset with
  | nil pos =>
      rw [Nat.sub_self, List.length_nil, Nat.zero_add]
      show _ = (readArguments k m offset (t.drop pos)).map fun more => more
      cases readArguments k m offset (t.drop pos) <;> rfl
  | @cons pos first last behind more hfirst hlast hmore ih =>
      have h1 := hfirst.1
      have h2 := hlast.lt_length.1
      have h3 := hmore.le
      rw [List.length_cons, Nat.add_right_comm, readArguments_closed hfirst hlast, ih,
        show k + 1 + more.length = k + (more.length + 1) by omega,
        show offset + (last + 1 - pos) + (behind - (last + 1)) = offset + (behind - pos) by omega]
      cases readArguments (k + (more.length + 1)) m (offset + (behind - pos)) (t.drop behind)
        <;> rfl

/-- The pass finds the next command, reads its arguments and writes the replacement. -/
theorem substituteFrom_replaces (hne : name ≠ []) {pos start : Nat} {w : Text} {args : Arguments}
    (h : First (CommandAt name t) pos start)
    (hargs : readArguments 1 n (w.length + (start - pos) + name.length)
      (t.drop (start + name.length)) = .ok args) (bound : Nat) :
    substituteFrom name n replace (bound + 1) w (t.drop pos)
      = substituteFrom name n replace bound (w ++ t.slice pos start ++ replace args.contents)
          args.rest := by
  obtain ⟨i, hi, rfl⟩ := (first_commandAt_iff hne).mp h
  rw [Nat.add_sub_cancel_left] at hargs
  have hdrop : ((t.drop pos).drop i).drop name.length = t.drop (pos + i + name.length) := by
    rw [List.drop_drop, List.drop_drop, Nat.add_assoc]
  simp only [substituteFrom, hi, hdrop, hargs, Bracket.slice_add]

/-- The pass stops at a command that lacks an argument. -/
theorem substituteFrom_stops (hne : name ≠ []) {pos start : Nat} {w : Text} {d : Defect}
    (h : First (CommandAt name t) pos start)
    (hargs : readArguments 1 n (w.length + (start - pos) + name.length)
      (t.drop (start + name.length)) = .error d) (bound : Nat) :
    substituteFrom name n replace (bound + 1) w (t.drop pos)
      = .error (d.toError name (w.length + (start - pos)) (t.drop start)) := by
  obtain ⟨i, hi, rfl⟩ := (first_commandAt_iff hne).mp h
  rw [Nat.add_sub_cancel_left] at hargs
  have hcommand : (t.drop pos).drop i = t.drop (pos + i) := List.drop_drop
  have hdrop : (t.drop (pos + i)).drop name.length = t.drop (pos + i + name.length) :=
    List.drop_drop
  simp only [substituteFrom, hi, hcommand, hdrop, hargs, Nat.add_sub_cancel_left]

/-- **The pass goes over the invocations that have all their arguments**, keeps the gaps and writes
the replacements. -/
theorem substituteFrom_over (hne : name ≠ []) {pos behind : Nat} {vs : List Invocation}
    (h : Greedy name n t pos vs behind) (bound : Nat) (w : Text) :
    substituteFrom name n replace (bound + vs.length) w (t.drop pos)
      = substituteFrom name n replace bound (w ++ written replace t pos vs) (t.drop behind) := by
  induction h generalizing w with
  | nil pos => simp [written]
  | @cons pos behind v more hnext hbraces hcount _ ih =>
      have hread := readArguments_over hbraces 1 0 (w.length + (v.start - pos) + name.length)
      rw [Nat.add_zero, hcount] at hread
      dsimp only [readArguments, Except.map] at hread
      rw [List.length_cons, ← Nat.add_assoc, substituteFrom_replaces hne hnext hread, ih, written,
        List.append_nil, List.append_assoc, List.append_assoc, List.append_assoc]

/-- Where no invocation is left the rest is kept. -/
theorem substituteFrom_end (hne : name ≠ []) {pos : Nat} (h : NoneFrom name t pos) (bound : Nat)
    (w : Text) : substituteFrom name n replace bound w (t.drop pos) = .ok (w ++ t.drop pos) := by
  have hnone : findCommand? name (t.drop pos) = none :=
    (findCommand?_eq_none_iff hne).mpr ((none_from_iff fun _ => commandAt_drop).mpr h)
  cases bound with
  | zero => rfl
  | succ bound => rw [substituteFrom, hnone]

/-- What is shown of a text that has been written up to a position is what the text shows there. -/
theorem contextAt_written (w : Text) {pos i : Nat} (h : pos ≤ i) :
    contextAt (w ++ t.drop pos) ↑(w.length + (i - pos)) = (t.drop i).take contextLength := by
  unfold contextAt
  rw [if_neg (by omega), Int.toNat_natCast, List.drop_length_add_append, List.drop_drop,
    Nat.add_sub_cancel' h]

/-- At least one argument is left to be read. -/
theorem Defective.exists_more {pos start behind : Nat} {braces : List (Nat × Nat)}
    (h : Defective name n t pos start braces behind) : ∃ m, n = braces.length + (m + 1) := by
  have hfew := h.few
  exact ⟨n - braces.length - 1, by omega⟩

/-- At a command with no brace for the next argument the pass stops. -/
theorem substituteFrom_lacking (hne : name ≠ []) {pos start behind : Nat}
    {braces : List (Nat × Nat)} (h : Defective name n t pos start braces behind)
    (hnone : NoBraceFrom t behind) (bound : Nat) (w : Text) :
    substituteFrom name n replace (bound + 1) w (t.drop pos)
      = .error (.cleaning (CleaningError.atCommand (w ++ t.drop pos) name ↑(braces.length + 1)
          ↑(w.length + (start - pos)))) := by
  obtain ⟨m, rfl⟩ := h.exists_more
  have hbrace : Text.findByte? Bracket.curly.opening (t.drop behind) = none :=
    findByte?_eq_none_iff.mpr ((none_from_iff fun _ => braceAt_drop).mpr hnone)
  have hread := readArguments_over h.arguments 1 (m + 1) (w.length + (start - pos) + name.length)
  rw [readArguments, hbrace] at hread
  rw [substituteFrom_stops hne h.next hread, CleaningError.atCommand, contextAt_written w h.next.1,
    Nat.add_comm braces.length 1]
  rfl

/-- At a command with a brace that is not closed the pass stops. -/
theorem substituteFrom_unclosed (hne : name ≠ []) {pos start behind first : Nat}
    {braces : List (Nat × Nat)} (h : Defective name n t pos start braces behind)
    (hfirst : First (BraceAt t) behind first) (hnever : NeverClosed t first) (bound : Nat)
    (w : Text) :
    substituteFrom name n replace (bound + 1) w (t.drop pos)
      = .error (.delimiter (Bracket.unbalanced (w ++ t.drop pos) ↑(w.length + (first - pos)))) := by
  obtain ⟨m, rfl⟩ := h.exists_more
  have h1 := h.next.1
  have h2 := h.arguments.le
  have h3 := hfirst.1
  have hread := readArguments_over h.arguments 1 (m + 1) (w.length + (start - pos) + name.length)
  rw [readArguments_neverClosed hfirst hnever] at hread
  rw [substituteFrom_stops hne h.next hread, Bracket.unbalanced, contextAt_written w (by omega),
    show w.length + (first - pos)
      = w.length + (start - pos) + name.length + (behind - (start + name.length)) + (first - behind)
    by omega]
  rfl

/-! ## Replacing -/

theorem CommandName.ne_nil (h : CommandName name) : name ≠ [] := by
  obtain ⟨letters, rfl, _⟩ := h
  exact List.cons_ne_nil _ _

/-- Editing goes over the invocations that have all their arguments, if its bound is longer than the
text. -/
theorem editFrom_over (hname : CommandName name) (replace : List Text → Text) {pos : Nat}
    {vs : List Invocation} (h : Greedy name n t 0 vs pos) {bound : Nat}
    (hbound : t.length < bound) : ∃ m, editFrom name n replace bound t 0
      = substituteFrom name n replace (m + 1) (written replace t 0 vs) (t.drop pos) := by
  have hle := h.length_le hname.ne_nil
  have hpos := h.le_length hname.ne_nil (Nat.zero_le _)
  refine ⟨bound - vs.length - 1, ?_⟩
  have hleft : bound - vs.length - 1 + 1 + vs.length = bound := by omega
  calc editFrom name n replace bound t 0
      = substituteFrom name n replace bound [] t := editFrom_eq hname bound [] t
    _ = substituteFrom name n replace (bound - vs.length - 1 + 1 + vs.length) [] t := by rw [hleft]
    _ = _ := substituteFrom_over hname.ne_nil h _ []

/-- The text with its invocations up to a position replaced. -/
def edited (replace : List Text → Text) (t : Text) (vs : List Invocation) (pos : Nat) : Text :=
  written replace t 0 vs ++ t.drop pos

/-- Where a position of what is left stands once the invocations before it are replaced. -/
def movedTo (replace : List Text → Text) (t : Text) (vs : List Invocation) (pos i : Nat) : Nat :=
  (written replace t 0 vs).length + (i - pos)

/-- How replacing ends. -/
inductive Ending (name : Text) (n : Nat) (replace : List Text → Text) (t : Text) :
    Except StageError Text → Prop where
  /-- All invocations are replaced. -/
  | replaced {vs : List Invocation} {pos : Nat} :
      Greedy name n t 0 vs pos → NoneFrom name t pos →
      Ending name n replace t (.ok (edited replace t vs pos))
  /-- There is no brace for an argument of the first invocation that lacks one. -/
  | missing {vs : List Invocation} {pos start behind : Nat} {braces : List (Nat × Nat)} :
      Greedy name n t 0 vs pos → Defective name n t pos start braces behind →
      NoBraceFrom t behind →
      Ending name n replace t (.error (.cleaning (CleaningError.atCommand
        (edited replace t vs pos) name ↑(braces.length + 1) ↑(movedTo replace t vs pos start))))
  /-- The brace for that argument is not closed. -/
  | unclosed {vs : List Invocation} {pos start behind first : Nat} {braces : List (Nat × Nat)} :
      Greedy name n t 0 vs pos → Defective name n t pos start braces behind →
      First (BraceAt t) behind first → NeverClosed t first →
      Ending name n replace t (.error (.delimiter (Bracket.unbalanced
        (edited replace t vs pos) ↑(movedTo replace t vs pos first))))

/-- Replacing ends in one of these ways. -/
theorem exists_ending (hname : CommandName name) (n : Nat) (replace : List Text → Text) (t : Text) :
    ∃ r, Ending name n replace t r := by
  obtain ⟨vs, pos, hvs, hend⟩ := exists_greedy hname.ne_nil n t (Nat.zero_le t.length)
  rcases hend with hnone | ⟨start, braces, behind, hdefective, hnone | ⟨first, hfirst, hnever⟩⟩
  · exact ⟨_, .replaced hvs hnone⟩
  · exact ⟨_, .missing hvs hdefective hnone⟩
  · exact ⟨_, .unclosed hvs hdefective hfirst hnever⟩

/-- This is the end of editing, and any bound that is longer than the text is enough. -/
theorem Ending.editFrom_eq (hname : CommandName name) {r : Except StageError Text}
    (h : Ending name n replace t r) {bound : Nat} (hbound : t.length < bound) :
    editFrom name n replace bound t 0 = r := by
  have hne := hname.ne_nil
  cases h with
  | replaced hvs hnone =>
      obtain ⟨m, hm⟩ := editFrom_over hname replace hvs hbound
      rw [hm, substituteFrom_end hne hnone]
      rfl
  | missing hvs hdefective hnone =>
      obtain ⟨m, hm⟩ := editFrom_over hname replace hvs hbound
      rw [hm, substituteFrom_lacking hne hdefective hnone]
      rfl
  | unclosed hvs hdefective hfirst hnever =>
      obtain ⟨m, hm⟩ := editFrom_over hname replace hvs hbound
      rw [hm, substituteFrom_unclosed hne hdefective hfirst hnever]
      rfl

/-- Replacing ends in one way only. -/
theorem substitute_eq_iff (hname : CommandName name) {r : Except StageError Text} :
    substitute name n replace t = r ↔ Ending name n replace t r := by
  constructor
  · rintro rfl
    obtain ⟨r, hr⟩ := exists_ending hname n replace t
    have heq : substitute name n replace t = r := hr.editFrom_eq hname (Nat.lt_succ_self _)
    rwa [heq]
  · exact fun h => h.editFrom_eq hname (Nat.lt_succ_self _)

/--
**Replacing a command is one pass over the text from left to right.** It succeeds if every
invocation, taken one after the other, has all its arguments, and the text in between is kept.
Otherwise it fails at the first invocation that lacks an argument: for want of a brace with the
number of that argument, or because the brace is not closed. The invocations are those of the given
text, so a replacement is never looked into; and they are fewer than the bytes of the text, so the
edits come to an end by themselves.
-/
theorem substitute_single_pass (hname : CommandName name) (n : Nat) (replace : List Text → Text)
    (t : Text) :
    (∀ u, substitute name n replace t = .ok u
        ↔ ∃ vs pos, Greedy name n t 0 vs pos ∧ NoneFrom name t pos ∧ u = edited replace t vs pos)
      ∧ (∀ e, substitute name n replace t = .error (.cleaning e)
        ↔ ∃ vs pos start braces behind, Greedy name n t 0 vs pos
          ∧ Defective name n t pos start braces behind ∧ NoBraceFrom t behind
          ∧ e = CleaningError.atCommand (edited replace t vs pos) name ↑(braces.length + 1)
            ↑(movedTo replace t vs pos start))
      ∧ (∀ e, substitute name n replace t = .error (.delimiter e)
        ↔ ∃ vs pos start braces behind first, Greedy name n t 0 vs pos
          ∧ Defective name n t pos start braces behind ∧ First (BraceAt t) behind first
          ∧ NeverClosed t first
          ∧ e = Bracket.unbalanced (edited replace t vs pos) ↑(movedTo replace t vs pos first))
      ∧ (∀ e, substitute name n replace t = .error e →
        (∃ c, e = .cleaning c) ∨ ∃ d, e = .delimiter d)
      ∧ (∀ vs pos, Greedy name n t 0 vs pos → vs.length ≤ pos ∧ pos ≤ t.length)
      ∧ ∀ bound, t.length < bound →
        editFrom name n replace bound t 0 = substitute name n replace t := by
  refine ⟨fun u => ?_, fun e => ?_, fun e => ?_, fun e he => ?_, fun vs pos h => ?_,
    fun bound hbound => ?_⟩
  · rw [substitute_eq_iff hname]
    constructor
    · rintro ⟨hvs, hnone⟩
      exact ⟨_, _, hvs, hnone, rfl⟩
    · rintro ⟨vs, pos, hvs, hnone, rfl⟩
      exact .replaced hvs hnone
  · rw [substitute_eq_iff hname]
    constructor
    · intro h
      cases h with
      | missing hvs hdefective hnone => exact ⟨_, _, _, _, _, hvs, hdefective, hnone, rfl⟩
    · rintro ⟨vs, pos, start, braces, behind, hvs, hdefective, hnone, rfl⟩
      exact .missing hvs hdefective hnone
  · rw [substitute_eq_iff hname]
    constructor
    · intro h
      cases h with
      | unclosed hvs hdefective hfirst hnever =>
          exact ⟨_, _, _, _, _, _, hvs, hdefective, hfirst, hnever, rfl⟩
    · rintro ⟨vs, pos, start, braces, behind, first, hvs, hdefective, hfirst, hnever, rfl⟩
      exact .unclosed hvs hdefective hfirst hnever
  · cases (substitute_eq_iff hname).mp he with
    | missing => exact Or.inl ⟨_, rfl⟩
    | unclosed => exact Or.inr ⟨_, rfl⟩
  · have hle := h.length_le hname.ne_nil
    exact ⟨by omega, h.le_length hname.ne_nil (Nat.zero_le _)⟩
  · exact ((substitute_eq_iff hname).mp rfl).editFrom_eq hname hbound

/-- An argument that is an invocation itself, and a longer name behind it. -/
def nestedColor : Text :=
  "x\\textcolor\x7ba\x7d\x7b\\textcolor\x7bb\x7d\x7bc\x7d\x7d\\textcolorful\x7by\x7d"

/-- The argument is kept as it stands, and is no invocation of the text. -/
theorem nestedColor_single_pass :
    substitute "\\textcolor" 2 (fun args => args.getD 1 []) nestedColor
        = .ok "x\\textcolor\x7bb\x7d\x7bc\x7d\\textcolorful\x7by\x7d"
      ∧ ∃ vs pos, Greedy "\\textcolor" 2 nestedColor 0 vs pos
        ∧ NoneFrom "\\textcolor" nestedColor pos
        ∧ ("x\\textcolor\x7bb\x7d\x7bc\x7d\\textcolorful\x7by\x7d" : Text)
          = edited (fun args => args.getD 1 []) nestedColor vs pos := by
  have hrun : substitute "\\textcolor" 2 (fun args => args.getD 1 []) nestedColor
      = .ok "x\\textcolor\x7bb\x7d\x7bc\x7d\\textcolorful\x7by\x7d" := rfl
  have hname : CommandName "\\textcolor" := ⟨"textcolor", rfl, List.all_eq_true.mp (by decide)⟩
  exact ⟨hrun, ((substitute_single_pass hname 2 _ nestedColor).1 _).mp hrun⟩

end MathMarkup.Cleaning
