import MathMarkup.Proofs.Cleaning
import MathMarkup.Proofs.Invocations

/-!
# The text at which cleaning stops

A rule that fails has replaced some invocations already, and the rules and the passes before it have
edited the text as well. So a failure is about none of the texts that a caller has seen: it is about
the text as it stands when cleaning stops (`stopClean`). Its position is one of that text, and what
it shows is what stands there (`stopClean_failsAt`).

The text still comes from the source by edits, and every backslash and every brace of it is one of
the source (`stopClean_derived`), since rules put in operators and blanks only.
-/

namespace MathMarkup.Cleaning

open MathMarkup.Text (byte)

variable {source name t : Text} {n : Nat} {xs ys : List Mark}

/-! ## What rules put in -/

/-- A byte that rules may put in: neither a backslash nor a brace. -/
def Filler (b : UInt8) : Prop := b ≠ byte '\\' ∧ b ≠ Bracket.curly.opening

instance (b : UInt8) : Decidable (Filler b) := inferInstanceAs (Decidable (_ ∧ _))

/-- Everything that rules have put in is filler. -/
def Filled (xs : List Mark) : Prop := ∀ x ∈ xs, x.origin = none → Filler x.byte

theorem Filled.subset (h : Filled xs) (hsub : ys ⊆ xs) : Filled ys := fun y hy => h y (hsub hy)

theorem Filled.append (hx : Filled xs) (hy : Filled ys) : Filled (xs ++ ys) := fun z hz =>
  (List.mem_append.mp hz).elim (hx z) (hy z)

theorem filled_put {out : Text} (h : ∀ b ∈ out, Filler b) : Filled (put out) := by
  intro x hx _
  obtain ⟨b, hb, rfl⟩ := List.mem_map.mp hx
  exact h b hb

theorem filled_marked (source : Text) : Filled (marked source) := by
  intro x hx hnone
  obtain ⟨p, -, rfl⟩ := List.mem_map.mp hx
  exact absurd hnone (by simp)

theorem Filled.replaceFrom {find : Text → Option (Nat × Text)}
    (hfind : ∀ t w out, find t = some (w, out) → ∀ b ∈ out, Filler b) (h : Filled xs) (k : Nat) :
    Filled (traceReplaceFrom find k xs) := by
  induction xs generalizing k with
  | nil => cases k <;> exact h
  | cons x xs ih =>
      have hrest : Filled xs := h.subset (List.subset_cons_self x xs)
      cases k with
      | succ k => exact ih hrest k
      | zero =>
          rw [traceReplaceFrom]
          split
          · rename_i w out hout
            exact (filled_put (hfind _ _ _ hout)).append (ih hrest w)
          · exact List.forall_mem_cons.mpr ⟨h x List.mem_cons_self, ih hrest 0⟩

/-- The words of a list are replaced by its texts. -/
theorem spelled?_filler {words : List (Text × Text)}
    (h : (words.all fun p => p.2.all fun b => decide (Filler b)) = true) (t : Text) (w : Nat)
    (out : Text) (hout : spelled? words t = some (w, out)) : ∀ b ∈ out, Filler b := by
  obtain ⟨word, hmem, -⟩ := spelled?_some hout
  have hall := List.all_eq_true.mp h _ hmem
  exact fun b hb => of_decide_eq_true (List.all_eq_true.mp hall b hb)

theorem sizing?_filler (t : Text) (w : Nat) (out : Text) (hout : sizing? t = some (w, out)) :
    ∀ b ∈ out, Filler b := by
  unfold sizing? at hout
  split at hout
  · rename_i hspelled
    split at hout
    · exact absurd hout (by simp)
    · cases hout
      exact spelled?_filler (by decide) t w out hspelled
  · exact absurd hout (by simp)

theorem spacing?_filler (t : Text) (w : Nat) (out : Text) (hout : spacing? t = some (w, out)) :
    ∀ b ∈ out, Filler b := by
  unfold spacing? at hout
  split at hout
  · exact absurd hout (by simp)
  · dsimp only at hout
    split at hout
    · obtain ⟨m, -, he⟩ := Option.map_eq_some_iff.mp hout
      cases he
      exact fun b hb => absurd hb List.not_mem_nil
    · exact absurd hout (by simp)

theorem Filled.separators (h : Filled xs) : Filled (traceSeparators xs) := by
  intro y hy hnone
  obtain ⟨i, hi⟩ := List.mem_iff_getElem?.mp hy
  rw [traceSeparators, List.getElem?_zipWith_eq_some] at hi
  obtain ⟨x, inside, hx, -, rfl⟩ := hi
  unfold blankMark at hnone ⊢
  split
  · exact ⟨by decide, by decide⟩
  · rename_i hkept
    rw [if_neg hkept] at hnone
    exact h x (List.mem_of_getElem? hx) hnone

theorem traceCommasFrom_subset (odd : Bool) (xs : List Mark) : traceCommasFrom odd xs ⊆ xs := by
  induction xs generalizing odd with
  | nil => exact List.Subset.refl _
  | cons x xs ih =>
      rw [traceCommasFrom]
      split
      · exact List.Subset.trans (ih false) (List.subset_cons_self x xs)
      · exact List.cons_subset_cons x (ih _)

/-! ## Where a failure is -/

/-- The commands that cleaning takes apart, with the number of their arguments. -/
def commands : List (Text × Nat) := [("\\textcolor", 2), ("\\text", 1)]

/-- A failure of cleaning at a place of a text: there is no brace for an argument of the command
that stands there, or the brace that stands there begins an argument and is not closed. -/
inductive FailsAt (t : Text) : Nat → StageError → Prop where
  | missing {name : Text} {n start behind : Nat} {braces : List (Nat × Nat)} :
      (name, n) ∈ commands → Defective name n t start start braces behind → NoBraceFrom t behind →
      FailsAt t start (.cleaning (CleaningError.atCommand t name ↑(braces.length + 1) ↑start))
  | unclosed {name : Text} {n start behind first : Nat} {braces : List (Nat × Nat)} :
      (name, n) ∈ commands → Defective name n t start start braces behind →
      First (BraceAt t) behind first → NeverClosed t first →
      FailsAt t first (.delimiter (Bracket.unbalanced t ↑first))

theorem contextAt_nat (t : Text) (i : Nat) : contextAt t ↑i = (t.drop i).take contextLength := by
  rw [contextAt, if_neg (by omega), Int.toNat_natCast]

/-- **What reading the arguments of a command runs into** is a failure at a place of the text. -/
theorem failsAt_of_defect {start : Nat} {d : Defect} (hcommand : (name, n) ∈ commands)
    (hat : CommandAt name t start)
    (h : readArguments 1 n (start + name.length) (t.drop (start + name.length)) = .error d) :
    ∃ p, FailsAt t p (d.toError name start (t.drop start)) := by
  have hnext : First (CommandAt name t) start start :=
    ⟨Nat.le_refl _, hat, fun j h1 h2 => absurd h2 (by omega)⟩
  obtain ⟨braces, behind, hbraces, hcount⟩ := exists_braces t n (start + name.length)
  have hover := fun m => readArguments_over hbraces 1 m (start + name.length)
  rcases hcount with hall | ⟨hfew, hwhy⟩
  · -- with all arguments there is nothing to run into
    have hok := hover 0
    rw [Nat.add_zero, hall, h] at hok
    exact absurd hok (by simp [readArguments, Except.map])
  · obtain ⟨m, rfl⟩ : ∃ m, n = braces.length + (m + 1) := ⟨n - braces.length - 1, by omega⟩
    have hdefective : Defective name (braces.length + (m + 1)) t start start braces behind :=
      ⟨hnext, hbraces, hfew⟩
    rcases hwhy with hnone | ⟨first, hfirst, hnever⟩
    · have hbrace : Text.findByte? Bracket.curly.opening (t.drop behind) = none :=
        findByte?_eq_none_iff.mpr ((none_from_iff fun _ => braceAt_drop).mpr hnone)
      rw [hover (m + 1), readArguments, hbrace] at h
      cases h
      refine ⟨start, ?_⟩
      have hfails := FailsAt.missing hcommand hdefective hnone
      rw [CleaningError.atCommand, contextAt_nat, Nat.add_comm braces.length 1] at hfails
      exact hfails
    · have hle := hbraces.le
      have hbehind := hfirst.1
      rw [hover (m + 1), readArguments_neverClosed hfirst hnever] at h
      cases h
      refine ⟨first, ?_⟩
      have hfails := FailsAt.unclosed hcommand hdefective hfirst hnever
      rw [Bracket.unbalanced, contextAt_nat] at hfails
      have hplace : start + name.length + (behind - (start + name.length)) + (first - behind)
          = first := by omega
      rw [Defect.toError, hplace]
      exact hfails

/-! ## The text at which a rule stops -/

/-- The text as it stands when replacing commands ends or fails. -/
def stopSubstituteFrom (name : Text) (n : Nat) (replace : List (List Mark) → List Mark) :
    Nat → List Mark → List Mark → List Mark
  | 0, written, unread => written ++ unread
  | bound + 1, written, unread =>
    match findCommand? name (bytes unread) with
    | none => written ++ unread
    | some i =>
      match traceArguments 1 n (written.length + i + name.length)
        ((unread.drop i).drop name.length) with
      | .error _ => written ++ unread
      | .ok args =>
        stopSubstituteFrom name n replace bound
          (written ++ unread.take i ++ replace args.contents) args.rest

/-- The text at which a rule stops. Only the rules that read arguments can fail. -/
def Rule.stop : Rule → List Mark → List Mark
  | textcolor, xs =>
    stopSubstituteFrom "\\textcolor" 2 (fun args => args.getD 1 []) (xs.length + 1) [] xs
  | text, xs => stopSubstituteFrom "\\text" 1 (fun _ => []) (xs.length + 1) [] xs
  | operators, xs => xs
  | leftRight, xs => xs
  | spacing, xs => xs
  | ampersand, xs => xs
  | comma, xs => xs

/-- An invocation that is replaced leaves nothing in the text that was not there. -/
theorem invocation_subset {i offset : Nat} {unread : List Mark}
    {replace : List (List Mark) → List Mark} {args : MarkedArguments}
    (hreplace : KeepsLast n replace)
    (hargs : traceArguments 1 (n + 1) offset ((unread.drop i).drop name.length) = .ok args) :
    unread.take i ++ replace args.contents ++ args.rest ⊆ unread := by
  obtain ⟨before, last, o, c, others, hrest, -, hcontents, hlength⟩ := traceArguments_ok hargs
  have hsub : (unread.drop i).drop name.length ⊆ unread :=
    List.Subset.trans (List.drop_subset _ _) (List.drop_subset _ _)
  rw [hrest] at hsub
  have hreplaced : replace args.contents ⊆ last := by
    rw [hcontents]
    rcases hreplace others last hlength with he | he
    · rw [he]
      exact List.Subset.refl _
    · rw [he]
      exact List.nil_subset _
  intro y hy
  rcases List.mem_append.mp hy with hy | hy
  · rcases List.mem_append.mp hy with hy | hy
    · exact List.take_subset _ _ hy
    · have := hreplaced hy
      exact hsub (by simp [this])
  · exact hsub (by simp [hy])

/-- **The text at which replacing commands stops** is written in front and edited behind, and it has
no byte that was not there. -/
theorem stopSubstituteFrom_spec {letters : Text} {replace : List (List Mark) → List Mark}
    (hname : name = byte '\\' :: letters) (hreplace : KeepsLast n replace) (bound : Nat)
    (written unread : List Mark) :
    (∃ zs, stopSubstituteFrom name (n + 1) replace bound written unread = written ++ zs
        ∧ Edited unread zs)
      ∧ stopSubstituteFrom name (n + 1) replace bound written unread ⊆ written ++ unread := by
  induction bound generalizing written unread with
  | zero => exact ⟨⟨unread, rfl, edited_refl unread⟩, List.Subset.refl _⟩
  | succ bound ih =>
      rw [stopSubstituteFrom]
      split
      · exact ⟨⟨unread, rfl, edited_refl unread⟩, List.Subset.refl _⟩
      · rename_i i hi
        split
        · exact ⟨⟨unread, rfl, edited_refl unread⟩, List.Subset.refl _⟩
        · rename_i args hargs
          obtain ⟨front, hfront, hedit⟩ := invocation_edited hname hreplace hi hargs
          obtain ⟨⟨zs, hzs, hrest⟩, hsub⟩ :=
            ih (written ++ unread.take i ++ replace args.contents) args.rest
          refine ⟨⟨unread.take i ++ replace args.contents ++ zs, by rw [hzs]; simp, ?_⟩, ?_⟩
          · have := hedit.append hrest
            rwa [← hfront] at this
          · intro y hy
            have hy := hsub hy
            rw [List.append_assoc written, List.append_assoc written, List.mem_append] at hy
            exact List.mem_append.mpr
              (hy.imp_right fun hnew => invocation_subset hreplace hargs hnew)

/-- **A failure of replacing commands** is at a place of the text at which it stops. -/
theorem stopSubstituteFrom_failsAt {replace : List (List Mark) → List Mark}
    (hne : name ≠ []) (hcommand : (name, n) ∈ commands) {bound : Nat} {written unread : List Mark}
    {e : StageError} (h : traceSubstituteFrom name n replace bound written unread = .error e) :
    ∃ p, FailsAt (bytes (stopSubstituteFrom name n replace bound written unread)) p e := by
  induction bound generalizing written unread with
  | zero => exact absurd h (by simp [traceSubstituteFrom])
  | succ bound ih =>
      rw [traceSubstituteFrom] at h
      rw [stopSubstituteFrom]
      cases hi : findCommand? name (bytes unread) with
      | none => rw [hi] at h; exact absurd h (by simp)
      | some i =>
          rw [hi] at h
          dsimp only at h ⊢
          cases hargs : traceArguments 1 n (written.length + i + name.length)
              ((unread.drop i).drop name.length) with
          | ok args => rw [hargs] at h; exact ih h
          | error d =>
              rw [hargs] at h
              cases h
              -- the command that is found in what is unread stands behind what is written
              have hdrop : ∀ k, (bytes (written ++ unread)).drop (written.length + k)
                  = bytes (unread.drop k) := fun k => by
                rw [bytes_append, ← bytes_length written, List.drop_length_add_append, bytes_drop]
              have hat : CommandAt name (bytes (written ++ unread)) (written.length + i) := by
                have := ((findCommand?_eq_some_iff hne).mp hi).1
                rw [bytes_append, ← commandAt_drop, ← bytes_length written, List.drop_left]
                exact this
              have hread : readArguments 1 n (written.length + i + name.length)
                  ((bytes (written ++ unread)).drop (written.length + i + name.length))
                    = .error d := by
                rw [Nat.add_assoc, hdrop, ← Nat.add_assoc, ← List.drop_drop, ← traceArguments_bytes,
                  hargs]
                rfl
              have hfails := failsAt_of_defect hcommand hat hread
              rwa [hdrop] at hfails

/-! ## Rules, passes and cleaning -/

/-- A text that comes from a source by what rules do. -/
structure Derived (source : Text) (xs : List Mark) : Prop where
  edits : Edits (marked source) xs
  filled : Filled xs

theorem derived_marked (source : Text) : Derived source (marked source) :=
  ⟨.refl, filled_marked source⟩

theorem keepsLast_second : KeepsLast 1 fun args : List (List Mark) => args.getD 1 [] := by
  intro others last hlength
  obtain ⟨a, rfl⟩ := List.length_eq_one_iff.mp hlength
  exact Or.inl rfl

theorem keepsLast_none : KeepsLast 0 fun _ : List (List Mark) => [] := fun _ _ _ => Or.inr rfl

theorem Derived.stopSubstitute {letters : Text} {replace : List (List Mark) → List Mark}
    {bound : Nat} (h : Derived source xs) (hname : name = byte '\\' :: letters)
    (hreplace : KeepsLast n replace) :
    Derived source (stopSubstituteFrom name (n + 1) replace bound [] xs) := by
  obtain ⟨⟨zs, hzs, hedited⟩, hsub⟩ := stopSubstituteFrom_spec hname hreplace bound [] xs
  rw [List.nil_append] at hsub hzs
  exact ⟨h.edits.trans (.single (hzs ▸ hedited)), h.filled.subset hsub⟩

/-- Where replacing commands comes to an end it stops at its result. -/
theorem stopSubstituteFrom_ok {replace : List (List Mark) → List Mark} {bound : Nat}
    {written unread : List Mark}
    (h : traceSubstituteFrom name n replace bound written unread = .ok ys) :
    stopSubstituteFrom name n replace bound written unread = ys := by
  induction bound generalizing written unread with
  | zero => exact Except.ok.inj h
  | succ bound ih =>
      rw [traceSubstituteFrom] at h
      rw [stopSubstituteFrom]
      cases hi : findCommand? name (bytes unread) with
      | none => rw [hi] at h; exact Except.ok.inj h
      | some i =>
          rw [hi] at h
          dsimp only at h ⊢
          cases hargs : traceArguments 1 n (written.length + i + name.length)
              ((unread.drop i).drop name.length) with
          | error d => rw [hargs] at h; exact absurd h (by simp)
          | ok args => rw [hargs] at h; exact ih h

theorem Rule.stop_derived (rule : Rule) (h : Derived source xs) :
    Derived source (rule.stop xs) := by
  cases rule with
  | textcolor => exact h.stopSubstitute rfl keepsLast_second
  | text => exact h.stopSubstitute rfl keepsLast_none
  | operators => exact h
  | leftRight => exact h
  | spacing => exact h
  | ampersand => exact h
  | comma => exact h

theorem Rule.trace_filled {rule : Rule} (h : Derived source xs) (htrace : rule.trace xs = .ok ys) :
    Filled ys := by
  cases rule with
  | textcolor =>
      have hstop := (Rule.textcolor.stop_derived h).filled
      rwa [Rule.stop, stopSubstituteFrom_ok htrace] at hstop
  | text =>
      have hstop := (Rule.text.stop_derived h).filled
      rwa [Rule.stop, stopSubstituteFrom_ok htrace] at hstop
  | operators =>
      cases htrace
      have hmultiplied : Filled (traceReplaceFrom (spelled? multiplications) 0 xs) :=
        h.filled.replaceFrom (spelled?_filler (by decide)) 0
      have hdivided : Filled (traceReplaceFrom (spelled? divisions) 0 _) :=
        hmultiplied.replaceFrom (spelled?_filler (by decide)) 0
      exact hdivided.replaceFrom (spelled?_filler (by decide)) 0
  | leftRight =>
      cases htrace
      exact h.filled.replaceFrom sizing?_filler 0
  | spacing =>
      cases htrace
      exact h.filled.replaceFrom spacing?_filler 0
  | ampersand =>
      cases htrace
      exact h.filled.separators
  | comma =>
      cases htrace
      exact h.filled.subset (traceCommasFrom_subset false xs)

/-- **What a rule does to a text that comes from the source** is another one. -/
theorem Rule.trace_derived {rule : Rule} (h : Derived source xs) (htrace : rule.trace xs = .ok ys) :
    Derived source ys := by
  have hedits := rule.trace_traces xs
  rw [htrace] at hedits
  exact ⟨h.edits.trans hedits, Rule.trace_filled h htrace⟩

theorem Rule.stop_failsAt {rule : Rule} {e : StageError} (h : rule.trace xs = .error e) :
    ∃ p, FailsAt (bytes (rule.stop xs)) p e := by
  cases rule with
  | textcolor => exact stopSubstituteFrom_failsAt (by decide) (by decide) h
  | text => exact stopSubstituteFrom_failsAt (by decide) (by decide) h
  | operators => exact absurd h (by simp [Rule.trace])
  | leftRight => exact absurd h (by simp [Rule.trace])
  | spacing => exact absurd h (by simp [Rule.trace])
  | ampersand => exact absurd h (by simp [Rule.trace])
  | comma => exact absurd h (by simp [Rule.trace])

/-- The text at which rules, one after the other, stop. -/
def stopRules : List Rule → List Mark → List Mark
  | [], xs => xs
  | rule :: rules, xs =>
    match rule.trace xs with
    | .ok ys => stopRules rules ys
    | .error _ => rule.stop xs

theorem stopRules_derived (rules : List Rule) (h : Derived source xs) :
    Derived source (stopRules rules xs) := by
  induction rules generalizing xs with
  | nil => exact h
  | cons rule rules ih =>
      rw [stopRules]
      split
      · exact ih (Rule.trace_derived h ‹_›)
      · exact rule.stop_derived h

theorem stopRules_ok {rules : List Rule} (h : traceRules rules xs = .ok ys) :
    stopRules rules xs = ys := by
  induction rules generalizing xs with
  | nil => exact Except.ok.inj h
  | cons rule rules ih =>
      rw [traceRules, List.foldlM_cons] at h
      rw [stopRules]
      cases htrace : rule.trace xs with
      | ok zs => rw [htrace] at h; exact ih h
      | error e => rw [htrace] at h; exact absurd h (by simp [bind, Except.bind])

theorem stopRules_failsAt {rules : List Rule} {e : StageError}
    (h : traceRules rules xs = .error e) : ∃ p, FailsAt (bytes (stopRules rules xs)) p e := by
  induction rules generalizing xs with
  | nil => exact absurd h (by simp [traceRules, pure, Except.pure])
  | cons rule rules ih =>
      rw [traceRules, List.foldlM_cons] at h
      rw [stopRules]
      cases htrace : rule.trace xs with
      | ok zs => rw [htrace] at h; exact ih h
      | error e' =>
          rw [htrace] at h
          cases h
          exact Rule.stop_failsAt htrace

/-- The text at which at most `left` passes stop. -/
def stopFrom : Nat → List Mark → List Mark
  | 0, xs => xs
  | left + 1, xs =>
    match traceRules Rule.all xs with
    | .ok next => if bytes next = bytes xs then next else stopFrom left next
    | .error _ => stopRules Rule.all xs

/-- The text at which cleaning a source stops. -/
def stopClean (limit : Nat) (source : Text) : List Mark := stopFrom limit (marked source)

theorem stopFrom_derived (left : Nat) (h : Derived source xs) :
    Derived source (stopFrom left xs) := by
  induction left generalizing xs with
  | zero => exact h
  | succ left ih =>
      have hpass := stopRules_derived Rule.all h
      rw [stopFrom]
      split
      · rename_i next hnext
        rw [stopRules_ok hnext] at hpass
        split
        · exact hpass
        · exact ih hpass
      · exact hpass

/-- **The text at which cleaning stops comes from the source.** -/
theorem stopClean_derived (limit : Nat) (source : Text) :
    Derived source (stopClean limit source) :=
  stopFrom_derived limit (derived_marked source)

theorem stopFrom_failsAt {limit left : Nat} {e : StageError}
    (h : traceFrom limit left xs = .error e) :
    (∃ p, FailsAt (bytes (stopFrom left xs)) p e) ∨ e = nonConvergence limit := by
  induction left generalizing xs with
  | zero => exact Or.inr (Except.error.inj h).symm
  | succ left ih =>
      rw [traceFrom] at h
      rw [stopFrom]
      cases hrules : traceRules Rule.all xs with
      | error e' =>
          rw [hrules] at h
          cases h
          exact Or.inl (stopRules_failsAt hrules)
      | ok next =>
          rw [hrules] at h
          dsimp only at h ⊢
          split at h
          · exact absurd h (by simp)
          · rename_i hchanged
            rw [if_neg hchanged]
            exact ih h

/-- **A failure of cleaning is at a place of the text at which it stops**, unless it is that the
passes were too few. -/
theorem stopClean_failsAt {limit : Nat} {e : StageError}
    (h : (clean limit source).result = .error e) :
    (∃ p, FailsAt (bytes (stopClean limit source)) p e) ∨ e = nonConvergence limit := by
  rw [← traceClean_bytes] at h
  unfold traceClean at h
  cases htrace : traceFrom limit limit (marked source) with
  | ok ys => rw [htrace] at h; exact absurd h (by simp [Except.map])
  | error e' =>
      rw [htrace] at h
      obtain rfl := Except.error.inj h
      exact stopFrom_failsAt htrace

end MathMarkup.Cleaning
