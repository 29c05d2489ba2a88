import MathMarkup.Cleaning.Rule
import MathMarkup.Proofs.Partners

/-!
# One pass over the text

`substitute` edits a text in place, and its positions are those of the edited text. What it has
written it never looks into again, so there is another way to see it: a pass over the text from left
to right, with what has been written apart from what is unread (`substituteFrom`). The positions of
the one are those of the other as long as the text is what has been written and then what is unread,
and an edit keeps it so (`editFrom_eq`).

Most of what is known about cleaning is proved of the pass, by induction on what is unread.
-/

namespace MathMarkup.Cleaning

open MathMarkup.Text (byte)

/-! ## The pass -/

/-- The brace arguments of an invocation. -/
structure Arguments where
  /-- The contents of the braces. -/
  contents : List Text
  /-- What follows the last argument. -/
  rest : Text
  /-- The offset of that rest. -/
  stop : Nat

/-- Why an invocation has not all its arguments. -/
inductive Defect where
  /-- There is no `{` for the argument of this number. -/
  | missing (argument : Nat)
  /-- The `{` at this offset, followed by this text, is not closed. -/
  | unclosed (offset : Nat) (rest : Text)

/-- The arguments from number `k` on, `n` of them, looked for in a text that starts at `offset`. -/
def readArguments (k : Nat) : Nat → Nat → Text → Except Defect Arguments
  | 0, offset, t => .ok ⟨[], t, offset⟩
  | n + 1, offset, t =>
    match t.findByte? Bracket.curly.opening with
    | none => .error (.missing k)
    | some i =>
      let body := t.drop (i + 1)
      match Bracket.curly.closeOffset? 0 body with
      | none => .error (.unclosed (offset + i) (t.drop i))
      | some j => do
        let more ← readArguments (k + 1) n (offset + i + j + 2) (body.drop (j + 1))
        .ok ⟨body.take j :: more.contents, more.rest, more.stop⟩

/-- The stage failure of a defect. The invocation starts at `start`, and `unread` is the text from
there on. -/
def Defect.toError (name : Text) (start : Nat) (unread : Text) : Defect → StageError
  | missing k =>
    .cleaning
      { position := start, context := unread.take contextLength, missing := ⟨name, k, start⟩ }
  | unclosed offset rest =>
    .delimiter
      { reason := some .unbalancedDelimiter, position := offset
        context := rest.take contextLength }

/-- Replaces the invocations of a command in the unread text, given what has been written before it.
The first argument bounds the number of invocations. -/
def substituteFrom (name : Text) (n : Nat) (replace : List Text → Text) :
    Nat → Text → Text → Except StageError Text
  | 0, written, unread => .ok (written ++ unread)
  | bound + 1, written, unread =>
    match findCommand? name unread with
    | none => .ok (written ++ unread)
    | some i =>
      let start := written.length + i
      let invocation := unread.drop i
      match readArguments 1 n (start + name.length) (invocation.drop name.length) with
      | .error defect => .error (defect.toError name start invocation)
      | .ok args =>
        substituteFrom name n replace bound
          (written ++ unread.take i ++ replace args.contents) args.rest

/-! ## Names and braces -/

/-- The names of commands: a backslash and letters. -/
def CommandName (name : Text) : Prop :=
  ∃ letters : Text, name = byte '\\' :: letters ∧ ∀ b ∈ letters, Text.isLetter b = true

variable {name t : Text} {n : Nat} {replace : List Text → Text}

/-- The last byte of a name is no brace, so it does not matter whether the search for the first
argument begins with it or behind it. -/
theorem CommandName.last (h : CommandName name) :
    ∃ init b, name = init ++ [b] ∧ b ≠ Bracket.curly.opening := by
  obtain ⟨letters, rfl, hletters⟩ := h
  rcases List.eq_nil_or_concat letters with rfl | ⟨init, b, rfl⟩
  · exact ⟨[], byte '\\', rfl, by decide⟩
  · refine ⟨byte '\\' :: init, b, by simp, ?_⟩
    rintro rfl
    have hbrace := hletters Bracket.curly.opening (by simp)
    exact absurd hbrace (by decide)

theorem findCommand?_some {i : Nat} (h : findCommand? name t = some i) :
    ∃ r, t.drop i = name ++ r := by
  induction t generalizing i with
  | nil => exact absurd h (by simp [findCommand?])
  | cons b t ih =>
      rw [findCommand?] at h
      split at h
      · rename_i hb
        cases h
        obtain ⟨r, hr⟩ := List.isPrefixOf_iff_prefix.mp (Bool.and_eq_true_iff.mp hb).1
        exact ⟨r, hr.symm⟩
      · obtain ⟨j, hj, rfl⟩ := Option.map_eq_some_iff.mp h
        exact ih hj

/-- A search for a brace may begin with another byte. -/
theorem braceFrom?_succ {last : Nat} {b : UInt8} (hlast : t[last]? = some b)
    (hb : b ≠ Bracket.curly.opening) : braceFrom? t last = braceFrom? t (last + 1) := by
  obtain ⟨hlt, rfl⟩ := List.getElem?_eq_some_iff.mp hlast
  unfold braceFrom? Text.findByte?
  rw [List.drop_eq_getElem_cons hlt, List.findIdx?_cons]
  have hne : (t[last] == Bracket.curly.opening) = false := beq_eq_false_iff_ne.mpr hb
  rw [hne, if_neg (by simp), Option.map_map]
  refine congrArg (Option.map · _) (funext fun i => ?_)
  show last + (i + 1) = last + 1 + i
  omega

theorem findByte?_getElem {x : UInt8} {i : Nat} (h : t.findByte? x = some i) :
    t[i]? = some x := by
  obtain ⟨hi, hx, _⟩ := List.findIdx?_eq_some_iff_getElem.mp h
  rw [List.getElem?_eq_getElem hi, eq_of_beq hx]

/-- Where a brace is found one stands. -/
theorem opensAt_of_braceFrom? {last first : Nat} (h : braceFrom? t last = some first) :
    Bracket.OpensAt t first .curly := by
  obtain ⟨i, hi, rfl⟩ := Option.map_eq_some_iff.mp h
  refine ⟨Int.natCast_nonneg _, ?_⟩
  rw [Int.toNat_natCast, ← List.getElem?_drop]
  exact findByte?_getElem hi

/-! ## Arguments -/

/-- Arguments read in the text from a position on have their rest at the position of their end. -/
theorem readArguments_rest {k offset : Nat} {args : Arguments}
    (h : readArguments k n offset (t.drop offset) = .ok args) : args.rest = t.drop args.stop := by
  induction n generalizing k offset args with
  | zero =>
      cases h
      rfl
  | succ n ih =>
      rw [readArguments] at h
      split at h
      · exact absurd h (by simp)
      · rename_i i _
        dsimp only at h
        split at h
        · exact absurd h (by simp)
        · rename_i j _
          rw [List.drop_drop, List.drop_drop,
            show offset + (i + 1 + (j + 1)) = offset + i + j + 2 by omega] at h
          cases hmore : readArguments (k + 1) n (offset + i + j + 2)
              (t.drop (offset + i + j + 2)) with
          | error d => rw [hmore] at h; exact absurd h (by simp [bind, Except.bind])
          | ok more =>
              have hrest := ih hmore
              rw [hmore] at h
              obtain rfl := Except.ok.inj h
              exact hrest

/-- **The arguments found by positions are those read from the rest of the text.** The search begins
with a byte that is no brace, and reading begins behind it. -/
theorem argumentsFrom_eq {start k last : Nat} {b : UInt8} (hlast : t[last]? = some b)
    (hb : b ≠ Bracket.curly.opening) :
    argumentsFrom name t start k n last
      = match readArguments k n (last + 1) (t.drop (last + 1)) with
        | .ok args => .ok (args.contents, args.stop)
        | .error d => .error (d.toError name start (t.drop start)) := by
  induction n generalizing k last b with
  | zero => rfl
  | succ n ih =>
      rw [argumentsFrom, readArguments, braceFrom?_succ hlast hb]
      cases hfirst : braceFrom? t (last + 1) with
      | none =>
          have hi : Text.findByte? Bracket.curly.opening (t.drop (last + 1)) = none :=
            Option.map_eq_none_iff.mp hfirst
          rw [hi]
          rfl
      | some first =>
          have hopens := opensAt_of_braceFrom? hfirst
          obtain ⟨i, hi, rfl⟩ := Option.map_eq_some_iff.mp hfirst
          rw [hi]
          dsimp only
          rw [Bracket.findEnd_of_opensAt hopens, Int.toNat_natCast, List.drop_drop, List.drop_drop,
            show last + 1 + (i + 1) = last + 1 + i + 1 by omega]
          cases hj : Bracket.closeOffset? .curly 0 (t.drop (last + 1 + i + 1)) with
          | none => rfl
          | some j =>
              dsimp only
              -- the next search begins with the closing brace
              have hclose : t[last + 1 + i + 1 + j]? = some Bracket.curly.closing := by
                rw [← List.getElem?_drop]
                exact Bracket.closeOffset?_getElem hj
              rw [ih hclose (by decide), List.drop_drop,
                show last + 1 + i + 1 + (j + 1) = last + 1 + i + 1 + j + 1 by omega,
                show last + 1 + i + j + 2 = last + 1 + i + 1 + j + 1 by omega, Bracket.slice_add]
              cases readArguments (k + 1) n (last + 1 + i + 1 + j + 1)
                (t.drop (last + 1 + i + 1 + j + 1)) <;> rfl

/-! ## Editing -/

/-- **Editing in place is one pass over the text.** -/
theorem editFrom_eq (hname : CommandName name) (bound : Nat) (written unread : Text) :
    editFrom name n replace bound (written ++ unread) written.length
      = substituteFrom name n replace bound written unread := by
  induction bound generalizing written unread with
  | zero => rfl
  | succ bound ih =>
      rw [editFrom, substituteFrom, commandFrom?, List.drop_left]
      cases hi : findCommand? name unread with
      | none => rfl
      | some i =>
          obtain ⟨r, hr⟩ := findCommand?_some hi
          obtain ⟨init, b, hlast, hb⟩ := hname.last
          have hlen : name.length = init.length + 1 := by
            rw [hlast]
            simp
          have hdrop : (written ++ unread).drop (written.length + i) = unread.drop i :=
            List.drop_length_add_append ..
          have hle : i ≤ unread.length := by
            have := congrArg List.length hr
            rw [List.length_drop, List.length_append] at this
            omega
          -- the byte the search for the first argument begins with
          have hbyte : (written ++ unread)[written.length + i + name.length - 1]? = some b := by
            rw [show written.length + i + name.length - 1
                = written.length + i + init.length by omega, ← List.getElem?_drop, hdrop, hr, hlast]
            simp
          have hbehind : written.length + i + name.length - 1 + 1
              = written.length + i + name.length := by omega
          have hrest : (written ++ unread).drop (written.length + i + name.length)
              = (unread.drop i).drop name.length := by
            rw [← List.drop_drop, hdrop]
          dsimp only [Option.map_some]
          rw [argumentsFrom_eq hbyte hb, hbehind, hdrop, hrest]
          cases hargs : readArguments 1 n (written.length + i + name.length)
              ((unread.drop i).drop name.length) with
          | error d => rfl
          | ok args =>
              have hstop : (written ++ unread).drop args.stop = args.rest :=
                (readArguments_rest (by rw [hrest]; exact hargs)).symm
              have hwritten : (written ++ unread).take (written.length + i)
                  = written ++ unread.take i := List.take_length_add_append ..
              have hlength : written.length + i + (replace args.contents).length
                  = (written ++ unread.take i ++ replace args.contents).length := by
                simp [Nat.min_eq_left hle, Nat.add_assoc]
              dsimp only
              rw [hstop, hwritten, hlength]
              exact ih _ _

/-- **Replacing the invocations of a command is one pass over the text.** -/
theorem substitute_eq (hname : CommandName name) :
    substitute name n replace t = substituteFrom name n replace (t.length + 1) [] t :=
  editFrom_eq hname (t.length + 1) [] t

theorem textcolor_apply (t : Text) : Rule.textcolor.apply t
    = substituteFrom "\\textcolor" 2 (fun args => args.getD 1 []) (t.length + 1) [] t :=
  substitute_eq ⟨"textcolor", rfl, List.all_eq_true.mp (by decide)⟩

theorem text_apply (t : Text) : Rule.text.apply t
    = substituteFrom "\\text" 1 (fun _ => []) (t.length + 1) [] t :=
  substitute_eq ⟨"text", rfl, List.all_eq_true.mp (by decide)⟩

end MathMarkup.Cleaning
