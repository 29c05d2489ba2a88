import MathMarkup.Proofs.Edits
import MathMarkup.Proofs.SinglePass

/-!
# Following bytes through the rules

Every rule of cleaning is carried out on texts with marks. Without the marks it is the rule itself,
also where it fails (`Rule.trace_bytes`), and what it does are edits (`Rule.trace_traces`).

A rule can only fail at a command that lacks an argument or whose braces are not closed. Both have a
place in the text that the rule was given (`StageError.Located`).
-/

namespace MathMarkup

/-- The failures of a rule that has been given a text of `size` bytes. -/
def StageError.Located (size : Nat) : StageError → Prop
  | .cleaning e => 0 ≤ e.position ∧ e.position < size
  | .delimiter e => 0 ≤ e.position ∧ e.position < size
  | _ => False

theorem StageError.Located.mono {size size' : Nat} {e : StageError} (h : e.Located size)
    (hle : size ≤ size') : e.Located size' := by
  have hle : (size : Int) ≤ size' := Int.ofNat_le.mpr hle
  unfold StageError.Located at *
  split at h
  · exact ⟨h.1, Int.lt_of_lt_of_le h.2 hle⟩
  · exact ⟨h.1, Int.lt_of_lt_of_le h.2 hle⟩
  · exact h.elim

namespace Cleaning

open MathMarkup.Text (byte)

/-! ## Replacing words -/

/-- `Text.replaceFrom` on a text with marks. -/
def traceReplaceFrom (find : Text → Option (Nat × Text)) : Nat → List Mark → List Mark
  | _, [] => []
  | k + 1, _ :: xs => traceReplaceFrom find k xs
  | 0, x :: xs =>
    match find (bytes (x :: xs)) with
    | some (n + 1, out) => put out ++ traceReplaceFrom find n xs
    | _ => x :: traceReplaceFrom find 0 xs

theorem traceReplaceFrom_bytes (find : Text → Option (Nat × Text)) (k : Nat) (xs : List Mark) :
    bytes (traceReplaceFrom find k xs) = Text.replaceFrom find k (bytes xs) := by
  induction xs generalizing k with
  | nil => cases k <;> rfl
  | cons x xs ih =>
      cases k with
      | succ k => exact ih k
      | zero =>
          rw [traceReplaceFrom, bytes_cons, Text.replaceFrom]
          cases find (x.byte :: bytes xs) with
          | none => exact congrArg (x.byte :: ·) (ih 0)
          | some p =>
              obtain ⟨_ | n, out⟩ := p
              · exact congrArg (x.byte :: ·) (ih 0)
              · simp [ih]

/-- What is recognised lies in the text, does not begin with a letter, and is not replaced by
something longer. -/
def Recognises (find : Text → Option (Nat × Text)) : Prop :=
  ∀ b r w out, find (b :: r) = some (w, out) →
    Text.isLetter b = false ∧ w ≤ r.length + 1 ∧ out.length ≤ w

theorem traceReplaceFrom_edited {find : Text → Option (Nat × Text)} (h : Recognises find) (k : Nat)
    (xs : List Mark) : Edited (xs.drop k) (traceReplaceFrom find k xs) := by
  induction xs generalizing k with
  | nil => cases k <;> exact .done
  | cons x xs ih =>
      cases k with
      | succ k => exact ih k
      | zero =>
          rw [traceReplaceFrom]
          split
          · rename_i n out hfind
            obtain ⟨hx, hw, hout⟩ := h _ _ _ _ hfind
            -- the word is there in full, so cutting it out shortens the text by its width
            have hlen : (xs.take n).length = n := by
              rw [List.length_take, Nat.min_eq_left]
              simpa using hw
            have := Edited.cut x (xs.take n) out hx (by rw [hlen]; exact hout) (ih n)
            rwa [List.take_append_drop] at this
          · exact .keep x (ih 0)

/-! ## What is recognised -/

theorem letterWidth?_le {letter : UInt8} {t : Text} {w : Nat} (h : letterWidth? letter t = some w) :
    w ≤ t.length := by
  unfold letterWidth? at h
  split at h
  · exact absurd h (by simp)
  · rename_i b r
    split at h
    · cases h; simp
    · split at h
      · rename_i hs
        cases h
        cases r with
        | nil => simp at hs
        | cons c r => simp
      · exact absurd h (by simp)

theorem wordWidth?_le {word t : Text} {w : Nat} (h : wordWidth? word t = some w) :
    w ≤ t.length := by
  induction word generalizing t w with
  | nil => cases h; exact Nat.zero_le _
  | cons letter word ih =>
      rw [wordWidth?] at h
      obtain ⟨a, ha, h⟩ := Option.bind_eq_some_iff.mp h
      obtain ⟨m, hm, h⟩ := Option.bind_eq_some_iff.mp h
      cases h
      have h1 := letterWidth?_le ha
      have h2 := ih hm
      rw [List.length_drop] at h2
      omega

/-- A word has at least one byte for each letter. -/
theorem wordWidth?_ge {word t : Text} {w : Nat} (h : wordWidth? word t = some w) :
    word.length ≤ w := by
  have pos : ∀ {letter : UInt8} {t : Text} {a : Nat}, letterWidth? letter t = some a → 1 ≤ a := by
    intro letter t a ha
    unfold letterWidth? at ha
    split at ha
    · exact absurd ha (by simp)
    · split at ha
      · cases ha; omega
      · split at ha
        · cases ha; omega
        · exact absurd ha (by simp)
  induction word generalizing t w with
  | nil => exact Nat.zero_le _
  | cons letter word ih =>
      rw [wordWidth?] at h
      obtain ⟨a, ha, h⟩ := Option.bind_eq_some_iff.mp h
      obtain ⟨m, hm, h⟩ := Option.bind_eq_some_iff.mp h
      cases h
      have h1 := pos ha
      have h2 := ih hm
      simp only [List.length_cons]
      omega

theorem lowerByte_slash {b : UInt8} (h : Text.lowerByte b = byte '\\') : b = byte '\\' := by
  unfold Text.lowerByte at h
  split at h
  · rename_i hupper
    simp only [Bool.and_eq_true, decide_eq_true_eq, UInt8.le_iff_toNat_le] at hupper
    have h1 : 65 ≤ b.toNat := hupper.1
    have h2 : b.toNat ≤ 90 := hupper.2
    have h3 := congrArg UInt8.toNat h
    have h4 : (byte '\\').toNat = 92 := rfl
    rw [h4, UInt8.toNat_add] at h3
    simp at h3
    omega
  · exact h

/-- A word that begins with a backslash is spelled by a text that does. -/
theorem wordWidth?_slash {word r : Text} {b : UInt8} {w : Nat}
    (h : wordWidth? (byte '\\' :: word) (b :: r) = some w) : b = byte '\\' := by
  rw [wordWidth?] at h
  obtain ⟨a, ha, _⟩ := Option.bind_eq_some_iff.mp h
  unfold letterWidth? at ha
  dsimp only at ha
  split at ha
  · rename_i hb
    exact lowerByte_slash (eq_of_beq hb)
  · -- the long s, the one letter of two bytes, spells no backslash
    rw [show (byte '\\' == byte 's') = false from rfl] at ha
    exact absurd ha (by simp)

theorem spelled?_some {words : List (Text × Text)} {t : Text} {w : Nat} {out : Text}
    (h : spelled? words t = some (w, out)) :
    ∃ word, (word, out) ∈ words ∧ wordWidth? word t = some w := by
  induction words with
  | nil => exact absurd h (by simp [spelled?, List.firstM])
  | cons p words ih =>
      have hstep : spelled? (p :: words) t
          = (((wordWidth? p.1 t).map fun w => (w, p.2)) <|> spelled? words t) := rfl
      rw [hstep] at h
      cases hp : wordWidth? p.1 t with
      | some w' =>
          rw [hp] at h
          cases h
          exact ⟨p.1, List.mem_cons_self .., hp⟩
      | none =>
          rw [hp] at h
          obtain ⟨word, hmem, hw⟩ := ih (by simpa using h)
          exact ⟨word, List.mem_cons_of_mem _ hmem, hw⟩

/-- Words that begin with a backslash and are not shorter than what stands for them. -/
theorem spelled?_recognises {words : List (Text × Text)}
    (h : ∀ p ∈ words, p.1.head? = some (byte '\\') ∧ p.2.length ≤ p.1.length) :
    Recognises (spelled? words) := by
  intro b r w out hfind
  obtain ⟨word, hmem, hw⟩ := spelled?_some hfind
  obtain ⟨hhead, hout⟩ := h _ hmem
  obtain ⟨tail, rfl⟩ := List.head?_eq_some_iff.mp hhead
  have hle := wordWidth?_le hw
  have hge := wordWidth?_ge hw
  refine ⟨?_, by simpa using hle, Nat.le_trans hout hge⟩
  rw [wordWidth?_slash hw]
  decide

theorem sizing?_recognises : Recognises sizing? := by
  intro b r w out hfind
  unfold sizing? at hfind
  split at hfind
  · rename_i hspelled
    split at hfind
    · exact absurd hfind (by simp)
    · cases hfind
      exact spelled?_recognises (by decide) b r w out hspelled
  · exact absurd hfind (by simp)

theorem spacing?_recognises : Recognises spacing? := by
  intro b r w out hfind
  unfold spacing? at hfind
  dsimp only at hfind
  split at hfind
  · rename_i hb
    obtain ⟨m, hm, he⟩ := Option.map_eq_some_iff.mp hfind
    cases he
    rw [Bool.and_eq_true] at hb
    have hle := wordWidth?_le hm
    have hdigits := (List.takeWhile_prefix Text.isDigit (l := r)).length_le
    rw [List.length_drop] at hle
    refine ⟨?_, by omega, Nat.zero_le _⟩
    rw [eq_of_beq hb.1]
    decide
  · exact absurd hfind (by simp)

/-! ## Reading arguments -/

/-- `Arguments` of a text with marks. -/
structure MarkedArguments where
  contents : List (List Mark)
  rest : List Mark
  stop : Nat

/-- The arguments without their marks. -/
def MarkedArguments.plain (args : MarkedArguments) : Arguments :=
  ⟨args.contents.map bytes, bytes args.rest, args.stop⟩

/-- `readArguments` on a text with marks. -/
def traceArguments (k : Nat) : Nat → Nat → List Mark → Except Defect MarkedArguments
  | 0, offset, xs => .ok ⟨[], xs, offset⟩
  | n + 1, offset, xs =>
    match (bytes xs).findByte? Bracket.curly.opening with
    | none => .error (.missing k)
    | some i =>
      let body := xs.drop (i + 1)
      match Bracket.curly.closeOffset? 0 (bytes body) with
      | none => .error (.unclosed (offset + i) (bytes (xs.drop i)))
      | some j => do
        let more ← traceArguments (k + 1) n (offset + i + j + 2) (body.drop (j + 1))
        .ok ⟨body.take j :: more.contents, more.rest, more.stop⟩

theorem traceArguments_bytes (k n offset : Nat) (xs : List Mark) :
    (traceArguments k n offset xs).map MarkedArguments.plain
      = readArguments k n offset (bytes xs) := by
  induction n generalizing k offset xs with
  | zero => rfl
  | succ n ih =>
      rw [traceArguments, readArguments]
      cases hi : (bytes xs).findByte? Bracket.curly.opening with
      | none => rfl
      | some i =>
          dsimp only
          rw [← bytes_drop]
          cases hj : Bracket.curly.closeOffset? 0 (bytes (xs.drop (i + 1))) with
          | none => dsimp only; rw [← bytes_drop]; rfl
          | some j =>
              dsimp only
              rw [← bytes_drop, ← ih]
              cases traceArguments (k + 1) n (offset + i + j + 2)
                  ((xs.drop (i + 1)).drop (j + 1)) with
              | error e => rfl
              | ok more => simp [bind, Except.bind, Except.map, MarkedArguments.plain, bytes_take]

theorem split_at {xs : List Mark} {i : Nat} {b : UInt8} (h : (bytes xs)[i]? = some b) :
    ∃ x : Mark, x.byte = b ∧ xs = xs.take i ++ x :: xs.drop (i + 1) := by
  unfold bytes at h
  rw [List.getElem?_map] at h
  obtain ⟨x, hx, rfl⟩ := Option.map_eq_some_iff.mp h
  obtain ⟨hi, hx⟩ := List.getElem?_eq_some_iff.mp hx
  refine ⟨x, rfl, ?_⟩
  rw [← hx, List.getElem_cons_drop, List.take_append_drop]

/-- What reading one argument can come to: there is no brace, it is not closed, or the argument
stands in a pair of braces and the others are read behind it. -/
theorem traceArguments_cases (k n offset : Nat) (xs : List Mark) :
    traceArguments k (n + 1) offset xs = .error (.missing k)
      ∨ (∃ i rest, i < xs.length
        ∧ traceArguments k (n + 1) offset xs = .error (.unclosed (offset + i) rest))
      ∨ ∃ before content after : List Mark, ∃ opening closing : Mark,
        xs = before ++ opening :: (content ++ closing :: after)
          ∧ closing.byte = Bracket.curly.closing
          ∧ traceArguments k (n + 1) offset xs
            = (traceArguments (k + 1) n (offset + before.length + content.length + 2) after).map
              fun more => ⟨content :: more.contents, more.rest, more.stop⟩ := by
  rw [traceArguments]
  cases hi : (bytes xs).findByte? Bracket.curly.opening with
  | none => exact Or.inl rfl
  | some i =>
      obtain ⟨o, _, ho⟩ := split_at (findByte?_getElem hi)
      have hlen := congrArg List.length ho
      simp only [List.length_append, List.length_take, List.length_cons, List.length_drop] at hlen
      dsimp only
      cases hj : Bracket.curly.closeOffset? 0 (bytes (xs.drop (i + 1))) with
      | none => exact Or.inr (Or.inl ⟨i, _, by omega, rfl⟩)
      | some j =>
          obtain ⟨c, hc, hcut⟩ := split_at (Bracket.closeOffset?_getElem hj)
          have hcut' := congrArg List.length hcut
          simp only [List.length_append, List.length_take, List.length_cons,
            List.length_drop] at hcut'
          refine Or.inr (Or.inr ⟨xs.take i, (xs.drop (i + 1)).take j,
            (xs.drop (i + 1)).drop (j + 1), o, c, ?_, hc, ?_⟩)
          · rw [← hcut]
            exact ho
          · rw [List.length_take, List.length_take, List.length_drop, Nat.min_eq_left (by omega),
              Nat.min_eq_left (by omega)]
            dsimp only
            cases traceArguments (k + 1) n (offset + i + j + 2) ((xs.drop (i + 1)).drop (j + 1)) <;>
              rfl

/-- The last of the arguments stands in braces directly before the rest. -/
theorem traceArguments_ok {k n offset : Nat} {xs : List Mark} {args : MarkedArguments}
    (h : traceArguments k (n + 1) offset xs = .ok args) :
    ∃ before last : List Mark, ∃ opening closing : Mark, ∃ others : List (List Mark),
      xs = before ++ opening :: (last ++ closing :: args.rest)
        ∧ closing.byte = Bracket.curly.closing
        ∧ args.contents = others ++ [last] ∧ others.length = n := by
  induction n generalizing k offset xs args with
  | zero =>
      rcases traceArguments_cases k 0 offset xs with
        he | ⟨_, _, _, he⟩ | ⟨b, t, r, o, c, hxs, hc, he⟩
      · rw [he] at h; exact absurd h (by simp)
      · rw [he] at h; exact absurd h (by simp)
      · rw [he] at h
        cases h
        exact ⟨b, t, o, c, [], hxs, hc, rfl, rfl⟩
  | succ n ih =>
      rcases traceArguments_cases k (n + 1) offset xs with
        he | ⟨_, _, _, he⟩ | ⟨b, t, r, o, c, hxs, _, he⟩
      · rw [he] at h; exact absurd h (by simp)
      · rw [he] at h; exact absurd h (by simp)
      · rw [he] at h
        cases hmore : traceArguments (k + 1) (n + 1) (offset + b.length + t.length + 2) r with
        | error e => rw [hmore] at h; exact absurd h (by simp [Except.map])
        | ok more =>
            rw [hmore] at h
            cases h
            obtain ⟨before, last, o', c', others, hr, hc', hcont, hlen⟩ := ih hmore
            refine ⟨b ++ o :: (t ++ c :: before), last, o', c', t :: others, ?_, hc',
              by simp [hcont], by simp [hlen]⟩
            rw [hxs, hr]
            simp

/-- A brace that is not closed is one of the text. -/
theorem traceArguments_unclosed {k n offset place : Nat} {xs : List Mark} {rest : Text}
    (h : traceArguments k n offset xs = .error (.unclosed place rest)) :
    offset ≤ place ∧ place < offset + xs.length := by
  induction n generalizing k offset xs with
  | zero => exact absurd h (by simp [traceArguments])
  | succ n ih =>
      rcases traceArguments_cases k n offset xs with
        he | ⟨i, _, hi, he⟩ | ⟨b, t, r, o, c, rfl, _, he⟩
      · rw [he] at h; exact absurd h (by simp)
      · rw [he] at h
        cases h
        omega
      · rw [he] at h
        cases hmore : traceArguments (k + 1) n (offset + b.length + t.length + 2) r with
        | ok more => rw [hmore] at h; exact absurd h (by simp [Except.map])
        | error e =>
            rw [hmore] at h
            cases h
            have := ih hmore
            simp only [List.length_append, List.length_cons]
            omega

/-! ## Replacing commands -/

/-- `substituteFrom` on a text with marks. -/
def traceSubstituteFrom (name : Text) (n : Nat) (replace : List (List Mark) → List Mark) :
    Nat → List Mark → List Mark → Except StageError (List Mark)
  | 0, written, unread => .ok (written ++ unread)
  | bound + 1, written, unread =>
    match findCommand? name (bytes unread) with
    | none => .ok (written ++ unread)
    | some i =>
      let start := written.length + i
      let invocation := unread.drop i
      match traceArguments 1 n (start + name.length) (invocation.drop name.length) with
      | .error defect => .error (defect.toError name start (bytes invocation))
      | .ok args =>
        traceSubstituteFrom name n replace bound
          (written ++ unread.take i ++ replace args.contents) args.rest

theorem traceSubstituteFrom_bytes (name : Text) (n : Nat) (replace : List (List Mark) → List Mark)
    (replace' : List Text → Text) (h : ∀ args, bytes (replace args) = replace' (args.map bytes))
    (bound : Nat) (written unread : List Mark) :
    (traceSubstituteFrom name n replace bound written unread).map bytes
      = substituteFrom name n replace' bound (bytes written) (bytes unread) := by
  induction bound generalizing written unread with
  | zero => simp [traceSubstituteFrom, substituteFrom, Except.map]
  | succ bound ih =>
      rw [traceSubstituteFrom, substituteFrom]
      cases hi : findCommand? name (bytes unread) with
      | none => simp [Except.map]
      | some i =>
          dsimp only
          rw [← bytes_drop, ← bytes_drop, ← traceArguments_bytes, bytes_length]
          cases traceArguments 1 n (written.length + i + name.length)
              ((unread.drop i).drop name.length) with
          | error e => rfl
          | ok args =>
              dsimp only [Except.map, MarkedArguments.plain]
              rw [← h, ← bytes_take, ← bytes_append, ← bytes_append]
              exact ih _ _

/-- A command in a text with marks begins with a backslash. -/
theorem invocation_split {name t : Text} {unread : List Mark} {i : Nat}
    (hname : name = byte '\\' :: t) (h : findCommand? name (bytes unread) = some i) :
    ∃ slash letters, slash.byte = byte '\\'
      ∧ unread = unread.take i ++ slash :: (letters ++ (unread.drop i).drop name.length) := by
  obtain ⟨r, hr⟩ := findCommand?_some h
  rw [← bytes_drop] at hr
  have htake : bytes ((unread.drop i).take name.length) = name := by
    rw [bytes_take, hr, List.take_left']
    rfl
  cases hcut : (unread.drop i).take name.length with
  | nil => rw [hcut, hname] at htake; exact absurd htake (by simp)
  | cons slash letters =>
      rw [hcut, hname, bytes_cons] at htake
      refine ⟨slash, letters, (List.cons.inj htake).1, ?_⟩
      rw [← List.cons_append, ← hcut, List.take_append_drop, List.take_append_drop]

/-- What replaces an invocation is its last argument, or nothing. -/
def KeepsLast (n : Nat) (replace : List (List Mark) → List Mark) : Prop :=
  ∀ others last, others.length = n →
    replace (others ++ [last]) = last ∨ replace (others ++ [last]) = []

/-- One invocation: the text up to its end is edited, and what is behind it is left to be read. -/
theorem invocation_edited {name t : Text} {n i offset : Nat} {unread : List Mark}
    {replace : List (List Mark) → List Mark} {args : MarkedArguments}
    (hname : name = byte '\\' :: t) (hreplace : KeepsLast n replace)
    (hi : findCommand? name (bytes unread) = some i)
    (hargs : traceArguments 1 (n + 1) offset ((unread.drop i).drop name.length) = .ok args) :
    ∃ front, unread = front ++ args.rest
      ∧ Edited front (unread.take i ++ replace args.contents) := by
  obtain ⟨slash, letters, hslash, hsplit⟩ := invocation_split hname hi
  obtain ⟨before, last, o, c, others, hrest, hc, hcont, hlen⟩ := traceArguments_ok hargs
  have hslash : Text.isLetter slash.byte = false := by rw [hslash]; decide
  have hc : Text.isLetter c.byte = false := by rw [hc]; decide
  rw [hrest] at hsplit
  refine ⟨unread.take i ++ (slash :: (letters ++ (before ++ [o])) ++ (last ++ [c])), ?_, ?_⟩
  · rw [List.append_assoc]
    simpa using hsplit
  · refine (edited_refl _).append ?_
    rw [hcont]
    rcases hreplace others last hlen with he | he
    · -- two cuts: everything in front of the last argument, and the brace behind it
      have := (edited_removed hslash (letters ++ (before ++ [o]))).append
        ((edited_refl last).append (edited_removed hc []))
      rw [he]
      simpa using this
    · rw [he, List.cons_append]
      exact edited_removed hslash _

/-- **Replacing commands edits the text**, or fails at a place of it. -/
theorem traceSubstituteFrom_spec {name t : Text} {n : Nat}
    {replace : List (List Mark) → List Mark} (hname : name = byte '\\' :: t)
    (hreplace : KeepsLast n replace) (bound : Nat) (written unread : List Mark) :
    match traceSubstituteFrom name (n + 1) replace bound written unread with
    | .ok ys => ∃ zs, ys = written ++ zs ∧ Edited unread zs
    | .error e => e.Located (written.length + unread.length) := by
  induction bound generalizing written unread with
  | zero => exact ⟨unread, rfl, edited_refl unread⟩
  | succ bound ih =>
      rw [traceSubstituteFrom]
      cases hi : findCommand? name (bytes unread) with
      | none => exact ⟨unread, rfl, edited_refl unread⟩
      | some i =>
          obtain ⟨slash, letters, _, hsplit⟩ := invocation_split hname hi
          have hlt : i < unread.length := by
            have := congrArg List.length hsplit
            simp only [List.length_append, List.length_take, List.length_cons] at this
            omega
          dsimp only
          cases hargs : traceArguments 1 (n + 1) (written.length + i + name.length)
              ((unread.drop i).drop name.length) with
          | error defect =>
              cases defect with
              | missing k =>
                  show 0 ≤ ((written.length + i : Nat) : Int) ∧ _
                  simp only [Int.natCast_nonneg, true_and, Int.ofNat_lt]
                  omega
              | unclosed place rest =>
                  obtain ⟨_, h2⟩ := traceArguments_unclosed hargs
                  show 0 ≤ (place : Int) ∧ (place : Int) < _
                  simp only [List.length_drop] at h2
                  simp only [Int.natCast_nonneg, true_and, Int.ofNat_lt]
                  omega
          | ok args =>
              dsimp only
              obtain ⟨front, hfront, hedit⟩ := invocation_edited hname hreplace hi hargs
              have hnext := ih (written ++ unread.take i ++ replace args.contents) args.rest
              split
              · rename_i ys hys
                rw [hys] at hnext
                obtain ⟨zs, rfl, hzs⟩ := hnext
                refine ⟨unread.take i ++ replace args.contents ++ zs, by simp, ?_⟩
                have := hedit.append hzs
                rwa [← hfront] at this
              · rename_i e he
                rw [he] at hnext
                -- the text has not grown, so a place in it is a place of what was given
                refine hnext.mono ?_
                have h1 := hedit.length_le
                have h2 := congrArg List.length hfront
                simp only [List.length_append] at h1 h2 ⊢
                omega

/-! ## Separators -/

theorem protectedFrom_length (name : Text) (run : Nat) (inside : Bool) (t : Text) :
    (protectedFrom name run inside t).length = t.length := by
  induction t generalizing run inside with
  | nil => cases run <;> rfl
  | cons b t ih =>
      cases run with
      | succ run => simp [protectedFrom, ih]
      | zero =>
          rw [protectedFrom]
          split
          · split <;> simp [ih]
          · simp [ih]

theorem protectedIn_length (names : List Text) (t : Text) :
    (protectedIn names t).length = t.length := by
  induction names with
  | nil => simp [protectedIn]
  | cons name names ih =>
      show (List.zipWith _ (protectedFrom name 0 false t) (protectedIn names t)).length = _
      rw [List.length_zipWith, protectedFrom_length, ih, Nat.min_self]

/-- A mark with an unprotected `&` becomes a blank. -/
def blankMark (x : Mark) (inside : Bool) : Mark :=
  if x.byte == byte '&' && !inside then ⟨byte ' ', none⟩ else x

/-- `blankSeparators` on a text with marks. -/
def traceSeparators (xs : List Mark) : List Mark :=
  List.zipWith blankMark xs (protectedIn matrixNames (bytes xs))

theorem traceSeparators_bytes (xs : List Mark) :
    bytes (traceSeparators xs) = blankSeparators (bytes xs) := by
  unfold bytes traceSeparators blankSeparators
  rw [List.map_zipWith, List.zipWith_map_left]
  congr 1
  funext x inside
  unfold blankMark
  split <;> rfl

theorem zipWith_blankMark_edited {xs : List Mark} {mask : List Bool}
    (h : mask.length = xs.length) : Edited xs (List.zipWith blankMark xs mask) := by
  induction xs generalizing mask with
  | nil => exact .done
  | cons x xs ih =>
      cases mask with
      | nil => exact absurd h (by simp)
      | cons inside mask =>
          have ih := @ih mask (by simpa using h)
          rw [List.zipWith_cons_cons, blankMark]
          split
          · rename_i hx
            have hx : Text.isLetter x.byte = false := by
              rw [eq_of_beq (Bool.and_eq_true_iff.mp hx).1]
              decide
            exact Edited.cut x [] [byte ' '] hx (by simp) ih
          · exact .keep x ih

/-- `removeCommasFrom` on a text with marks. -/
def traceCommasFrom : Bool → List Mark → List Mark
  | _, [] => []
  | odd, x :: xs =>
    if x.byte == byte ',' && !odd then traceCommasFrom false xs
    else x :: traceCommasFrom (x.byte == byte '\\' && !odd) xs

theorem traceCommasFrom_bytes (odd : Bool) (xs : List Mark) :
    bytes (traceCommasFrom odd xs) = removeCommasFrom odd (bytes xs) := by
  induction xs generalizing odd with
  | nil => rfl
  | cons x xs ih =>
      rw [traceCommasFrom, bytes_cons, removeCommasFrom]
      split
      · exact ih false
      · rw [bytes_cons, ih]

theorem traceCommasFrom_edited (odd : Bool) (xs : List Mark) :
    Edited xs (traceCommasFrom odd xs) := by
  induction xs generalizing odd with
  | nil => exact .done
  | cons x xs ih =>
      rw [traceCommasFrom]
      split
      · rename_i hx
        have hx : Text.isLetter x.byte = false := by
          rw [eq_of_beq (Bool.and_eq_true_iff.mp hx).1]
          decide
        exact (edited_removed hx []).append (ih false)
      · exact .keep x (ih _)

/-! ## Rules, passes and cleaning -/

/-- A rule on a text with marks. -/
def Rule.trace : Rule → List Mark → Except StageError (List Mark)
  | textcolor, xs =>
    traceSubstituteFrom "\\textcolor" 2 (fun args => args.getD 1 []) (xs.length + 1) [] xs
  | operators, xs =>
    .ok (traceReplaceFrom (spelled? comparisons) 0
      (traceReplaceFrom (spelled? divisions) 0 (traceReplaceFrom (spelled? multiplications) 0 xs)))
  | leftRight, xs => .ok (traceReplaceFrom sizing? 0 xs)
  | text, xs => traceSubstituteFrom "\\text" 1 (fun _ => []) (xs.length + 1) [] xs
  | spacing, xs => .ok (traceReplaceFrom spacing? 0 xs)
  | ampersand, xs => .ok (traceSeparators xs)
  | comma, xs => .ok (traceCommasFrom false xs)

/-- **Without the marks it is the rule.** -/
theorem Rule.trace_bytes (rule : Rule) (xs : List Mark) :
    (rule.trace xs).map bytes = rule.apply (bytes xs) := by
  cases rule with
  | textcolor =>
      rw [textcolor_apply, bytes_length]
      refine traceSubstituteFrom_bytes _ _ _ _ (fun args => ?_) _ _ _
      -- the second argument, if it is there
      rcases args with _ | ⟨a, _ | ⟨b, args⟩⟩ <;> rfl
  | text =>
      rw [text_apply, bytes_length]
      exact traceSubstituteFrom_bytes _ _ _ _ (fun _ => rfl) _ _ _
  | operators =>
      refine congrArg Except.ok ?_
      rw [traceReplaceFrom_bytes, traceReplaceFrom_bytes, traceReplaceFrom_bytes]
      rfl
  | leftRight => exact congrArg Except.ok (traceReplaceFrom_bytes _ _ _)
  | spacing => exact congrArg Except.ok (traceReplaceFrom_bytes _ _ _)
  | ampersand => exact congrArg Except.ok (traceSeparators_bytes xs)
  | comma => exact congrArg Except.ok (traceCommasFrom_bytes false xs)

/-- What a stage may do to a text: edit it, or fail at a place of it. -/
def Traces (xs : List Mark) (r : Except StageError (List Mark)) : Prop :=
  match r with
  | .ok ys => Edits xs ys
  | .error e => e.Located xs.length

theorem traceReplaceFrom_edits {find : Text → Option (Nat × Text)} (h : Recognises find)
    (xs : List Mark) : Edits xs (traceReplaceFrom find 0 xs) :=
  .single (traceReplaceFrom_edited h 0 xs)

theorem traceSubstitute_traces {name t : Text} {n bound : Nat}
    {replace : List (List Mark) → List Mark} (hname : name = byte '\\' :: t)
    (hreplace : KeepsLast n replace) (xs : List Mark) :
    Traces xs (traceSubstituteFrom name (n + 1) replace bound [] xs) := by
  have h := traceSubstituteFrom_spec hname hreplace bound [] xs
  unfold Traces
  split
  · rename_i ys hys
    rw [hys] at h
    obtain ⟨zs, rfl, hzs⟩ := h
    exact .single hzs
  · rename_i e he
    rw [he, List.length_nil, Nat.zero_add] at h
    exact h

/-- **Every rule edits the text**, or fails at a place of it. -/
theorem Rule.trace_traces (rule : Rule) (xs : List Mark) : Traces xs (rule.trace xs) := by
  cases rule with
  | textcolor =>
      refine traceSubstitute_traces rfl (fun others last hlen => Or.inl ?_) xs
      obtain ⟨a, rfl⟩ := List.length_eq_one_iff.mp hlen
      rfl
  | text => exact traceSubstitute_traces rfl (fun _ _ _ => Or.inr rfl) xs
  | operators =>
      exact ((traceReplaceFrom_edits (spelled?_recognises (by decide)) _).trans
        (traceReplaceFrom_edits (spelled?_recognises (by decide)) _)).trans
        (traceReplaceFrom_edits (spelled?_recognises (by decide)) _)
  | leftRight => exact traceReplaceFrom_edits sizing?_recognises xs
  | spacing => exact traceReplaceFrom_edits spacing?_recognises xs
  | ampersand =>
      refine .single (zipWith_blankMark_edited ?_)
      rw [protectedIn_length, bytes_length]
  | comma => exact .single (traceCommasFrom_edited false xs)

end Cleaning

end MathMarkup
