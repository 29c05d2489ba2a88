import MathMarkup.Bracket

/-!
# Properly nested texts

`Bracket.findEnd` counts brackets of one kind and is blind to the other two. That is enough whenever
the text between a bracket and its partner is nested properly in all three kinds together, and this
file says why: reading such a text leaves every count where it was, so the scan for a closing
bracket walks over it (`closeOffset?_nested`) and stops at the partner (`findEnd_around`).

`openAfter` is the reading with a stack. A text is `Nested` when it takes the empty stack to itself.
-/

namespace MathMarkup.Bracket

theorem ofOpening?_eq_some_iff {b : UInt8} {k : Bracket} :
    ofOpening? b = some k ↔ b = k.opening := by
  constructor
  · intro h
    unfold ofOpening? at h
    split at h
    · rename_i hb; cases h; exact eq_of_beq hb
    · split at h
      · rename_i hb; cases h; exact eq_of_beq hb
      · split at h
        · rename_i hb; cases h; exact eq_of_beq hb
        · exact absurd h (by simp)
  · rintro rfl
    cases k <;> decide

theorem ofClosing?_eq_some_iff {b : UInt8} {k : Bracket} :
    ofClosing? b = some k ↔ b = k.closing := by
  constructor
  · intro h
    unfold ofClosing? at h
    split at h
    · rename_i hb; cases h; exact eq_of_beq hb
    · split at h
      · rename_i hb; cases h; exact eq_of_beq hb
      · split at h
        · rename_i hb; cases h; exact eq_of_beq hb
        · exact absurd h (by simp)
  · rintro rfl
    cases k <;> decide

@[simp] theorem ofOpening?_opening (k : Bracket) : ofOpening? k.opening = some k :=
  ofOpening?_eq_some_iff.mpr rfl

@[simp] theorem ofClosing?_closing (k : Bracket) : ofClosing? k.closing = some k :=
  ofClosing?_eq_some_iff.mpr rfl

@[simp] theorem ofOpening?_closing (k : Bracket) : ofOpening? k.closing = none := by
  cases k <;> decide

theorem opening_ne_closing (j k : Bracket) : j.opening ≠ k.closing := by
  cases j <;> cases k <;> decide

theorem opening_injective {j k : Bracket} (h : j.opening = k.opening) : j = k := by
  have := ofOpening?_opening j
  rw [h, ofOpening?_opening] at this
  exact (Option.some.inj this).symm

theorem closing_injective {j k : Bracket} (h : j.closing = k.closing) : j = k := by
  have := ofClosing?_closing j
  rw [h, ofClosing?_closing] at this
  exact (Option.some.inj this).symm

/-! ## Reading with a stack -/

/-- The open brackets after one more byte, innermost first; none if the byte closes a bracket that
is not the innermost open one. -/
def step (stack : List Bracket) (b : UInt8) : Option (List Bracket) :=
  match ofOpening? b, ofClosing? b, stack with
  | some k, _, _ => some (k :: stack)
  | none, none, _ => some stack
  | none, some _, [] => none
  | none, some k, top :: rest => if top = k then some rest else none

/-- The open brackets after a text is read, innermost first. -/
def openAfter (stack : List Bracket) (t : Text) : Option (List Bracket) := t.foldlM step stack

/-- Every closing bracket closes the one opened last, and none is left open. -/
def Nested (t : Text) : Prop := openAfter [] t = some []

/-- The end of a text lies between a bracket and its partner. -/
def Inside (t : Text) : Prop := ∃ k stack, openAfter [] t = some (k :: stack)

@[simp] theorem step_opening (stack : List Bracket) (k : Bracket) :
    step stack k.opening = some (k :: stack) := by simp [step]

@[simp] theorem step_closing (stack : List Bracket) (k : Bracket) :
    step (k :: stack) k.closing = some stack := by simp [step]

/-- A byte that is no bracket leaves the stack alone. -/
theorem step_other {b : UInt8} (ho : ofOpening? b = none) (hc : ofClosing? b = none)
    (stack : List Bracket) : step stack b = some stack := by simp [step, ho, hc]

/-- What a byte can do to the stack. -/
theorem step_cases {stack stack' : List Bracket} {b : UInt8} (h : step stack b = some stack') :
    (∃ k, b = k.opening ∧ stack' = k :: stack)
      ∨ (∃ k, b = k.closing ∧ stack = k :: stack')
      ∨ (ofOpening? b = none ∧ ofClosing? b = none ∧ stack' = stack) := by
  unfold step at h
  split at h
  · rename_i k hk
    exact Or.inl ⟨k, ofOpening?_eq_some_iff.mp hk, (Option.some.inj h).symm⟩
  · rename_i ho hc
    exact Or.inr (Or.inr ⟨ho, hc, (Option.some.inj h).symm⟩)
  · exact absurd h (by simp)
  · rename_i k top rest _ hk
    split at h
    · rename_i htop
      subst htop
      exact Or.inr (Or.inl ⟨top, ofClosing?_eq_some_iff.mp hk, by rw [Option.some.inj h]⟩)
    · exact absurd h (by simp)

@[simp] theorem openAfter_nil (stack : List Bracket) : openAfter stack [] = some stack := rfl

@[simp] theorem openAfter_cons (stack : List Bracket) (b : UInt8) (t : Text) :
    openAfter stack (b :: t) = (step stack b).bind fun stack' => openAfter stack' t := rfl

theorem openAfter_append (stack : List Bracket) (t u : Text) :
    openAfter stack (t ++ u) = (openAfter stack t).bind fun stack' => openAfter stack' u := by
  simp [openAfter, List.foldlM_append]

/-- Brackets that were open before stay out of the way. -/
theorem openAfter_frame {t : Text} {stack stack' : List Bracket} (base : List Bracket)
    (h : openAfter stack t = some stack') :
    openAfter (stack ++ base) t = some (stack' ++ base) := by
  induction t generalizing stack with
  | nil => cases h; rfl
  | cons b t ih =>
      rw [openAfter_cons] at h ⊢
      obtain ⟨mid, hmid, hrest⟩ := Option.bind_eq_some_iff.mp h
      -- a step looks at the top of the stack only
      have hstep : step (stack ++ base) b = some (mid ++ base) := by
        rcases step_cases hmid with ⟨k, rfl, rfl⟩ | ⟨k, rfl, rfl⟩ | ⟨ho, hc, rfl⟩
        · simp
        · simp
        · exact step_other ho hc _
      rw [hstep]
      exact ih hrest

theorem Nested.openAfter_eq {t : Text} (h : Nested t) (stack : List Bracket) :
    openAfter stack t = some stack := openAfter_frame stack h

theorem Nested.append {t u : Text} (ht : Nested t) (hu : Nested u) : Nested (t ++ u) := by
  unfold Nested
  rw [openAfter_append, ht]
  exact hu

/-- A text without brackets is nested. -/
theorem nested_of_no_brackets {t : Text}
    (h : ∀ b ∈ t, ofOpening? b = none ∧ ofClosing? b = none) : Nested t := by
  induction t with
  | nil => rfl
  | cons b t ih =>
      unfold Nested
      obtain ⟨ho, hc⟩ := h b (by simp)
      rw [openAfter_cons, step_other ho hc]
      exact ih fun c hc => h c (by simp [hc])

/-- A text in a pair of brackets. -/
def around (k : Bracket) (t : Text) : Text := k.opening :: (t ++ [k.closing])

theorem around_append (k : Bracket) (t r : Text) :
    k.around t ++ r = k.opening :: (t ++ k.closing :: r) := by simp [around]

@[simp] theorem around_length (k : Bracket) (t : Text) : (k.around t).length = t.length + 2 := by
  simp [around]

/-- A nested text in a pair of brackets is nested. -/
theorem Nested.around {t : Text} (k : Bracket) (h : Nested t) : Nested (k.around t) := by
  unfold Nested Bracket.around
  rw [openAfter_cons, step_opening]
  show openAfter [k] (t ++ [k.closing]) = some []
  rw [openAfter_append, h.openAfter_eq]
  simp

/-- Every beginning of a text that can be read can be read. -/
theorem openAfter_left {t u : Text} {stack stack' : List Bracket}
    (h : openAfter stack (t ++ u) = some stack') : ∃ mid, openAfter stack t = some mid := by
  rw [openAfter_append] at h
  obtain ⟨mid, hmid, _⟩ := Option.bind_eq_some_iff.mp h
  exact ⟨mid, hmid⟩

/-! ## The scan for a closing bracket -/

theorem closeOffset?_cons (k : Bracket) (d : Nat) (b : UInt8) (r : Text) :
    closeOffset? k d (b :: r) =
      if b == k.opening then (closeOffset? k (d + 1) r).map (· + 1)
      else if b == k.closing then
        match d with
        | 0 => some 0
        | outer + 1 => (closeOffset? k outer r).map (· + 1)
      else (closeOffset? k d r).map (· + 1) := by
  cases d <;> rfl

/--
The scan for a closing bracket of one kind walks over any text that can be read with the stack: it
counts exactly the brackets of its kind on the stack.
-/
theorem closeOffset?_append {k : Bracket} {t r : Text} {stack stack' : List Bracket} {d : Nat}
    (h : openAfter stack t = some stack') :
    closeOffset? k (stack.count k + d) (t ++ r)
      = (closeOffset? k (stack'.count k + d) r).map (· + t.length) := by
  induction t generalizing stack with
  | nil => cases h; simp
  | cons b t ih =>
      rw [openAfter_cons] at h
      obtain ⟨mid, hmid, hrest⟩ := Option.bind_eq_some_iff.mp h
      have ih := ih hrest
      have hlen : (fun n => n + 1) ∘ (fun n => n + t.length) = fun n => n + (b :: t).length := by
        funext n; simp [Nat.add_assoc]
      rw [List.cons_append, closeOffset?_cons]
      rcases step_cases hmid with ⟨j, rfl, rfl⟩ | ⟨j, rfl, rfl⟩ | ⟨ho, hc, rfl⟩
      · by_cases hj : j = k
        · subst hj
          rw [List.count_cons_self, Nat.add_right_comm] at ih
          rw [if_pos (beq_self_eq_true _), ih, Option.map_map, hlen]
        · -- a bracket of another kind opens: nothing is counted
          rw [List.count_cons_of_ne hj] at ih
          rw [if_neg (by simpa using fun he => hj (opening_injective he)),
            if_neg (by simpa using opening_ne_closing j k), ih, Option.map_map, hlen]
      · have hne : ¬ (j.closing == k.opening) = true := by
          simpa using fun he => opening_ne_closing k j he.symm
        rw [if_neg hne]
        by_cases hj : j = k
        · -- the scan closes one, and there is one to close: it has been counted
          subst hj
          rw [if_pos (beq_self_eq_true _), List.count_cons_self, Nat.add_right_comm]
          dsimp only
          rw [ih, Option.map_map, hlen]
        · rw [List.count_cons_of_ne hj,
            if_neg (by simpa using fun he => hj (closing_injective he)), ih, Option.map_map, hlen]
      · have hno : ¬ (b == k.opening) = true := by
          intro he; rw [eq_of_beq he] at ho; simp at ho
        have hnc : ¬ (b == k.closing) = true := by
          intro he; rw [eq_of_beq he] at hc; simp at hc
        rw [if_neg hno, if_neg hnc, ih, Option.map_map, hlen]

/-- A nested text behind an open bracket is passed over, and its partner is found. -/
theorem closeOffset?_nested {k : Bracket} {t : Text} (h : Nested t) (r : Text) :
    closeOffset? k 0 (t ++ k.closing :: r) = some t.length := by
  have hscan := closeOffset?_append (k := k) (r := k.closing :: r) (d := 0) h
  rw [List.count_nil, Nat.zero_add] at hscan
  have hne : ¬ (k.closing == k.opening) = true := by
    simpa using fun he => opening_ne_closing k k he.symm
  rw [hscan, closeOffset?_cons, if_neg hne, if_pos (beq_self_eq_true _)]
  simp

/-- **The partner of a bracket around a nested text is the one behind it.** -/
theorem findEnd_around {k : Bracket} {t : Text} (h : Nested t) (r : Text) :
    findEnd (k.around t ++ r) 0 = .ok (t.length + 1) := by
  rw [around_append]
  simp [findEnd, closeOffset?_nested h, Nat.add_comm]

/-- What stands between a bracket and its partner is the nested text itself. -/
theorem inner_around {k : Bracket} {t : Text} (h : Nested t) (r : Text) :
    inner (k.around t ++ r) 0 = .ok t := by
  unfold inner
  rw [findEnd_around h, around_append]
  simp [Text.slice, bind, Except.bind, pure, Except.pure]

end MathMarkup.Bracket
