import MathMarkup.Grammar.Group

/-!
# Looking ahead

A definition is recognised before any of it is read: by its letter, what stands between the letter
and the variable, and the equals sign behind the bracket that closes the variable. Only round
brackets are counted to find that bracket. It is the right one as long as the tokens between leave
the count as it is (`Level`), which is so for all tokens that are read there.
-/

namespace MathMarkup.Grammar

variable {t o z : Token} {xs ys ts : List Token} {name : FunctionName}

theorem isCommand_of_kind {t : Token} (hk : t.kind ≠ .command) (names : List Text) :
    t.isCommand names = false := by
  unfold Token.isCommand
  rw [show (t.kind == .command) = false from beq_false_of_ne hk, Bool.false_and]

theorem isCommand_iff {names : List Text} :
    t.isCommand names = true ↔ t.kind = .command ∧ t.text ∈ names := by
  unfold Token.isCommand
  rw [Bool.and_eq_true, beq_iff_eq, List.contains_iff_mem]

theorem Token.isChar_text {t : Token} {c : Text} (h : t.isChar c = true) :
    t.kind = .char ∧ t.text = c := by
  unfold Token.isChar at h
  rw [Bool.and_eq_true, beq_iff_eq, beq_iff_eq] at h
  exact h

/-! ## Where a round bracket closes -/

theorem matchingParen?_cons (d : Nat) (t : Token) (ts : List Token) :
    matchingParen? d (t :: ts) =
      if t.kind == .opening .round then (matchingParen? (d + 1) ts).map (· + 1)
      else if t.kind == .closing .round then
        match d with
        | 0 => none
        | 1 => some 0
        | outer + 2 => (matchingParen? (outer + 1) ts).map (· + 1)
      else (matchingParen? d ts).map (· + 1) := by
  rcases d with _ | _ | d <;> rfl

theorem matchingParen?_other {t : Token} (ho : t.kind ≠ .opening .round)
    (hz : t.kind ≠ .closing .round) (d : Nat) (ts : List Token) :
    matchingParen? d (t :: ts) = (matchingParen? d ts).map (· + 1) := by
  rw [matchingParen?_cons, if_neg (by simpa using ho), if_neg (by simpa using hz)]

theorem matchingParen?_opening (ho : o.kind = .opening .round) (d : Nat) (ts : List Token) :
    matchingParen? d (o :: ts) = (matchingParen? (d + 1) ts).map (· + 1) := by
  rw [matchingParen?_cons, if_pos (by simpa using ho)]

theorem matchingParen?_closing (hz : z.kind = .closing .round) (d : Nat) (ts : List Token) :
    matchingParen? (d + 2) (z :: ts) = (matchingParen? (d + 1) ts).map (· + 1) := by
  rw [matchingParen?_cons, if_neg (by rw [hz]; simp), if_pos (by simpa using hz)]

theorem matchingParen?_last (hz : z.kind = .closing .round) (ts : List Token) :
    matchingParen? 1 (z :: ts) = some 0 := by
  rw [matchingParen?_cons, if_neg (by rw [hz]; simp), if_pos (by simpa using hz)]

/-- Tokens that the count of round brackets passes over. -/
def Level (xs : List Token) : Prop :=
  ∀ d ys, matchingParen? (d + 1) (xs ++ ys) = (matchingParen? (d + 1) ys).map (· + xs.length)

theorem level_nil : Level [] := by
  intro d ys
  simp

theorem Level.append (hx : Level xs) (hy : Level ys) : Level (xs ++ ys) := by
  intro d zs
  rw [List.append_assoc, hx, hy, Option.map_map, List.length_append]
  congr 1
  funext i
  exact (Nat.add_assoc i _ _).trans (congrArg (i + ·) (Nat.add_comm _ _))

theorem level_other {t : Token} (ho : t.kind ≠ .opening .round) (hz : t.kind ≠ .closing .round) :
    Level [t] := by
  intro d ys
  exact matchingParen?_other ho hz (d + 1) ys

theorem level_of_forall (h : ∀ t ∈ xs, t.kind ≠ .opening .round ∧ t.kind ≠ .closing .round) :
    Level xs := by
  induction xs with
  | nil => exact level_nil
  | cons t ts ih =>
      have ht := h t (by simp)
      exact (level_other ht.1 ht.2).append (ih fun u hu => h u (List.mem_cons_of_mem _ hu))

theorem Level.round (ho : o.kind = .opening .round) (hx : Level xs)
    (hz : z.kind = .closing .round) : Level (o :: (xs ++ [z])) := by
  intro d ys
  rw [List.cons_append, List.append_assoc, List.singleton_append, matchingParen?_opening ho, hx,
    matchingParen?_closing hz, Option.map_map, Option.map_map]
  congr 1
  funext i
  rw [List.length_cons, List.length_append, List.length_singleton]
  dsimp only [Function.comp_apply]
  omega

theorem Level.group {k : Bracket} (ho : o.kind = .opening k) (hx : Level xs)
    (hz : z.kind = .closing k) : Level (o :: (xs ++ [z])) := by
  by_cases hk : k = .round
  · subst hk
    exact hx.round ho hz
  · have hopen : Level [o] := level_other (by rw [ho]; simpa using hk) (by rw [ho]; simp)
    have hclose : Level [z] := level_other (by rw [hz]; simp) (by rw [hz]; simpa using hk)
    exact hopen.append (hx.append hclose)

/-- A group is the variable of a definition if an equals sign stands behind it. -/
theorem startsVariable_group (ho : o.kind = .opening .round) (hx : Level xs)
    (hz : z.kind = .closing .round) (zs : List Token) :
    startsVariable (o :: (xs ++ z :: zs)) = zs.head?.any (·.isChar "=") := by
  have hparen : matchingParen? 0 (o :: (xs ++ z :: zs)) = some (xs.length + 1) := by
    rw [matchingParen?_opening ho, hx, matchingParen?_last hz]
    simp
  have hget : (o :: (xs ++ z :: zs))[xs.length + 1 + 1]? = zs.head? := by
    rw [List.getElem?_cons_succ, List.getElem?_append_right (by omega),
      show xs.length + 1 - xs.length = 1 by omega, List.getElem?_cons_succ, List.head?_eq_getElem?]
  unfold startsVariable
  dsimp only
  rw [hparen]
  dsimp only
  rw [hget, ho]
  simp

/-- A variable that is closed has an equals sign behind it. -/
theorem startsVariable_sign {zs : List Token} (ho : o.kind = .opening .round) (hx : Level xs)
    (hz : z.kind = .closing .round) (hv : startsVariable (o :: (xs ++ z :: zs)) = true) :
    ∃ e ys, zs = e :: ys ∧ e.isChar "=" = true := by
  rw [startsVariable_group ho hx hz] at hv
  cases zs with
  | nil => exact absurd hv (by simp)
  | cons e ys => exact ⟨e, ys, rfl, by simpa using hv⟩

/-- A variable begins with a round bracket. -/
theorem startsVariable_opening (hv : startsVariable ts = true) :
    ∃ o us, ts = o :: us ∧ o.kind = .opening .round := by
  cases ts with
  | nil => exact absurd hv (by simp [startsVariable])
  | cons o us =>
      unfold startsVariable at hv
      rw [Bool.and_eq_true, beq_iff_eq] at hv
      exact ⟨o, us, rfl, hv.1⟩

/-- The parts of a definition that is found. -/
theorem definitionHead?_split {width : Nat} (hd : definitionHead? ts = some (name, width)) :
    ∃ f mid rest, ts = f :: (mid ++ rest) ∧ f.isLetter = true ∧ width = mid.length + 1
      ∧ startsVariable rest = true
      ∧ ((name = .definition ∧ mid = []) ∨ (name = .inverseDefinition ∧ ∃ a b c d e,
        mid = [a, b, c, d, e] ∧ a.kind = .caret ∧ b.kind = .opening .curly
        ∧ c.isChar "-" = true ∧ d.isChar "1" = true ∧ e.kind = .closing .curly)) := by
  cases ts with
  | nil => exact absurd hd (by simp [definitionHead?])
  | cons f ts =>
      unfold definitionHead? at hd
      dsimp only at hd
      split at hd
      · exact absurd hd (by simp)
      rename_i hf
      have hf : f.isLetter = true := by simpa using hf
      split at hd
      · rename_i hinverse
        split at hd
        · rename_i hvariable
          cases hd
          unfold startsInverse at hinverse
          split at hinverse
          · rename_i a b c d e ts
            simp only [Bool.and_eq_true, beq_iff_eq] at hinverse
            obtain ⟨⟨⟨⟨ha, hb⟩, hc⟩, hd⟩, he⟩ := hinverse
            exact ⟨f, [a, b, c, d, e], ts, rfl, hf, rfl, hvariable,
              Or.inr ⟨rfl, a, b, c, d, e, rfl, ha, hb, hc, hd, he⟩⟩
          · exact absurd hinverse (by simp)
        · exact absurd hd (by simp)
      · split at hd
        · rename_i hvariable
          cases hd
          exact ⟨f, [], ts, rfl, hf, rfl, hvariable, Or.inl ⟨rfl, rfl⟩⟩
        · exact absurd hd (by simp)

end MathMarkup.Grammar
