import MathMarkup.Proofs.Literal
import MathMarkup.Solver.Render

/-!
# Solver syntax as text

What a text in solver syntax looks like, byte for byte: brackets of all kinds are nested, the signs
of markup are gone, the only blanks are the spaces of argument lists, and commas stand in brackets
(`Written`). The property is kept by everything that rendering does to put texts together.

The shape of a text is what rendering an argument depends on. A text that begins with a bracket is
`Closed` if that bracket closes at its end; then stripping gives what stands in the brackets.
-/

namespace MathMarkup

open MathMarkup.Bracket (Nested Inside openAfter)
open MathMarkup.Text (byte)

/-- A text in solver syntax. Commas outside of all brackets are let pass if asked for. -/
structure Written (commas : Bool) (t : Text) : Prop where
  nested : Nested t
  /-- The signs of markup are gone. -/
  signs : ∀ b ∈ t, b ≠ byte '\\' ∧ b ≠ byte '|' ∧ b ≠ byte '&'
  /-- A blank is a space directly behind a comma. -/
  blanks : ∀ u b v, t = u ++ b :: v → Text.isBlank b = true →
    b = byte ' ' ∧ u.getLast? = some (byte ',')
  /-- A comma stands in brackets. -/
  commas : ∀ u v, t = u ++ byte ',' :: v → commas = false → Inside u

variable {commas : Bool} {t u : Text}

theorem Written.loosen (h : Written commas t) : Written true t :=
  ⟨h.nested, h.signs, h.blanks, fun _ _ _ hc => absurd hc (by simp)⟩

theorem written_literal (h : LiteralText commas t) : Written commas t where
  nested := h.nested
  signs b hb := ⟨(h b hb).slash, (h b hb).pipe, (h b hb).ampersand⟩
  blanks u b v ht hb := by
    have hlit := (h b (by rw [ht]; simp)).blank
    rw [hb] at hlit
    exact absurd hlit (by simp)
  commas u v ht hc := by
    have hlit := (h (byte ',') (by rw [ht]; simp)).comma rfl
    rw [hc] at hlit
    exact absurd hlit (by simp)

theorem written_nil : Written commas [] := written_literal fun _ hb => absurd hb (by simp)

/-- A byte of two texts one after the other is a byte of one of them. -/
theorem split_append {v w : Text} {b : UInt8} (h : t ++ u = v ++ b :: w) :
    (∃ w', t = v ++ b :: w') ∨ ∃ v', v = t ++ v' ∧ u = v' ++ b :: w := by
  rcases List.append_eq_append_iff.mp h with ⟨v', hv, hu⟩ | ⟨c, ht, hc⟩
  · exact Or.inr ⟨v', hv, hu⟩
  · cases c with
    | nil => exact Or.inr ⟨[], by simpa using ht.symm, by simpa using hc.symm⟩
    | cons x c =>
        obtain ⟨rfl, rfl⟩ := List.cons.inj hc
        exact Or.inl ⟨c, ht⟩

theorem Written.append (ht : Written commas t) (hu : Written commas u) :
    Written commas (t ++ u) where
  nested := ht.nested.append hu.nested
  signs b hb := by
    rcases List.mem_append.mp hb with hb | hb
    · exact ht.signs b hb
    · exact hu.signs b hb
  blanks v b w h hb := by
    rcases split_append h with ⟨w', hw⟩ | ⟨v', rfl, hv⟩
    · exact ht.blanks v b w' hw hb
    · obtain ⟨hspace, hlast⟩ := hu.blanks v' b w hv hb
      exact ⟨hspace, by rw [List.getLast?_append, hlast]; rfl⟩
  commas v w h hc := by
    rcases split_append h with ⟨w', hw⟩ | ⟨v', rfl, hv⟩
    · exact ht.commas v w' hw hc
    · -- what was read before left no bracket open
      obtain ⟨k, stack, hopen⟩ := hu.commas v' w hv hc
      exact ⟨k, stack, by rw [Bracket.openAfter_append, ht.nested]; exact hopen⟩

theorem written_flatten {ts : List Text} (h : ∀ t ∈ ts, Written commas t) :
    Written commas ts.flatten := by
  induction ts with
  | nil => exact written_nil
  | cons t ts ih =>
      rw [List.flatten_cons]
      exact (h t (by simp)).append (ih fun u hu => h u (List.mem_cons_of_mem _ hu))

/-- A byte between the brackets around a text is a byte of the text. -/
theorem split_around {k : Bracket} {v w : Text} {b : UInt8} (h : k.around t = v ++ b :: w)
    (ho : b ≠ k.opening) (hc : b ≠ k.closing) :
    ∃ v' w', v = k.opening :: v' ∧ t = v' ++ b :: w' := by
  cases v with
  | nil => exact absurd (List.cons.inj h).1.symm ho
  | cons x v =>
      obtain ⟨rfl, h'⟩ := List.cons.inj h
      rcases split_append h' with ⟨w', hw⟩ | ⟨v', rfl, hv⟩
      · exact ⟨v, w', rfl, hw⟩
      · cases v' with
        | nil => exact absurd (List.cons.inj hv).1.symm hc
        | cons y v' => exact absurd (List.cons.inj hv).2 (by simp)

/-- **In brackets commas are welcome.** -/
theorem Written.around (h : Written true t) (k : Bracket) : Written commas (k.around t) where
  nested := h.nested.around k
  signs b hb := by
    simp only [Bracket.around, List.mem_cons, List.mem_append, List.not_mem_nil, or_false] at hb
    rcases hb with rfl | hb | rfl
    · cases k <;> decide
    · exact h.signs b hb
    · cases k <;> decide
  blanks v b w ht hb := by
    -- a blank is no bracket, so it is one of the text
    have ho : b ≠ k.opening := by
      rintro rfl
      exact absurd hb (by cases k <;> decide)
    have hc : b ≠ k.closing := by
      rintro rfl
      exact absurd hb (by cases k <;> decide)
    obtain ⟨v', w', rfl, rfl⟩ := split_around ht ho hc
    obtain ⟨hspace, hlast⟩ := h.blanks v' b w' rfl hb
    exact ⟨hspace, by rw [List.getLast?_cons, hlast]; rfl⟩
  commas v w ht _ := by
    have ho : byte ',' ≠ k.opening := by cases k <;> decide
    have hc : byte ',' ≠ k.closing := by cases k <;> decide
    obtain ⟨v', w', rfl, rfl⟩ := split_around ht ho hc
    -- the bracket in front is still open, whatever stands in between
    obtain ⟨stack, hstack⟩ := Bracket.openAfter_left h.nested
    have := Bracket.openAfter_frame [k] hstack
    rw [List.nil_append] at this
    cases stack with
    | nil => exact ⟨k, [], by rw [Bracket.openAfter_cons, Bracket.step_opening]; exact this⟩
    | cons j stack =>
        exact ⟨j, stack ++ [k], by rw [Bracket.openAfter_cons, Bracket.step_opening]; exact this⟩

/-! ## Calls -/

/-- The separators of argument lists and of rows. -/
theorem written_comma : Written true "," := written_literal (fun b hb => by
  rw [List.mem_singleton.mp (show b ∈ [byte ','] from hb)]
  exact ⟨by decide, by decide, by decide, by decide, by decide, by decide, fun _ => rfl⟩)

theorem written_commaSpace : Written true ", " where
  nested := rfl
  signs b hb := by
    have hb : b ∈ [byte ',', byte ' '] := hb
    simp only [List.mem_cons, List.not_mem_nil, or_false] at hb
    rcases hb with rfl | rfl <;> decide
  blanks v b w h hb := by
    have h : [byte ',', byte ' '] = v ++ b :: w := h
    cases v with
    | nil =>
        obtain ⟨rfl, _⟩ := List.cons.inj h
        exact absurd hb (by decide)
    | cons x v =>
        obtain ⟨rfl, h'⟩ := List.cons.inj h
        cases v with
        | nil => exact ⟨(List.cons.inj h').1.symm, rfl⟩
        | cons y v => exact absurd (List.cons.inj h').2 (by simp)
  commas _ _ _ hc := absurd hc (by simp)

/-- What holds of two texts one after the other if it holds of both holds of a list of texts. -/
theorem join_of_append {P : Text → Prop} {sep : Text} {ts : List Text} (hnil : P [])
    (happend : ∀ {t u : Text}, P t → P u → P (t ++ u)) (hsep : P sep) (h : ∀ t ∈ ts, P t) :
    P (Text.join sep ts) := by
  unfold Text.join
  induction ts with
  | nil => exact hnil
  | cons t ts ih =>
      cases ts with
      | nil => simpa using h t (by simp)
      | cons t' ts =>
          rw [List.intercalate_cons_cons]
          have htail := ih fun x hx => h x (List.mem_cons_of_mem _ hx)
          exact happend (happend (h t (by simp)) hsep) htail

theorem written_join {sep : Text} {ts : List Text} (hsep : Written true sep)
    (h : ∀ t ∈ ts, Written true t) : Written true (Text.join sep ts) :=
  join_of_append written_nil (fun ht hu => ht.append hu) hsep h

namespace Solver

/-- A name with something in round brackets behind it. -/
theorem applied_eq (name t : Text) :
    name ++ Text.ofString "(" ++ t ++ Text.ofString ")" = name ++ Bracket.around .round t := by
  have ho : Text.ofString "(" = [Bracket.round.opening] := by decide
  have hc : Text.ofString ")" = [Bracket.round.closing] := by decide
  rw [ho, hc]
  simp [Bracket.around]

theorem call_eq (name : Text) (args : List Text) :
    call name args = name ++ Bracket.around .round (Text.join ", " args) := applied_eq _ _

theorem call_written {name : Text} {args : List Text} (hname : isPlain name = true)
    (h : ∀ t ∈ args, Written true t) : Written commas (call name args) := by
  rw [call_eq]
  exact (written_literal (literalText_of_isPlain hname)).append
    ((written_join written_commaSpace h).around .round)

end Solver

/-! ## Brackets at the beginning -/

/-- A bracket at the beginning closes at the end. -/
def Closed (commas : Bool) (t : Text) : Prop :=
  ∀ (k : Bracket) (r : Text), t = k.opening :: r → ∃ body, t = k.around body ∧ Written commas body

theorem closed_around (h : Written commas t) (k : Bracket) : Closed commas (k.around t) := by
  intro j r hr
  obtain rfl := Bracket.opening_injective (List.cons.inj hr).1
  exact ⟨t, rfl, h⟩

theorem closed_literal (h : LiteralText commas t) (hne : t ≠ []) (u : Text) :
    Closed commas (t ++ u) := by
  intro k r hr
  cases t with
  | nil => exact absurd rfl hne
  | cons b t =>
      have hb := (h b (by simp)).opening
      rw [(List.cons.inj hr).1, Bracket.ofOpening?_opening] at hb
      exact absurd hb (by simp)

namespace Solver

/-- The way a power is written: its base in brackets, then the exponent. -/
theorem power_eq (base exponent : Text) :
    power base exponent = Bracket.around .curly base ++ byte '^' :: exponent := by
  have ho : Text.ofString "\x7b" = [Bracket.curly.opening] := by decide
  have hc : Text.ofString "\x7d^" = [Bracket.curly.closing, byte '^'] := by decide
  show Text.ofString "\x7b" ++ base ++ Text.ofString "\x7d^" ++ exponent = _
  rw [ho, hc]
  simp [Bracket.around]

theorem power_written {base exponent : Text} (hb : Written commas base)
    (he : Written commas exponent) : Written commas (power base exponent) := by
  have hcaret : Written commas [byte '^'] :=
    written_literal (literalText_of_isPlain (by decide))
  rw [power_eq]
  exact (hb.loosen.around .curly).append (hcaret.append he)

/-- Stripping a text whose first bracket closes at its end leaves what stands in the brackets. -/
theorem stripArgument_closed (hw : Written commas t) (hc : Closed commas t) :
    ∃ u, stripArgument t = .ok u ∧ Written commas u := by
  cases t with
  | nil => exact ⟨[], rfl, hw⟩
  | cons b r =>
      unfold stripArgument
      split
      · rename_i hhead
        -- only curly and square brackets are stripped
        have hopen : ∃ k : Bracket, b = k.opening := by
          rcases Bool.or_eq_true_iff.mp hhead with h | h
          · exact ⟨.curly, eq_of_beq h⟩
          · exact ⟨.square, eq_of_beq h⟩
        obtain ⟨k, rfl⟩ := hopen
        obtain ⟨body, hbody, hwritten⟩ := hc k r rfl
        have hinner := Bracket.inner_around (k := k) hwritten.nested []
        rw [List.append_nil] at hinner
        exact ⟨body, by rw [hbody, hinner]; rfl, hwritten⟩
      · exact ⟨b :: r, rfl, hw⟩

/-- Stripping a power leaves its base: the exponent is lost. -/
theorem stripArgument_power {base : Text} (h : Nested base) (exponent : Text) :
    stripArgument (power base exponent) = .ok base := by
  have hhead : (power base exponent).head? = some Bracket.curly.opening := by
    rw [power_eq]; rfl
  unfold stripArgument
  rw [hhead, if_pos (by decide), power_eq, Bracket.inner_around h]
  rfl

/-! ## Written forms -/

/-- A written form that is there, and is closed. -/
def Formed (commas : Bool) (r : Option (Except DelimiterError Text)) : Prop :=
  ∃ t, r = some (.ok t) ∧ Written commas t ∧ Closed commas t

theorem formed_call {name : Text} {args : List Text} (hname : isPlain name = true)
    (hne : name ≠ []) (h : ∀ t ∈ args, Written commas t) :
    Formed commas (some (.ok (call name args))) := by
  refine ⟨_, rfl, call_written hname fun t ht => (h t ht).loosen, ?_⟩
  rw [call_eq]
  exact closed_literal (literalText_of_isPlain hname) hne _

/-- A named function has any literal name, also an empty one. -/
theorem formed_regular {f x : Text} (hf : LiteralText commas f) (hx : Written commas x) :
    Formed commas (format? .regular [f, x]) := by
  refine ⟨f ++ Bracket.around .round x, ?_, ?_, ?_⟩
  · rw [← applied_eq]; rfl
  · exact (written_literal hf).append (hx.loosen.around .round)
  · by_cases hnil : f = []
    · -- without a name the text begins with the bracket itself, which closes at the end
      subst hnil
      exact closed_around hx .round
    · exact closed_literal hf hnil _

/-- The way a fraction is written: both of its parts and the whole in curly brackets. -/
theorem fraction_eq (a b : Text) :
    format? .fraction [a, b]
      = some (.ok (Bracket.around .curly
          (Bracket.around .curly a ++ byte '/' :: Bracket.around .curly b))) := by
  have ho : Text.ofString "\x7b\x7b" = [Bracket.curly.opening, Bracket.curly.opening] := by decide
  have hm : Text.ofString "\x7d/\x7b"
      = [Bracket.curly.closing, byte '/', Bracket.curly.opening] := by decide
  have hc : Text.ofString "\x7d\x7d" = [Bracket.curly.closing, Bracket.curly.closing] := by decide
  have heq : Text.ofString "\x7b\x7b" ++ a ++ Text.ofString "\x7d/\x7b" ++ b
      ++ Text.ofString "\x7d\x7d"
      = Bracket.around .curly (Bracket.around .curly a ++ byte '/' :: Bracket.around .curly b) := by
    rw [ho, hm, hc]
    simp [Bracket.around]
  rw [← heq]
  rfl

theorem formed_fraction {a b : Text} (ha : Written commas a) (hb : Written commas b) :
    Formed commas (format? .fraction [a, b]) := by
  have hslash : Written commas [byte '/'] :=
    written_literal (literalText_of_isPlain (by decide))
  have hbody : Written commas (Bracket.around .curly a ++ byte '/' :: Bracket.around .curly b) :=
    (ha.loosen.around .curly).append (hslash.append (hb.loosen.around .curly))
  exact ⟨_, fraction_eq a b, hbody.loosen.around .curly, closed_around hbody .curly⟩

/-- A definition, once its variable has lost its brackets. -/
theorem formed_definition {name f v body : Text} (hname : isPlain name = true) (hne : name ≠ [])
    (hf : Written commas f) (hv : Written commas v) (hbody : Written commas body) :
    Formed commas (some ((unwrap (Bracket.around .round v)).map fun v =>
      call name [f, v] ++ "=" ++ body)) := by
  have hunwrap : unwrap (Bracket.around .round v) = .ok v := by
    have := Bracket.inner_around (k := .round) hv.nested []
    rw [List.append_nil] at this
    unfold unwrap
    rw [show (Bracket.around .round v).head? = some Bracket.round.opening from rfl,
      if_pos (by decide), this]
  have heq : Text.ofString "=" = [byte '='] := by decide
  have hsign : Written commas [byte '='] :=
    written_literal (literalText_of_isPlain (by decide))
  have hargs : ∀ t ∈ [f, v], Written true t := by
    intro t ht
    simp only [List.mem_cons, List.not_mem_nil, or_false] at ht
    rcases ht with rfl | rfl
    · exact hf.loosen
    · exact hv.loosen
  rw [hunwrap]
  refine ⟨call name [f, v] ++ Text.ofString "=" ++ body, rfl, ?_, ?_⟩
  · rw [heq]
    exact ((call_written hname hargs).append hsign).append hbody
  · rw [call_eq, List.append_assoc, List.append_assoc]
    exact closed_literal (literalText_of_isPlain hname) hne _

end Solver

end MathMarkup
