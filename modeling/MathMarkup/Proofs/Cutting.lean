import MathMarkup.Proofs.Partners
import MathMarkup.Proofs.Written

/-!
# Cutting argument lists

A call is written as a name with its arguments between commas, and an argument can be a call itself.
The arguments are found again by cutting at the commas that stand in no bracket: those of an
argument stand in brackets of its own (`cutFrom_join`).

`Separable` are the texts for which this works. It says nothing about blanks and signs, so it holds
of any tree whose characters are no brackets and no commas. What carries it through rendering is
that a list has a name in front. A bracket at the beginning of an argument holds no list, and when
it is stripped no comma is laid open.
-/

namespace MathMarkup

open MathMarkup.Bracket (Nested)
open MathMarkup.Text (byte)

/-- The brackets and the comma. -/
def separators : List UInt8 :=
  [Bracket.round, .square, .curly].flatMap (fun k => [k.opening, k.closing]) ++ [byte ',']

/-- A byte that is no bracket and no comma. -/
def Bare (b : UInt8) : Prop := b ∉ separators

instance (b : UInt8) : Decidable (Bare b) := inferInstanceAs (Decidable (b ∉ separators))

variable {b : UInt8} {t u : Text}

/-- Whether all bytes of a text are bare. -/
def isBare (t : Text) : Bool := t.all fun b => !separators.contains b

theorem bare_of_isBare (h : isBare t = true) : ∀ b ∈ t, Bare b := by
  intro b hb hmem
  have hb := List.all_eq_true.mp h b hb
  rw [List.contains_iff_mem.mpr hmem] at hb
  exact absurd hb (by decide)

theorem Bare.opening (h : Bare b) : Bracket.ofOpening? b = none := by
  cases ho : Bracket.ofOpening? b with
  | none => rfl
  | some k =>
      obtain rfl := Bracket.ofOpening?_eq_some_iff.mp ho
      exact absurd h (by cases k <;> decide)

theorem Bare.closing (h : Bare b) : Bracket.ofClosing? b = none := by
  cases hc : Bracket.ofClosing? b with
  | none => rfl
  | some k =>
      obtain rfl := Bracket.ofClosing?_eq_some_iff.mp hc
      exact absurd h (by cases k <;> decide)

theorem Bare.comma (h : Bare b) : b ≠ byte ',' := by
  rintro rfl
  exact absurd h (by decide)

/-- A text that has brackets and commas in the right places: brackets are nested, and a comma stands
in a round bracket with a name in front. -/
inductive Separable : Text → Prop where
  | nil : Separable []
  | bare {b : UInt8} {t : Text} : Bare b → Separable t → Separable (b :: t)
  | group (k : Bracket) {body t : Text} : Separable body → Separable t →
      Separable (k.around body ++ t)
  | list {b : UInt8} {parts : List Text} {t : Text} : Bare b → (∀ p ∈ parts, Separable p) →
      Separable t → Separable (b :: (Bracket.around .round (Text.join "," parts) ++ t))

namespace Separable

theorem append (ht : Separable t) (hu : Separable u) : Separable (t ++ u) := by
  induction ht with
  | nil => exact hu
  | bare hb _ ih => exact .bare hb ih
  | group k hbody _ _ ih =>
      rw [List.append_assoc]
      exact .group k hbody ih
  | list hb hparts _ _ ih =>
      rw [List.cons_append, List.append_assoc]
      exact .list hb hparts ih

theorem flatten {ts : List Text} (h : ∀ t ∈ ts, Separable t) : Separable ts.flatten := by
  induction ts with
  | nil => exact .nil
  | cons t ts ih =>
      rw [List.flatten_cons]
      exact (h t (by simp)).append (ih fun u hu => h u (List.mem_cons_of_mem _ hu))

theorem around (h : Separable t) (k : Bracket) : Separable (k.around t) := by
  rw [← List.append_nil (k.around t)]
  exact .group k h .nil

theorem of_bare (h : ∀ b ∈ t, Bare b) : Separable t := by
  induction t with
  | nil => exact .nil
  | cons b t ih => exact .bare (h b (by simp)) (ih fun c hc => h c (List.mem_cons_of_mem _ hc))

/-- A bracket at the beginning has its partner, and what stands in it is separable. -/
theorem leading {k : Bracket} {r : Text} (h : Separable (k.opening :: r)) :
    ∃ body rest, k.opening :: r = k.around body ++ rest ∧ Separable body := by
  have hno : ∀ {b : UInt8}, k.opening = b → ¬ Bare b := by
    rintro b rfl hb
    have := hb.opening
    rw [Bracket.ofOpening?_opening] at this
    exact absurd this (by simp)
  generalize ht : k.opening :: r = t at h
  cases h with
  | nil => exact absurd ht (by simp)
  | bare hb _ => exact absurd hb (hno (List.cons.inj ht).1)
  | group j hbody _ =>
      obtain rfl := Bracket.opening_injective (List.cons.inj ht).1
      exact ⟨_, _, rfl, hbody⟩
  | list hb _ _ => exact absurd hb (hno (List.cons.inj ht).1)

end Separable

theorem Bare.nested (h : Bare b) (ht : Nested t) : Nested (b :: t) :=
  (Bracket.nested_of_no_brackets (t := [b]) (by simp [h.opening, h.closing])).append ht

theorem nested_join {parts : List Text} (h : ∀ p ∈ parts, Nested p) :
    Nested (Text.join "," parts) := by
  have hcomma : Nested (Text.ofString ",") := rfl
  exact join_of_append (P := Nested) rfl (fun ht hu => ht.append hu) hcomma h

theorem Separable.nested (h : Separable t) : Nested t := by
  induction h with
  | nil => rfl
  | bare hb _ ih => exact hb.nested ih
  | group k _ _ ihbody ih => exact (ihbody.around k).append ih
  | list hb _ _ ihparts ih =>
      exact hb.nested (((nested_join ihparts).around .round).append ih)

/-! ## Cutting -/

/-- The number of open brackets after one more byte. -/
def depthAfter (depth : Nat) (b : UInt8) : Nat :=
  if (Bracket.ofOpening? b).isSome then depth + 1
  else if (Bracket.ofClosing? b).isSome then depth - 1
  else depth

/-- The parts of a text between its commas that stand in no bracket. So many brackets are open
before it. -/
def cutFrom : Nat → Text → List Text
  | _, [] => [[]]
  | depth, b :: t =>
    if b = byte ',' ∧ depth = 0 then [] :: cutFrom 0 t
    else (cutFrom (depthAfter depth b) t).modifyHead (b :: ·)

/-- Cutting goes over a text where at least so many brackets are open. -/
def GoneOver (least : Nat) (t : Text) : Prop :=
  ∀ depth r, least ≤ depth → cutFrom depth (t ++ r) = (cutFrom depth r).modifyHead (t ++ ·)

namespace GoneOver

variable {least : Nat}

theorem mono {least' : Nat} (h : GoneOver least t) (hle : least ≤ least') : GoneOver least' t :=
  fun depth r hdepth => h depth r (by omega)

theorem nil : GoneOver least [] := by
  intro depth r _
  show cutFrom depth r = (cutFrom depth r).modifyHead fun p => p
  cases cutFrom depth r <;> rfl

theorem append (ht : GoneOver least t) (hu : GoneOver least u) : GoneOver least (t ++ u) := by
  intro depth r hdepth
  rw [List.append_assoc, ht depth _ hdepth, hu depth r hdepth, List.modifyHead_modifyHead]
  refine congrArg (List.modifyHead · _) (funext fun p => ?_)
  exact (List.append_assoc t u p).symm

/-- A byte that is no bracket leaves the depth as it is. -/
theorem byte (ho : Bracket.ofOpening? b = none) (hc : Bracket.ofClosing? b = none)
    (hcut : ∀ depth, least ≤ depth → ¬ (b = byte ',' ∧ depth = 0)) : GoneOver least [b] := by
  intro depth r hdepth
  have hafter : depthAfter depth b = depth := by
    unfold depthAfter
    rw [ho, hc]
    rfl
  rw [List.singleton_append, cutFrom, if_neg (hcut depth hdepth), hafter]
  rfl

theorem bare (h : Bare b) : GoneOver least [b] :=
  byte h.opening h.closing fun _ _ hcut => h.comma hcut.1

/-- In brackets cutting goes over commas. -/
theorem comma : GoneOver 1 (Text.ofString ",") :=
  byte (by decide) (by decide) fun _ hdepth hcut => by omega

/-- In a pair of brackets one more is open. -/
theorem around (h : GoneOver 1 t) (k : Bracket) : GoneOver least (k.around t) := by
  intro depth r _
  have ho : depthAfter depth k.opening = depth + 1 := by
    unfold depthAfter
    rw [Bracket.ofOpening?_opening]
    rfl
  have hc : depthAfter (depth + 1) k.closing = depth := by
    unfold depthAfter
    rw [Bracket.ofOpening?_closing, Bracket.ofClosing?_closing]
    rfl
  have hopening : k.opening ≠ Text.byte ',' := by cases k <;> decide
  have hclosing : k.closing ≠ Text.byte ',' := by cases k <;> decide
  rw [Bracket.around_append, cutFrom, if_neg fun hcut => hopening hcut.1, ho,
    h (depth + 1) _ (by omega), cutFrom, if_neg fun hcut => hclosing hcut.1, hc,
    List.modifyHead_modifyHead, List.modifyHead_modifyHead]
  refine congrArg (List.modifyHead · _) (funext fun p => ?_)
  exact (Bracket.around_append k t p).symm

end GoneOver

/-- Cutting goes over a separable text: its commas stand in brackets. -/
theorem Separable.goneOver (h : Separable t) : GoneOver 0 t := by
  induction h with
  | nil => exact .nil
  | bare hb _ ih => exact (GoneOver.bare hb).append ih
  | group k _ _ ihbody ih => exact ((ihbody.mono (Nat.zero_le 1)).around k).append ih
  | list hb _ _ ihparts ih =>
      have hjoin := join_of_append (P := GoneOver 1) .nil (fun ht hu => ht.append hu) .comma
        fun p hp => (ihparts p hp).mono (Nat.zero_le 1)
      exact (GoneOver.bare hb).append ((hjoin.around .round).append ih)

/-- **Cutting gives back the parts that were joined.** -/
theorem cutFrom_join {parts : List Text} (hne : parts ≠ []) (h : ∀ p ∈ parts, Separable p) :
    cutFrom 0 (Text.join "," parts) = parts := by
  unfold Text.join
  induction parts with
  | nil => exact absurd rfl hne
  | cons p parts ih =>
      have hover := (h p (by simp)).goneOver
      cases parts with
      | nil =>
          have hcut := hover 0 [] (Nat.le_refl 0)
          rw [List.append_nil] at hcut
          simpa [cutFrom] using hcut
      | cons q parts =>
          have hrest := ih (by simp) fun x hx => h x (List.mem_cons_of_mem _ hx)
          have hcomma : Text.ofString "," = [byte ','] := by decide
          rw [List.intercalate_cons_cons, List.append_assoc, hover 0 _ (Nat.le_refl 0), hcomma,
            List.singleton_append, cutFrom, if_pos ⟨rfl, rfl⟩, ← hcomma, hrest]
          simp

/-! ## Calls -/

/-- What stands between the parentheses of a call, cut at its commas. -/
def cutCall? (t : Text) : Option (List Text) :=
  match t.findByte? Bracket.round.opening with
  | none => none
  | some i =>
    match Bracket.inner t i with
    | .error _ => none
    | .ok body => some (cutFrom 0 body)

/-- A text without the space in front of it. -/
def afterSpace : Text → Text
  | [] => []
  | b :: t => if b = byte ' ' then t else b :: t

/-- The arguments of a call that are separated by a comma and a space. -/
def argumentsOf? (t : Text) : Option (List Text) :=
  (cutCall? t).map fun
    | [] => []
    | part :: parts => part :: parts.map afterSpace

/-- The parentheses of a call are those behind its name. -/
theorem cutCall?_around {name : Text} (hname : ∀ b ∈ name, Bare b) (h : Nested t) :
    cutCall? (name ++ Bracket.around .round t) = some (cutFrom 0 t) := by
  have hfind : Text.findByte? Bracket.round.opening (name ++ Bracket.around .round t)
      = some name.length := by
    unfold Text.findByte?
    have hnone : name.findIdx? (· == Bracket.round.opening) = none := by
      refine List.findIdx?_eq_none_iff.mpr fun b hb => beq_eq_false_iff_ne.mpr ?_
      rintro rfl
      exact absurd (hname _ hb) (by decide)
    rw [List.findIdx?_append, hnone, Bracket.around, List.findIdx?_cons,
      if_pos (beq_self_eq_true _)]
    simp
  have hopens : Bracket.OpensAt (name ++ Bracket.around .round t) name.length .round := by
    refine ⟨Int.natCast_nonneg _, ?_⟩
    rw [Int.toNat_natCast, List.getElem?_append_right (Nat.le_refl _), Nat.sub_self]
    rfl
  have hdrop : (name ++ Bracket.around .round t).drop (name.length + 1)
      = t ++ [Bracket.round.closing] := by
    rw [List.drop_length_add_append]
    rfl
  have hend : Bracket.findEnd (name ++ Bracket.around .round t) name.length
      = .ok (name.length + 1 + t.length) := by
    rw [Bracket.findEnd_of_opensAt hopens, Int.toNat_natCast, hdrop,
      Bracket.closeOffset?_nested h []]
  unfold cutCall?
  rw [hfind]
  dsimp only
  rw [Bracket.inner_of_findEnd hend, Int.toNat_natCast, Bracket.slice_add, hdrop, List.take_left]

/-- A list with spaces is a list whose parts but the first begin with a space. -/
theorem join_commaSpace (part : Text) (parts : List Text) :
    Text.join ", " (part :: parts) = Text.join "," (part :: parts.map (byte ' ' :: ·)) := by
  have hcomma : Text.ofString "," = [byte ','] := by decide
  have hspace : Text.ofString ", " = [byte ',', byte ' '] := by decide
  unfold Text.join
  induction parts generalizing part with
  | nil => rfl
  | cons q parts ih =>
      rw [List.intercalate_cons_cons, List.map_cons, List.intercalate_cons_cons, ih q, hcomma,
        hspace]
      cases parts <;> simp

theorem separable_spaced {part : Text} {parts : List Text}
    (h : ∀ p ∈ part :: parts, Separable p) :
    ∀ p ∈ part :: parts.map (byte ' ' :: ·), Separable p := by
  intro p hp
  rcases List.mem_cons.mp hp with rfl | hp
  · exact h p (by simp)
  · obtain ⟨x, hx, rfl⟩ := List.mem_map.mp hp
    exact .bare (by decide) (h x (List.mem_cons_of_mem _ hx))

namespace Solver

/-- A list between round brackets behind a name is separable. -/
theorem separable_list {name : Text} (hne : name ≠ []) (hname : ∀ b ∈ name, Bare b)
    {parts : List Text} (h : ∀ p ∈ parts, Separable p) :
    Separable (name ++ Bracket.around .round (Text.join "," parts)) := by
  induction name with
  | nil => exact absurd rfl hne
  | cons b name ih =>
      have hb := hname b (by simp)
      cases name with
      | nil =>
          have hlist := Separable.list hb h .nil
          rwa [List.append_nil] at hlist
      | cons c name => exact .bare hb (ih (by simp) fun x hx => hname x (List.mem_cons_of_mem _ hx))

theorem cutCall?_list {name : Text} (hname : ∀ b ∈ name, Bare b) {parts : List Text}
    (hparts : parts ≠ []) (h : ∀ p ∈ parts, Separable p) :
    cutCall? (name ++ Bracket.around .round (Text.join "," parts)) = some parts := by
  rw [cutCall?_around hname (nested_join fun p hp => (h p hp).nested), cutFrom_join hparts h]

theorem call_separable {name : Text} (hne : name ≠ []) (hname : ∀ b ∈ name, Bare b)
    {args : List Text} (h : ∀ t ∈ args, Separable t) : Separable (call name args) := by
  rw [call_eq]
  cases args with
  | nil => exact separable_list hne hname h
  | cons a args =>
      rw [join_commaSpace]
      exact separable_list hne hname (separable_spaced h)

/-- **The arguments of a call can be read back.** -/
theorem argumentsOf?_call {name : Text} (hname : ∀ b ∈ name, Bare b) {args : List Text}
    (hargs : args ≠ []) (h : ∀ t ∈ args, Separable t) :
    argumentsOf? (call name args) = some args := by
  rw [call_eq]
  cases args with
  | nil => exact absurd rfl hargs
  | cons a args =>
      have hspaces : (args.map (byte ' ' :: ·)).map afterSpace = args := by
        rw [List.map_map]
        exact List.map_id'' (fun x => by simp [afterSpace]) args
      unfold argumentsOf?
      rw [join_commaSpace, cutCall?_list hname (by simp) (separable_spaced h), Option.map_some]
      dsimp only
      rw [hspaces]

end Solver

end MathMarkup
