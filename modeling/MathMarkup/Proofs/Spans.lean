import MathMarkup.Grammar.Group

/-!
# Spans within spans

A node is spanned by two bounds if its span lies between them, and its children are spanned by its
own span, all the way down (`Node.Spanned`). The nodes that productions put together keep this as
long as each part lies within the whole.

A unit asks for more, since a degree sign takes it apart again: its characters stand one behind the
other (`Packed`), so that the span of a part can be read off the characters at its ends.
-/

namespace MathMarkup

/-! ## Characters -/

/-- Characters, most recent first, that stand one behind the other between two bounds. -/
def Packed (lo : Int) : Int → List Character → Prop
  | hi, [] => lo ≤ hi
  | hi, c :: cs => c.span.start ≤ c.span.stop ∧ c.span.stop ≤ hi ∧ Packed lo c.span.start cs

section Packed

variable {lo mid hi : Int} {c : Character} {cs later earlier : List Character}

theorem Packed.le (h : Packed lo hi cs) : lo ≤ hi := by
  induction cs generalizing hi with
  | nil => exact h
  | cons c cs ih =>
      have := ih h.2.2
      have := h.1
      have := h.2.1
      omega

theorem Packed.mono {hi' : Int} (h : Packed lo hi cs) (hhi : hi ≤ hi') : Packed lo hi' cs := by
  cases cs with
  | nil => exact Int.le_trans h hhi
  | cons c cs => exact ⟨h.1, Int.le_trans h.2.1 hhi, h.2.2⟩

theorem Packed.append (hlater : Packed mid hi later) (hearlier : Packed lo mid earlier) :
    Packed lo hi (later ++ earlier) := by
  induction later generalizing hi with
  | nil => exact hearlier.mono hlater
  | cons c cs ih => exact ⟨hlater.1, hlater.2.1, ih hlater.2.2⟩

theorem Packed.split (h : Packed lo hi (later ++ earlier)) :
    ∃ mid, Packed mid hi later ∧ Packed lo mid earlier := by
  induction later generalizing hi with
  | nil => exact ⟨hi, Int.le_refl hi, h⟩
  | cons c cs ih =>
      obtain ⟨mid, hlater, hearlier⟩ := ih h.2.2
      exact ⟨mid, ⟨h.1, h.2.1, hlater⟩, hearlier⟩

theorem Packed.mem (h : Packed lo hi cs) (hc : c ∈ cs) :
    lo ≤ c.span.start ∧ c.span.start ≤ c.span.stop ∧ c.span.stop ≤ hi := by
  induction cs generalizing hi with
  | nil => exact absurd hc List.not_mem_nil
  | cons d cs ih =>
      obtain ⟨hd, hstop, hrest⟩ := h
      rcases List.mem_cons.mp hc with rfl | hc
      · exact ⟨hrest.le, hd, hstop⟩
      · obtain ⟨h1, h2, h3⟩ := ih hrest hc
        exact ⟨h1, h2, by omega⟩

/-- Characters reach back to the start of the first of them. -/
theorem Packed.from_first (h : Packed lo hi (later ++ [c])) :
    lo ≤ c.span.start ∧ Packed c.span.start hi (later ++ [c]) := by
  obtain ⟨mid, hlater, hc, hmid, hlo⟩ := h.split
  exact ⟨hlo, hlater.append ⟨hc, hmid, Int.le_refl _⟩⟩

/-- Characters reach up to the end of the last of them. -/
theorem Packed.to_last (h : Packed lo hi (c :: cs)) :
    c.span.stop ≤ hi ∧ Packed lo c.span.stop (c :: cs) :=
  ⟨h.2.1, h.1, Int.le_refl _, h.2.2⟩

end Packed

/-! ## Nodes -/

namespace Node

/-- The characters of a unit stand one behind the other in its span. -/
def Laid : Node → Prop
  | unit cs span => Packed span.start span.stop cs.reverse
  | _ => True

/-- A node whose span lies between two bounds, and whose children lie in its span, all the way
down. -/
inductive Spanned : Int → Int → Node → Prop where
  | intro {lo hi : Int} {n : Node} : lo ≤ n.span.start → n.span.start ≤ n.span.stop →
      n.span.stop ≤ hi → n.Laid → (∀ m ∈ n.children, Spanned n.span.start n.span.stop m) →
      Spanned lo hi n

/-- All nodes of a list lie between two bounds. -/
def SpannedAll (lo hi : Int) (ns : List Node) : Prop := ∀ n ∈ ns, Spanned lo hi n

variable {lo hi lo' hi' : Int} {n : Node} {ns ms : List Node} {span : Span}

theorem Spanned.mono (h : Spanned lo hi n) (hlo : lo' ≤ lo) (hhi : hi ≤ hi') :
    Spanned lo' hi' n := by
  obtain ⟨h1, h2, h3, hlaid, hchildren⟩ := h
  exact ⟨Int.le_trans hlo h1, h2, Int.le_trans h3 hhi, hlaid, hchildren⟩

/-- A node lies in its own span. -/
theorem Spanned.self (h : Spanned lo hi n) : Spanned n.span.start n.span.stop n := by
  obtain ⟨-, h2, -, hlaid, hchildren⟩ := h
  exact ⟨Int.le_refl _, h2, Int.le_refl _, hlaid, hchildren⟩

theorem SpannedAll.mono (h : SpannedAll lo hi ns) (hlo : lo' ≤ lo) (hhi : hi ≤ hi') :
    SpannedAll lo' hi' ns := fun n hn => (h n hn).mono hlo hhi

theorem spannedAll_nil : SpannedAll lo hi [] := fun _ hn => absurd hn List.not_mem_nil

theorem SpannedAll.cons (hn : Spanned lo hi n) (h : SpannedAll lo hi ns) :
    SpannedAll lo hi (n :: ns) := by
  intro m hm
  rcases List.mem_cons.mp hm with rfl | hm
  · exact hn
  · exact h m hm

theorem SpannedAll.append (h : SpannedAll lo hi ns) (h' : SpannedAll lo hi ms) :
    SpannedAll lo hi (ns ++ ms) := by
  intro m hm
  rcases List.mem_append.mp hm with hm | hm
  · exact h m hm
  · exact h' m hm

theorem SpannedAll.reverse (h : SpannedAll lo hi ns) : SpannedAll lo hi ns.reverse :=
  fun n hn => h n (List.mem_reverse.mp hn)

theorem spanned_some (h : Spanned lo hi n) : ∀ m ∈ some n, Spanned lo hi m := by
  intro m hm
  rw [← Option.some.inj hm]
  exact h

theorem spannedAll_option {o : Option Node} (h : ∀ n ∈ o, Spanned lo hi n) :
    SpannedAll lo hi o.toList := fun n hn => h n (Option.mem_toList.mp hn)

/-- A node around others that lie in its span. -/
theorem spanned_of_children (hspan : n.span = span) (hlo : lo ≤ span.start)
    (hle : span.start ≤ span.stop) (hhi : span.stop ≤ hi) (hlaid : n.Laid)
    (h : SpannedAll span.start span.stop n.children) : Spanned lo hi n := by
  subst hspan
  exact ⟨hlo, hle, hhi, hlaid, h⟩

theorem spanned_unit {cs : List Character} (hlo : lo ≤ span.start) (hhi : span.stop ≤ hi)
    (h : Packed span.start span.stop cs.reverse) : Spanned lo hi (.unit cs span) := by
  refine spanned_of_children rfl hlo h.le hhi h fun m hm => ?_
  obtain ⟨c, hc, rfl⟩ := List.mem_map.mp hm
  obtain ⟨h1, h2, h3⟩ := h.mem (List.mem_reverse.mpr hc)
  exact ⟨h1, h2, h3, trivial, fun _ hm => absurd hm List.not_mem_nil⟩

theorem Spanned.packed {cs : List Character} (h : Spanned lo hi (.unit cs span)) :
    lo ≤ span.start ∧ span.stop ≤ hi ∧ Packed span.start span.stop cs.reverse := by
  obtain ⟨h1, -, h3, hlaid, -⟩ := h
  exact ⟨h1, h3, hlaid⟩

theorem spanned_expression {wrapping : Wrapping} (hlo : lo ≤ span.start)
    (hle : span.start ≤ span.stop) (hhi : span.stop ≤ hi)
    (h : SpannedAll span.start span.stop ns) : Spanned lo hi (.expression wrapping ns span) :=
  spanned_of_children rfl hlo hle hhi trivial h

theorem spanned_function {name : FunctionName} {exponent : Option Node} (hlo : lo ≤ span.start)
    (hle : span.start ≤ span.stop) (hhi : span.stop ≤ hi)
    (hargs : SpannedAll span.start span.stop ns)
    (hexponent : ∀ e ∈ exponent, Spanned span.start span.stop e) :
    Spanned lo hi (.function name ns exponent span) :=
  spanned_of_children rfl hlo hle hhi trivial (hargs.append (spannedAll_option hexponent))

theorem spanned_environment {type : EnvironmentType} (hlo : lo ≤ span.start)
    (hle : span.start ≤ span.stop) (hhi : span.stop ≤ hi)
    (h : SpannedAll span.start span.stop ns) : Spanned lo hi (.environment type ns span) :=
  spanned_of_children rfl hlo hle hhi trivial h

end Node

namespace Grammar

open Node (Spanned SpannedAll)

/-! ## Text laid out in a span -/

/-- The number of bytes over which the characters of a text are laid out. -/
def extent (t : Text) : Int := (Text.toValid t).length

theorem length_ofChars_cons (c : Char) (cs : List Char) :
    (Text.ofChars (c :: cs)).length = Text.encodedWidth c + (Text.ofChars cs).length := by
  simp [Text.ofChars, Text.encodedWidth]

theorem packed_layOut (start : Int) (cs : List Char) :
    Packed start (start + (Text.ofChars cs).length) (layOut start cs).reverse := by
  induction cs generalizing start with
  | nil => exact Int.le_add_of_nonneg_right (Int.natCast_nonneg _)
  | cons c cs ih =>
      have hrest := ih (start + Text.encodedWidth c)
      rw [layOut, List.reverse_cons, length_ofChars_cons]
      refine Packed.append (hrest.mono (by omega)) ⟨?_, Int.le_refl _, Int.le_refl _⟩
      show start ≤ start + Text.encodedWidth c
      omega

theorem endOf_layOut (start : Int) (cs : List Char) :
    Builder.endOf start (layOut start cs) = start + (Text.ofChars cs).length := by
  induction cs generalizing start with
  | nil => simp [Builder.endOf, layOut, Text.ofChars]
  | cons c cs ih =>
      have hrest := ih (start + Text.encodedWidth c)
      -- the end is that of the last character, which the first one is only if it is alone
      have hstep : Builder.endOf start (layOut start (c :: cs))
          = Builder.endOf (start + Text.encodedWidth c)
            (layOut (start + Text.encodedWidth c) cs) := by
        cases cs with
        | nil => rfl
        | cons d ds => simp only [Builder.endOf, layOut, List.getLast?_cons, Option.getD_some]
      rw [hstep, hrest, length_ofChars_cons]
      omega

/-- A unit whose span is wide enough for its text. -/
theorem spanned_unitAt {lo hi : Int} {t : Text} {span : Span} (hlo : lo ≤ span.start)
    (hhi : span.stop ≤ hi) (h : span.start + extent t ≤ span.stop) :
    Spanned lo hi (unitAt t span) := by
  refine Node.spanned_unit hlo hhi ?_
  exact (packed_layOut span.start t.chars).mono h

theorem spanned_wrapCurly {lo hi : Int} {n : Node} (h : Spanned lo hi n) :
    Spanned lo hi (wrapCurly n) := by
  have hself := h.self
  obtain ⟨h1, h2, h3, -, -⟩ := h
  exact Node.spanned_expression h1 h2 h3 (Node.SpannedAll.cons hself Node.spannedAll_nil)

/-! ## Builders -/

namespace Builder

/-- The open unit lies between two bounds. -/
def PendingIn (lo hi : Int) (p : Pending) : Prop :=
  lo ≤ p.span.start ∧ p.span.stop ≤ hi ∧ Packed p.span.start p.span.stop p.chars

/-- Everything that a builder has collected lies between two bounds. -/
structure In (lo hi : Int) (b : Builder) : Prop where
  nodes : SpannedAll lo hi b.nodes
  pending : ∀ p ∈ b.pending, PendingIn lo hi p

variable {lo hi hi' : Int} {b : Builder} {n : Node}

theorem in_empty : In lo hi {} where
  nodes := Node.spannedAll_nil
  pending _ hp := absurd hp (by simp)

theorem In.mono (h : b.In lo hi) (hhi : hi ≤ hi') : b.In lo hi' where
  nodes := h.nodes.mono (Int.le_refl _) hhi
  pending p hp := by
    obtain ⟨h1, h2, h3⟩ := h.pending p hp
    exact ⟨h1, Int.le_trans h2 hhi, h3⟩

/-- Text behind everything collected so far joins the open unit. -/
theorem In.addText {t : Text} {start : Int} (h : b.In lo hi) (hlo : lo ≤ start)
    (hstart : hi ≤ start) (hhi : start + extent t ≤ hi') : (b.addText t start).In lo hi' := by
  have hextent : hi ≤ hi' := by
    unfold extent at hhi
    omega
  refine ⟨h.nodes.mono (Int.le_refl _) hextent, ?_⟩
  intro p hp
  obtain rfl := Option.some.inj hp
  unfold PendingIn
  dsimp only
  rw [endOf_layOut]
  have hlaid := packed_layOut start t.chars
  cases hb : b.pending with
  | none => exact ⟨hlo, hhi, hlaid.append (Int.le_refl _)⟩
  | some q =>
      obtain ⟨h1, h2, h3⟩ := h.pending q hb
      exact ⟨h1, hhi, hlaid.append (h3.mono (Int.le_trans h2 hstart))⟩

theorem In.flush (h : b.In lo hi) : b.flush.In lo hi := by
  unfold Builder.flush
  split
  · rename_i c cs span hp
    obtain ⟨h1, h2, h3⟩ := h.pending _ hp
    refine ⟨Node.SpannedAll.cons (Node.spanned_unit h1 h2 ?_) h.nodes,
      fun _ hp => absurd hp (by simp)⟩
    rw [List.reverse_reverse]
    exact h3
  · exact ⟨h.nodes, fun _ hp => absurd hp (by simp)⟩

theorem In.add (h : b.In lo hi) (hhi : hi ≤ hi') (hn : Spanned lo hi' n) : (b.add n).In lo hi' where
  nodes := Node.SpannedAll.cons hn ((h.flush.mono hhi).nodes)
  pending := (h.flush.mono hhi).pending

theorem In.finish (h : b.In lo hi) : SpannedAll lo hi b.finish := h.flush.nodes.reverse

/-- **A unit that is taken apart gives two**, each with a span of its own. -/
theorem popPending_in {nodes : List Node} {p : Pending} (hnodes : SpannedAll lo hi nodes)
    (hp : PendingIn lo hi p) (h : popPending nodes p = some (n, b)) :
    Spanned lo hi n ∧ b.In lo hi := by
  obtain ⟨hlo, hhi, hpacked⟩ := hp
  unfold popPending at h
  rw [← List.takeWhile_append_dropWhile (p := fun c => isOperandCode c.code) (l := p.chars)]
    at hpacked
  generalize p.chars.takeWhile (fun c => isOperandCode c.code) = run at h hpacked
  generalize p.chars.dropWhile (fun c => isOperandCode c.code) = before at h hpacked
  obtain ⟨mid, hrun, hbefore⟩ := hpacked.split
  dsimp only at h
  split at h
  · exact absurd h (by simp)
  · rename_i first more hreverse
    obtain ⟨rfl, rfl⟩ := Prod.mk.inj (Option.some.inj h)
    have hrun' : run = more.reverse ++ [first] := by
      rw [← List.reverse_reverse run, hreverse, List.reverse_cons]
    rw [hrun'] at hrun
    obtain ⟨hfirst, hoperand⟩ := hrun.from_first
    have hmid := hbefore.le
    refine ⟨Node.spanned_unit (by show lo ≤ first.span.start; omega) hhi ?_, hnodes, ?_⟩
    · rw [List.reverse_cons]
      exact hoperand
    · intro q hq
      obtain rfl := Option.some.inj hq
      have hstop := hrun.le
      cases before with
      | nil => exact ⟨hlo, hhi, Int.le_trans hmid hstop⟩
      | cons c cs =>
          obtain ⟨hc, hlast⟩ := hbefore.to_last
          exact ⟨hlo, by show c.span.stop ≤ hi; omega, hlast⟩

/-- Taking back the last operand leaves everything where it was. -/
theorem In.popOperand {b' : Builder} (h : b.In lo hi) (hpop : b.popOperand = some (n, b')) :
    Spanned lo hi n ∧ b'.In lo hi := by
  unfold Builder.popOperand at hpop
  split at hpop
  · rename_i hp
    exact popPending_in h.nodes (h.pending _ hp) hpop
  · split at hpop
    · exact absurd hpop (by simp)
    · rename_i c cs span before hnodes
      have hall := h.nodes
      rw [hnodes] at hall
      have hunit : PendingIn lo hi ⟨(c :: cs).reverse, span⟩ := (hall _ List.mem_cons_self).packed
      exact popPending_in (fun m hm => hall m (List.mem_cons_of_mem _ hm)) hunit hpop
    · rename_i m before _ hnodes
      have hall := h.nodes
      rw [hnodes] at hall
      obtain ⟨rfl, rfl⟩ := Prod.mk.inj (Option.some.inj hpop)
      refine ⟨hall _ List.mem_cons_self, fun m hm => hall m (List.mem_cons_of_mem _ hm), ?_⟩
      exact fun _ hp => absurd hp (by simp)

end Builder

end Grammar

end MathMarkup
