import MathMarkup.Proofs.CommandFree
import MathMarkup.Proofs.Lookahead
import MathMarkup.Proofs.Outcomes
import MathMarkup.Proofs.Termination

/-!
# What the grammar reads

Whatever a production reads is framed (`Framed`): a bracket is closed by one of its kind, an
environment goes from its `\begin` tag to an `\end` tag of the same name, and an `&` stands in the
cells of a matrix, not in a group inside of them. So in a text that is accepted every `&` separates
cells (`parse_framed`).

One production trusts what it has looked at before: the equals sign of a definition was found by
counting round brackets, and is read without another look behind the variable. It is there because
framed tokens leave the count as it is (`Framed.level`).
-/

namespace MathMarkup.Grammar

open MathMarkup.Grammar.Parser

/-! ## Framed tokens -/

/-- The commands of tags, and the escaped separator. -/
def reserved : List Text := ["begin", "end", "&"]

/-- A token that neither opens nor closes nor separates anything. -/
structure Token.Plain (t : Token) : Prop where
  opening : ∀ k : Bracket, t.kind ≠ .opening k
  closing : ∀ k : Bracket, t.kind ≠ .closing k
  separator : t.kind ≠ .ampersand
  command : t.isCommand reserved = false

/-- A name in braces. -/
inductive Named (name : Text) : List Token → Prop where
  | intro {o z : Token} {letters : List Token} : o.kind = .opening .curly →
      (∀ t ∈ letters, t.kind = .char) → texts letters = name → z.kind = .closing .curly →
      Named name (o :: (letters ++ [z]))

/-- A tag: a command and the name of an environment. -/
inductive Tag (command name : Text) : List Token → Prop where
  | intro {c : Token} {xs : List Token} : c.isCommand [command] = true → Named name xs →
      Tag command name (c :: xs)

/-- Tokens with brackets and environments that are closed; `matrix` tells whether an `&` may stand
among them that is in no environment and no group. -/
inductive Framed : Bool → List Token → Prop where
  | nil {matrix : Bool} : Framed matrix []
  | plain {matrix : Bool} {t : Token} {ts : List Token} :
      t.Plain → Framed matrix ts → Framed matrix (t :: ts)
  | separator {t : Token} {ts : List Token} :
      t.kind = .ampersand → Framed true ts → Framed true (t :: ts)
  | group {matrix : Bool} {k : Bracket} {o z : Token} {xs ts : List Token} :
      o.kind = .opening k → Framed false xs → z.kind = .closing k → Framed matrix ts →
      Framed matrix (o :: (xs ++ z :: ts))
  | environment {matrix : Bool} {name : Text} {type : EnvironmentType}
      {xs body ys ts : List Token} :
      environments.lookup name = some type → Tag "begin" name xs →
      Framed (type == .determinant) body → Tag "end" name ys → Framed matrix ts →
      Framed matrix (xs ++ (body ++ (ys ++ ts)))

variable {matrix : Bool} {t : Token} {xs ys ts : List Token}

/-- The kinds of tokens that stand for themselves. -/
def marks : List TokenKind := [.char, .rowBreak, .pipe, .caret, .underscore]

theorem plain_of_mark {kind : TokenKind} (hk : t.kind = kind) (hmark : kind ∈ marks) : t.Plain := by
  subst hk
  have hne : ∀ k ∉ marks, t.kind ≠ k := by
    intro k hk heq
    rw [heq] at hmark
    exact hk hmark
  refine ⟨fun k => hne _ (by simp [marks]), fun k => hne _ (by simp [marks]), hne _ (by decide), ?_⟩
  exact isCommand_of_kind (hne _ (by decide)) _

theorem plain_of_command {names : List Text} (hk : t.kind = .command) (ht : t.text ∈ names)
    (hnames : ∀ name ∈ names, name ∉ reserved) : t.Plain := by
  refine ⟨fun k => by rw [hk]; simp, fun k => by rw [hk]; simp, by rw [hk]; simp, ?_⟩
  unfold Token.isCommand
  rw [Bool.and_eq_false_iff]
  refine Or.inr ?_
  rw [← Bool.not_eq_true, List.contains_iff_mem]
  exact hnames _ ht

theorem Token.Plain.not_command {command : Text} (ht : t.Plain) (hmem : command ∈ reserved) :
    t.isCommand [command] = false := by
  rw [← Bool.not_eq_true]
  intro hc
  obtain ⟨hk, htext⟩ := isCommand_iff.mp hc
  rw [List.mem_singleton] at htext
  subst htext
  have := ht.command
  rw [isCommand_iff.mpr ⟨hk, hmem⟩] at this
  exact absurd this (by simp)

theorem plain_of_isCommand {names : List Text} (ht : t.isCommand names = true)
    (hnames : ∀ name ∈ names, name ∉ reserved) : t.Plain := by
  obtain ⟨hk, hmem⟩ := isCommand_iff.mp ht
  exact plain_of_command hk hmem hnames

theorem framed_plain (h : ∀ t ∈ xs, t.Plain) : Framed matrix xs := by
  induction xs with
  | nil => exact .nil
  | cons t ts ih => exact .plain (h t (by simp)) (ih fun u hu => h u (List.mem_cons_of_mem _ hu))

theorem Framed.append (hx : Framed matrix xs) (hy : Framed matrix ys) :
    Framed matrix (xs ++ ys) := by
  induction hx with
  | nil => exact hy
  | plain ht _ ih => exact .plain ht (ih hy)
  | separator ht _ ih => exact .separator ht (ih hy)
  | group ho hx hz _ _ ih =>
      rw [List.cons_append, List.append_assoc, List.cons_append]
      exact .group ho hx hz (ih hy)
  | environment hname hbegin hbody hend _ _ ih =>
      rw [List.append_assoc, List.append_assoc, List.append_assoc]
      exact .environment hname hbegin hbody hend (ih hy)

/-- Where an `&` may stand none need stand. -/
theorem Framed.loosen (hx : Framed matrix xs) : Framed true xs := by
  induction hx with
  | nil => exact .nil
  | plain ht _ ih => exact .plain ht ih
  | separator ht _ ih => exact .separator ht ih
  | group ho hx hz _ _ ih => exact .group ho hx hz ih
  | environment hname hbegin hbody hend _ _ ih => exact .environment hname hbegin hbody hend ih

theorem Framed.of_false (hx : Framed false xs) (matrix : Bool) : Framed matrix xs := by
  cases matrix with
  | false => exact hx
  | true => exact hx.loosen

/-! ## Counting round brackets -/

theorem Named.kind {name : Text} (h : Named name xs) :
    ∀ t ∈ xs, t.kind = .opening .curly ∨ t.kind = .char ∨ t.kind = .closing .curly := by
  obtain ⟨ho, hletters, -, hz⟩ := h
  intro t ht
  rcases List.mem_cons.mp ht with rfl | ht
  · exact Or.inl ho
  rcases List.mem_append.mp ht with ht | ht
  · exact Or.inr (Or.inl (hletters t ht))
  · rw [List.mem_singleton.mp ht]
    exact Or.inr (Or.inr hz)

theorem Tag.level {command name : Text} (h : Tag command name xs) : Level xs := by
  obtain ⟨hc, hnamed⟩ := h
  refine level_of_forall (List.forall_mem_cons.mpr ⟨?_, fun t ht => ?_⟩)
  · rw [(isCommand_iff.mp hc).1]
    simp
  · rcases hnamed.kind t ht with hk | hk | hk <;> rw [hk] <;> simp

/-- Framed tokens leave the count of round brackets as it is. -/
theorem Framed.level (hx : Framed matrix xs) : Level xs := by
  induction hx with
  | nil => exact level_nil
  | plain ht _ ih => exact (level_other (ht.opening _) (ht.closing _)).append ih
  | separator ht _ ih => exact (level_other (by rw [ht]; simp) (by rw [ht]; simp)).append ih
  | @group _ _ o z xs ts ho _ hz _ ihx iht =>
      have hcut : o :: (xs ++ z :: ts) = o :: (xs ++ [z]) ++ ts := by simp
      rw [hcut]
      exact (ihx.group ho hz).append iht
  | environment _ hbegin _ hend _ ihbody ih =>
      exact hbegin.level.append (ihbody.append (hend.level.append ih))

/-! ## From cursor to cursor -/

theorem skip_drop (n : Nat) (c : Cursor) : (c.skip n).rest = c.rest.drop n := by
  induction n generalizing c with
  | zero => rfl
  | succ n ih =>
      rw [Cursor.skip, ih]
      obtain ⟨rest, stop⟩ := c
      cases rest with
      | nil => rw [List.drop_nil, Cursor.tail, List.drop_nil]
      | cons t ts => rfl

namespace Cursor

/-- The tokens read from one cursor to another are framed. -/
def Frames (c c' : Cursor) : Prop := ∃ xs, c.rest = xs ++ c'.rest ∧ Framed false xs

variable {c c' : Cursor} {size : Nat}

theorem Frames.refl (c : Cursor) : c.Frames c := ⟨[], rfl, .nil⟩

theorem Frames.trans {c2 : Cursor} (h : c.Frames c') (h' : c'.Frames c2) : c.Frames c2 := by
  obtain ⟨xs, hxs, hx⟩ := h
  obtain ⟨ys, hys, hy⟩ := h'
  refine ⟨xs ++ ys, ?_, hx.append hy⟩
  rw [hxs, hys, List.append_assoc]

theorem rest_tail {kind : TokenKind} (hk : (c.token size 0).kind = kind) (hne : kind ≠ .finish) :
    c.rest = c.token size 0 :: c.tail.rest := by
  obtain ⟨ts, hts⟩ := c.rest_of_kind hk hne
  have htail : c.tail.rest = ts := by
    unfold Cursor.tail
    rw [hts]
  rw [htail]
  exact hts

theorem frames_mark {kind : TokenKind} (hk : (c.token size 0).kind = kind) (hmark : kind ∈ marks) :
    c.Frames c.tail := by
  have hne : kind ≠ .finish := by
    intro heq
    rw [heq] at hmark
    exact absurd hmark (by decide)
  exact ⟨[c.token size 0], rest_tail hk hne, .plain (plain_of_mark hk hmark) .nil⟩

theorem frames_command (hk : (c.token size 0).kind = .command) (ht : (c.token size 0).Plain) :
    c.Frames c.tail :=
  ⟨[c.token size 0], rest_tail hk (by simp), .plain ht .nil⟩

theorem frames_skip (hc : c.rest = xs ++ ys) (hx : Framed false xs) :
    c.Frames (c.skip xs.length) := by
  refine ⟨xs, ?_, hx⟩
  rw [skip_drop, hc, List.drop_left]

/-- A run of plain tokens. -/
theorem frames_takeWhile {p : Token → Bool} (h : ∀ t, p t = true → t.Plain) :
    c.Frames (c.skip (c.rest.takeWhile p).length) := by
  refine frames_skip List.takeWhile_append_dropWhile.symm (framed_plain fun t ht => ?_)
  exact h t (List.all_eq_true.mp List.all_takeWhile t ht)

theorem token_tail (n : Nat) : c.tail.token size n = c.token size (n + 1) := by
  obtain ⟨rest, stop⟩ := c
  cases rest with
  | nil => rfl
  | cons t ts => rfl

end Cursor

/-- Rules that read framed tokens, up to where they end. The rows of an environment end with the
command of its tag. -/
structure Rules.Framing (rules : Rules) : Prop where
  sequence : ∀ {stop : Stop} {definable : Bool} {s : Scope} {c : Cursor},
    Yields (rules.sequence stop definable) s c fun _ c' => c.Frames c' ∧ stop.holds c'.rest = true
  items : ∀ {stop : Stop} {b : Builder} {s : Scope} {c : Cursor},
    Yields (rules.items stop b) s c fun _ c' => c.Frames c' ∧ stop.holds c'.rest = true
  command : ∀ {s : Scope} {c : Cursor}, (c.token s.text.length 0).kind = .command →
    Yields rules.command s c fun _ c' => c.Frames c'
  operand : ∀ {s : Scope} {c : Cursor}, Yields rules.operand s c fun _ c' => c.Frames c'
  scriptArg : ∀ {s : Scope} {c : Cursor}, Yields rules.scriptArg s c fun _ c' => c.Frames c'
  rows : ∀ {matrix : Bool} {name : Text} {row before : List Node} {s : Scope} {c : Cursor},
    Yields (rules.rows matrix name row before) s c fun _ c' =>
      ∃ xs e, c.rest = xs ++ e :: c'.rest ∧ Framed matrix xs ∧ e.isCommand ["end"] = true

variable {rules : Rules} {s : Scope} {c : Cursor}

/-! ## Groups -/

/-- A group goes from its opening bracket to its closing one. -/
theorem groupContents_frames {k : Bracket} (h : rules.Framing)
    (hk : (c.token s.text.length 0).kind = .opening k) :
    Yields (groupContents rules k) s c fun _ c' => ∃ o xs z, c.rest = o :: (xs ++ z :: c'.rest)
      ∧ o.kind = .opening k ∧ Framed false xs ∧ z.kind = .closing k := by
  unfold groupContents
  rw [yields_next]
  refine Yields.bind h.sequence ?_
  rintro nodes c1 ⟨⟨xs, hxs, hx⟩, -⟩
  refine yields_expect fun hz => yields_pure.mpr ?_
  refine ⟨c.token s.text.length 0, xs, c1.token s.text.length 0, ?_, hk, hx, hz⟩
  rw [← Cursor.rest_tail hz (by simp), ← hxs]
  exact Cursor.rest_tail hk (by simp)

theorem group_bounds {k : Bracket} (h : rules.Framing)
    (hk : (c.token s.text.length 0).kind = .opening k) :
    Yields (group rules k) s c fun _ c' => ∃ o xs z, c.rest = o :: (xs ++ z :: c'.rest)
      ∧ o.kind = .opening k ∧ Framed false xs ∧ z.kind = .closing k := by
  unfold group
  refine Yields.bind (groupContents_frames h hk) ?_
  rintro ⟨nodes, span⟩ c' hc'
  exact yields_pure.mpr hc'

theorem frames_group {k : Bracket} {c' : Cursor} (h : ∃ o xs z, c.rest = o :: (xs ++ z :: c'.rest)
    ∧ o.kind = .opening k ∧ Framed false xs ∧ z.kind = .closing k) : c.Frames c' := by
  obtain ⟨o, xs, z, hrest, ho, hx, hz⟩ := h
  refine ⟨o :: (xs ++ [z]), ?_, .group ho hx hz .nil⟩
  rw [hrest]
  simp

theorem group_frames {k : Bracket} (h : rules.Framing)
    (hk : (c.token s.text.length 0).kind = .opening k) :
    Yields (group rules k) s c fun _ c' => c.Frames c' :=
  (group_bounds h hk).mono fun _ _ hc => frames_group hc

theorem absolute_frames (h : rules.Framing) (hk : (c.token s.text.length 0).kind = .pipe) :
    Yields (absolute rules) s c fun _ c' => c.Frames c' := by
  unfold absolute
  rw [yields_next]
  refine Yields.bind h.sequence ?_
  rintro nodes c1 ⟨h1, -⟩
  refine yields_expect fun hz => yields_pure.mpr ?_
  exact (Cursor.frames_mark hk (by decide)).trans (h1.trans (Cursor.frames_mark hz (by decide)))

/-- The tokens of a degree sign. -/
theorem degreeWidth?_split {width : Nat} (hd : degreeWidth? ts = some width) :
    (∃ a u rest, ts = a :: u :: rest ∧ width = 2 ∧ u.isCommand ["circ"] = true)
      ∨ ∃ a o u z rest, ts = a :: o :: u :: z :: rest ∧ width = 4 ∧ o.kind = .opening .curly
        ∧ u.isCommand ["circ"] = true ∧ z.kind = .closing .curly := by
  rcases ts with _ | ⟨a, _ | ⟨b, ts⟩⟩
  · exact absurd hd (by simp [degreeWidth?])
  · exact absurd hd (by simp [degreeWidth?])
  by_cases hb : b.isCommand ["circ"] = true
  · have hwidth : 2 = width := by simpa [degreeWidth?, hb] using hd
    exact Or.inl ⟨a, b, ts, rfl, hwidth.symm, hb⟩
  · rcases ts with _ | ⟨u, _ | ⟨v, ts⟩⟩
    · exact absurd hd (by simp [degreeWidth?, hb])
    · exact absurd hd (by simp [degreeWidth?, hb])
    · simp only [degreeWidth?, if_neg hb] at hd
      split at hd
      · rename_i hcond
        rw [Bool.and_eq_true, Bool.and_eq_true, beq_iff_eq, beq_iff_eq] at hcond
        obtain ⟨⟨hopen, hu⟩, hclose⟩ := hcond
        exact Or.inr ⟨a, b, u, v, ts, rfl, (Option.some.inj hd).symm, hopen, hu, hclose⟩
      · exact absurd hd (by simp)

/-- A degree sign is framed. -/
theorem degreeWidth?_framed {a : Token} {width : Nat} (ha : a.kind = .caret)
    (hd : degreeWidth? (a :: ts) = some width) :
    ∃ xs ys, a :: ts = xs ++ ys ∧ xs.length = width ∧ Framed false xs := by
  have ha : a.Plain := plain_of_mark ha (by decide)
  have hcirc : ∀ {u : Token}, u.isCommand ["circ"] = true → u.Plain := fun hu =>
    plain_of_isCommand hu (by decide)
  rcases degreeWidth?_split hd with
    ⟨_, u, rest, heq, rfl, hu⟩ | ⟨_, o, u, z, rest, heq, rfl, ho, hu, hz⟩
  · obtain ⟨rfl, rfl⟩ := List.cons.inj heq
    exact ⟨[a, u], rest, rfl, rfl, .plain ha (.plain (hcirc hu) .nil)⟩
  · obtain ⟨rfl, rfl⟩ := List.cons.inj heq
    have hgroup : Framed false (o :: ([u] ++ z :: [])) := .group ho (.plain (hcirc hu) .nil) hz .nil
    exact ⟨[a, o, u, z], rest, rfl, rfl, .plain ha hgroup⟩

theorem caret_frames {b : Builder} (hk : (c.token s.text.length 0).kind = .caret) :
    Yields (caret b) s c fun _ c' => c.Frames c' := by
  unfold caret
  rw [yields_peek, yields_lookahead]
  split
  · rw [yields_next]
    exact yields_pure.mpr (Cursor.frames_mark hk (by decide))
  · rename_i width hd
    rw [yields_peekAt]
    split
    · exact yields_failAt
    · rw [yields_skip]
      refine yields_pure.mpr ?_
      have hrest := Cursor.rest_tail hk (by simp)
      rw [hrest] at hd
      obtain ⟨xs, ys, hxs, rfl, hx⟩ := degreeWidth?_framed hk hd
      exact Cursor.frames_skip (hrest.trans hxs) hx

/-! ## Sequences -/

/-- The letter of a definition and what stands before its variable. -/
theorem definitionHead?_framed {name : FunctionName} {width : Nat}
    (hd : definitionHead? ts = some (name, width)) :
    ∃ xs ys, ts = xs ++ ys ∧ xs.length = width ∧ Framed false xs ∧ startsVariable ys = true := by
  obtain ⟨f, mid, rest, rfl, hf, rfl, hv, hmid⟩ := definitionHead?_split hd
  have hf : f.Plain := plain_of_mark (Token.isLetter_char hf) (by decide)
  have hchar : ∀ {t : Token} {x : Text}, t.isChar x = true → t.Plain := fun ht =>
    plain_of_mark (Token.isChar_text ht).1 (by decide)
  refine ⟨f :: mid, rest, rfl, rfl, ?_, hv⟩
  rcases hmid with ⟨-, rfl⟩ | ⟨-, a, b, c, d, e, rfl, ha, hb, hc, hd, he⟩
  · exact .plain hf .nil
  · have hgroup : Framed false (b :: ([c, d] ++ e :: [])) :=
      .group hb (.plain (hchar hc) (.plain (hchar hd) .nil)) he .nil
    exact .plain hf (.plain (plain_of_mark ha (by decide)) hgroup)

/-- **The variable of a definition is followed by the equals sign** that was found before. -/
theorem variable_frames {name : FunctionName} {width : Nat} (h : rules.Framing)
    (hd : definitionHead? c.rest = some (name, width)) :
    Yields (group rules .round) s (c.skip width) fun _ c' =>
      c.Frames c' ∧ (c'.token s.text.length 0).kind = .char := by
  obtain ⟨xs, ys, hxs, rfl, hx, hv⟩ := definitionHead?_framed hd
  have hskip := Cursor.frames_skip hxs hx
  have hrest : (c.skip xs.length).rest = ys := by rw [skip_drop, hxs, List.drop_left]
  obtain ⟨o, us, rfl, ho⟩ := startsVariable_opening hv
  generalize c.skip xs.length = c1 at hskip hrest
  have hopen : (c1.token s.text.length 0).kind = .opening .round := by
    rw [Cursor.token, hrest]
    exact ho
  refine (group_bounds h hopen).mono ?_
  intro inner c2 hgroup
  have hinner := frames_group hgroup
  obtain ⟨o', vs, z, hvs, ho', hvariable, hz⟩ := hgroup
  rw [← hrest, hvs] at hv
  obtain ⟨e, ws, hws, he⟩ := startsVariable_sign ho' hvariable.level hz hv
  refine ⟨hskip.trans hinner, ?_⟩
  rw [Cursor.token, hws]
  exact (Token.isChar_text he).1

theorem definition_frames {stop : Stop} (h : rules.Framing) :
    Yields (definition rules stop) s c fun _ c' => c.Frames c' := by
  unfold definition
  rw [yields_lookahead]
  split
  · exact yields_pure.mpr (.refl c)
  rename_i name width hd
  rw [yields_peek, yields_skip]
  refine Yields.bind (variable_frames h hd) ?_
  rintro inner c2 ⟨hinner, hsign⟩
  rw [yields_next]
  refine Yields.bind h.sequence ?_
  rintro body c3 ⟨hbody, -⟩
  rw [yields_peek]
  refine yields_pure.mpr ?_
  exact (hinner.trans (Cursor.frames_mark hsign (by decide))).trans hbody

theorem items_frames {stop : Stop} {b : Builder} (h : rules.Framing) :
    Yields (items rules stop b) s c fun _ c' => c.Frames c' ∧ stop.holds c'.rest = true := by
  -- the rest of the sequence
  have more : ∀ (b' : Builder) (c' : Cursor), c.Frames c' →
      Yields (rules.items stop b') s c' fun _ c2 => c.Frames c2 ∧ stop.holds c2.rest = true := by
    intro b' c' hc'
    refine h.items.mono ?_
    rintro _ c2 ⟨h2, hstop⟩
    exact ⟨hc'.trans h2, hstop⟩
  unfold items
  rw [yields_lookahead]
  refine yields_ite (fun hstop => yields_pure.mpr ⟨.refl c, hstop⟩) fun _ => ?_
  rw [yields_peek]
  split
  · rename_i hk
    rw [yields_next]
    exact more _ _ (Cursor.frames_mark hk (by decide))
  · rename_i hk
    rw [yields_next]
    exact more _ _ (Cursor.frames_mark hk (by decide))
  · rename_i kind hk
    exact Yields.bind (group_frames h hk) fun n c' => more _ c'
  · rename_i hk
    exact Yields.bind (absolute_frames h hk) fun n c' => more _ c'
  · rename_i hk
    exact Yields.bind (caret_frames hk) fun b' c' => more b' c'
  · rename_i hk
    refine Yields.bind (h.command hk) ?_
    intro o c' hc'
    cases o with
    | some n => exact more _ c' hc'
    | none => exact more _ c' hc'
  all_goals exact yields_unexpected

theorem sequence_frames {stop : Stop} {definable : Bool} (h : rules.Framing) :
    Yields (sequence rules stop definable) s c fun _ c' =>
      c.Frames c' ∧ stop.holds c'.rest = true := by
  have behind : ∀ (b : Builder) (s : Scope) (c' : Cursor), c.Frames c' →
      Yields (items rules stop b) s c' fun _ c2 => c.Frames c2 ∧ stop.holds c2.rest = true := by
    intro b s c' hc'
    refine (items_frames h).mono ?_
    rintro _ c2 ⟨h2, hstop⟩
    exact ⟨hc'.trans h2, hstop⟩
  unfold sequence
  refine yields_nested ?_
  cases definable with
  | false => exact behind {} _ c (.refl c)
  | true =>
      refine Yields.bind (definition_frames h) ?_
      intro first c' hc'
      cases first with
      | some n => exact behind _ _ c' hc'
      | none => exact behind {} _ c' hc'

/-! ## Arguments -/

theorem operand_frames (h : rules.Framing) :
    Yields (operand rules) s c fun _ c' => c.Frames c' := by
  unfold operand
  rw [yields_peek]
  split
  · rename_i hk
    refine Yields.bind (groupContents_frames h hk) ?_
    rintro ⟨nodes, span⟩ c' hc'
    exact yields_pure.mpr (frames_group hc')
  · rename_i kind hk
    exact group_frames h hk
  · rename_i hk
    exact absolute_frames h hk
  · rename_i hk
    refine Yields.bind (h.command hk) ?_
    intro o c' hc'
    cases o with
    | some n => exact yields_pure.mpr hc'
    | none => exact h.operand.mono fun _ c2 h2 => hc'.trans h2
  · refine yields_ite (fun _ => ?_) fun _ => yields_unexpected
    rw [yields_lookahead, yields_skip]
    refine yields_pure.mpr (Cursor.frames_takeWhile fun t ht => ?_)
    exact plain_of_mark (Token.isOperand_char ht) (by decide)
  · exact yields_unexpected

theorem scriptArg_frames (h : rules.Framing) :
    Yields (scriptArg rules) s c fun _ c' => c.Frames c' := by
  unfold scriptArg
  rw [yields_peek]
  split
  · rename_i hk
    exact group_frames h hk
  · rename_i hk
    rw [yields_next]
    exact yields_pure.mpr (Cursor.frames_mark hk (by decide))
  · rename_i hk
    refine Yields.bind (h.command hk) ?_
    intro o c' hc'
    cases o with
    | some n => exact yields_pure.mpr hc'
    | none => exact h.scriptArg.mono fun _ c2 h2 => hc'.trans h2
  · exact yields_unexpected

/-! ## Commands

The token of a command is plain, and read first. -/

theorem unary_frames {name : FunctionName} (h : rules.Framing) (hc : c.Frames c.tail) :
    Yields (unary rules name) s c fun _ c' => c.Frames c' := by
  unfold unary
  rw [yields_next]
  refine Yields.bind (scriptArg_frames h) fun arg c1 h1 => ?_
  rw [yields_lastStop]
  exact yields_pure.mpr (hc.trans h1)

/-- Two arguments behind the token of a command. -/
theorem pair_frames {name : FunctionName} {start : Nat} (h : rules.Framing)
    (hc : c.Frames c.tail) :
    Yields (do
        let first ← scriptArg rules
        let second ← scriptArg rules
        pure (Node.function name [first, second] none ⟨start, ← lastStop⟩)) s c.tail
      fun _ c' => c.Frames c' := by
  refine Yields.bind (scriptArg_frames h) fun first c1 h1 => ?_
  refine Yields.bind (scriptArg_frames h) fun second c2 h2 => ?_
  rw [yields_lastStop]
  exact yields_pure.mpr ((hc.trans h1).trans h2)

theorem named_frames {name : Text} (h : rules.Framing) (hc : c.Frames c.tail) :
    Yields (named rules name) s c fun _ c' => c.Frames c' := by
  -- the argument behind the name, with or without an exponent
  have rest : ∀ (exponent : Option Node) (head : Token) (c' : Cursor), c.Frames c' →
      Yields (do
          let arg ← operand rules
          pure (Node.function .regular [unitAt name head.span, arg] exponent
            ⟨head.start, ← lastStop⟩)) s c' fun _ c2 => c.Frames c2 := by
    intro exponent head c' hc'
    refine Yields.bind (operand_frames h) fun arg c1 h1 => ?_
    rw [yields_lastStop]
    exact yields_pure.mpr (hc'.trans h1)
  unfold named
  rw [yields_next, yields_peek]
  dsimp only
  split
  · rename_i hk
    rw [yields_next]
    have hcaret := hc.trans (Cursor.frames_mark hk (by decide))
    refine Yields.bind (P := fun _ c' => c.Frames c') ?_ fun e c1 h1 => rest e _ c1 h1
    exact (scriptArg_frames h).map fun _ c1 h1 => hcaret.trans h1
  · exact yields_pure_bind.mpr (rest none _ c.tail hc)

/-- The tokens of the differentials of a derivative. -/
theorem derivativeHead?_split {d x : Token} (hd : derivativeHead? ts = some (d, x)) :
    ∃ a b o e z rest, ts = a :: d :: b :: o :: e :: x :: z :: rest ∧ a.kind = .opening .curly
      ∧ d.isChar "d" = true ∧ b.kind = .closing .curly ∧ o.kind = .opening .curly
      ∧ e.isChar "d" = true ∧ x.isLetter = true ∧ z.kind = .closing .curly := by
  unfold derivativeHead? at hd
  split at hd
  · rename_i a d' b o e x' z rest
    split at hd
    · rename_i hcond
      simp only [Bool.and_eq_true, beq_iff_eq] at hcond
      obtain ⟨⟨⟨⟨⟨⟨ha, hd'⟩, hb⟩, ho⟩, he⟩, hx'⟩, hz⟩ := hcond
      obtain ⟨rfl, rfl⟩ := Prod.mk.inj (Option.some.inj hd)
      exact ⟨a, b, o, e, z, rest, rfl, ha, hd', hb, ho, he, hx', hz⟩
    · exact absurd hd (by simp)
  · exact absurd hd (by simp)

/-- The differentials of a derivative are framed. -/
theorem derivativeHead?_framed {d x : Token} (hd : derivativeHead? ts = some (d, x)) :
    ∃ xs ys, ts = xs ++ ys ∧ xs.length = 7 ∧ Framed false xs := by
  obtain ⟨a, b, o, e, z, rest, rfl, ha, hd', hb, ho, he, hx, hz⟩ := derivativeHead?_split hd
  have hchar : ∀ {t : Token}, t.isChar "d" = true → t.Plain := fun ht =>
    plain_of_mark (Token.isChar_char ht) (by decide)
  have hbelow : Framed false (o :: ([e, x] ++ z :: [])) :=
    .group ho (.plain (hchar he) (.plain (plain_of_mark (Token.isLetter_char hx) (by decide))
      .nil)) hz .nil
  have habove : Framed false (a :: ([d] ++ b :: (o :: ([e, x] ++ z :: [])))) :=
    .group ha (.plain (hchar hd') .nil) hb hbelow
  exact ⟨[a, d, b, o, e, x, z], rest, rfl, rfl, habove⟩

theorem fraction_frames (h : rules.Framing) (hc : c.Frames c.tail) :
    Yields (fraction rules) s c fun _ c' => c.Frames c' := by
  unfold fraction
  rw [yields_next, yields_lookahead]
  split
  · rename_i d x hd
    obtain ⟨xs, ys, hxs, hlen, hx⟩ := derivativeHead?_framed hd
    have hskip := Cursor.frames_skip hxs hx
    rw [hlen] at hskip
    rw [yields_skip]
    refine Yields.bind (operand_frames h) fun arg c1 h1 => ?_
    rw [yields_lastStop]
    exact yields_pure.mpr ((hc.trans hskip).trans h1)
  · exact pair_frames h hc

theorem root_frames (h : rules.Framing) (hc : c.Frames c.tail) :
    Yields (root rules) s c fun _ c' => c.Frames c' := by
  have rest : ∀ (degree : Option Node) (start : Nat) (c' : Cursor), c.Frames c' →
      Yields (do
          let radicand ← scriptArg rules
          pure (Node.function .sqrt (degree.toList ++ [radicand]) none ⟨start, ← lastStop⟩)) s c'
        fun _ c2 => c.Frames c2 := by
    intro degree start c' hc'
    refine Yields.bind (scriptArg_frames h) fun radicand c1 h1 => ?_
    rw [yields_lastStop]
    exact yields_pure.mpr (hc'.trans h1)
  unfold root
  rw [yields_next, yields_peek]
  dsimp only
  split
  · rename_i hk
    refine Yields.bind (P := fun _ c' => c.Frames c') ?_ fun d c1 h1 => rest d _ c1 h1
    exact (group_frames h hk).map fun _ c1 h1 => hc.trans h1
  · exact yields_pure_bind.mpr (rest none _ c.tail hc)

theorem script_frames {subAllowed : Bool} {r : Scripts} (h : rules.Framing) :
    Yields (script rules subAllowed r) s c fun _ c' => c.Frames c' := by
  unfold script
  rw [yields_peek]
  refine yields_ite (fun hk => ?_) fun _ => yields_ite (fun hk => ?_) fun _ => ?_
  · rw [yields_next]
    refine Yields.bind (scriptArg_frames h) fun arg c1 h1 => ?_
    exact yields_pure.mpr ((Cursor.frames_mark hk.1 (by decide)).trans h1)
  · rw [yields_next]
    refine Yields.bind (scriptArg_frames h) fun arg c1 h1 => ?_
    exact yields_pure.mpr ((Cursor.frames_mark hk.1 (by decide)).trans h1)
  · exact yields_pure.mpr (.refl c)

theorem yields_skipLimits {β : Type} {f : Unit → Parser β} {post : β → Cursor → Prop}
    (h : ∀ c', c.Frames c' → Yields (f ()) s c' post) : Yields (skipLimits >>= f) s c post := by
  have hrun : skipLimits s c
      = .ok ((), c.skip (c.rest.takeWhile (·.isCommand ["limits"])).length) := skip_eq _
  rw [yields_of_ok hrun]
  refine h _ (Cursor.frames_takeWhile fun t ht => ?_)
  exact plain_of_isCommand ht (by decide)

theorem integralBody_frames (h : rules.Framing) :
    Yields (integralBody rules) s c fun _ c' => c.Frames c' := by
  unfold integralBody
  rw [yields_peek]
  refine yields_ite (fun hk => group_frames h hk) fun _ => ?_
  refine Yields.bind h.sequence ?_
  rintro nodes c1 ⟨h1, -⟩
  rw [yields_peek]
  exact yields_pure.mpr h1

theorem integral_frames (h : rules.Framing) (hc : c.Frames c.tail) :
    Yields (integral rules) s c fun _ c' => c.Frames c' := by
  unfold integral
  rw [yields_next]
  refine yields_skipLimits fun c1 h1 => ?_
  refine Yields.bind (script_frames h) fun one c2 h2 => ?_
  refine yields_skipLimits fun c3 h3 => ?_
  refine Yields.bind (script_frames h) fun both c4 h4 => ?_
  refine yields_skipLimits fun c5 h5 => ?_
  have hscripts := hc.trans (h1.trans (h2.trans (h3.trans (h4.trans h5))))
  refine yields_ite (fun _ => ?_) fun _ => ?_
  · rw [yields_peek]
    exact yields_failAt
  · refine Yields.bind (integralBody_frames h) fun body c6 h6 => ?_
    rw [yields_peek, yields_peekAt]
    refine yields_ite (fun hd => ?_) fun _ => yields_unexpected
    rw [Bool.and_eq_true] at hd
    rw [yields_skip]
    refine yields_pure.mpr ?_
    -- the two tokens of the differential
    have hfirst : c6.Frames c6.tail := Cursor.frames_mark (Token.isChar_char hd.1) (by decide)
    have hsecond : c6.tail.Frames c6.tail.tail := by
      rw [← c6.token_tail] at hd
      exact Cursor.frames_mark (Token.isLetter_char hd.2) (by decide)
    exact (hscripts.trans h6).trans (hfirst.trans hsecond)

theorem limit_frames (h : rules.Framing) (hc : c.Frames c.tail) :
    Yields (limit rules) s c fun _ c' => c.Frames c' := by
  unfold limit
  rw [yields_next]
  refine yields_expect fun hunderscore => yields_expect fun hopen => ?_
  refine Yields.bind h.sequence ?_
  rintro name c2 ⟨⟨xs, hxs, hx⟩, -⟩
  rw [yields_peek]
  refine yields_ite (fun harrow => ?_) fun _ => yields_unexpected
  rw [yields_next]
  refine Yields.bind h.sequence ?_
  rintro target c4 ⟨⟨ys, hys, hy⟩, -⟩
  refine yields_expect fun hclose => ?_
  refine Yields.bind (operand_frames h) fun arg c6 h6 => ?_
  rw [yields_lastStop]
  refine yields_pure.mpr ?_
  -- the braces around the name, the arrow and the target
  have hplain : (c2.token s.text.length 0).Plain := plain_of_isCommand harrow (by decide)
  have hgroup : c.tail.tail.Frames c4.tail := by
    refine frames_group ⟨_, xs ++ (c2.token s.text.length 0 :: ys), _, ?_, hopen,
      hx.append (.plain hplain hy), hclose⟩
    have harrow' := (isCommand_iff.mp harrow).1
    rw [Cursor.rest_tail hopen (by simp), hxs, Cursor.rest_tail harrow' (by simp), hys,
      Cursor.rest_tail hclose (by simp)]
    simp
  exact ((hc.trans (Cursor.frames_mark hunderscore (by decide))).trans hgroup).trans h6

theorem logarithm_frames (h : rules.Framing) (hc : c.Frames c.tail) :
    Yields (logarithm rules) s c fun _ c' => c.Frames c' := by
  unfold logarithm
  rw [yields_next]
  refine Yields.bind (script_frames h) fun one c1 h1 => ?_
  refine Yields.bind (script_frames h) fun both c2 h2 => ?_
  refine Yields.bind (operand_frames h) fun arg c3 h3 => ?_
  have hall := hc.trans (h1.trans (h2.trans h3))
  rw [yields_lastStop]
  split
  · exact yields_pure.mpr hall
  · exact yields_ite (fun _ => yields_pure.mpr hall) fun _ => yields_pure.mpr hall

/-! ## Environments -/

theorem environmentName_named :
    Yields environmentName s c fun r c' => ∃ xs, c.rest = xs ++ c'.rest ∧ Named r.1 xs := by
  unfold environmentName
  refine yields_expect fun hopen => ?_
  obtain ⟨letters, behind, hparts, htake, hletters⟩ : ∃ letters behind,
      c.tail.rest = letters ++ behind ∧ c.tail.rest.takeWhile (·.kind == .char) = letters
        ∧ ∀ t ∈ letters, t.kind = .char :=
    ⟨_, _, List.takeWhile_append_dropWhile.symm, rfl,
      fun t ht => eq_of_beq (List.all_eq_true.mp List.all_takeWhile t ht)⟩
  rw [yields_peek, yields_lookahead, htake, yields_skip]
  have hbehind : (c.tail.skip letters.length).rest = behind := by
    rw [skip_drop, hparts, List.drop_left]
  refine yields_expect fun hclose => yields_pure.mpr ?_
  refine ⟨_ :: (letters ++ [_]), ?_, .intro hopen hletters rfl hclose⟩
  rw [Cursor.rest_tail hopen (by simp), hparts, ← hbehind, Cursor.rest_tail hclose (by simp)]
  simp

/-- A cell ends with a token that ends the row or the environment, or, in a matrix, the cell. -/
theorem rows_frames {name : Text} {row before : List Node} (h : rules.Framing) :
    Yields (rows rules matrix name row before) s c fun _ c' =>
      ∃ xs e, c.rest = xs ++ e :: c'.rest ∧ Framed matrix xs ∧ e.isCommand ["end"] = true := by
  unfold rows
  rw [yields_peek]
  refine Yields.bind h.sequence.rewordAtEnd ?_
  rintro nodes c1 ⟨⟨xs, hxs, hx⟩, hstop⟩
  have hx := hx.of_false matrix
  rw [yields_peek, yields_next]
  obtain ⟨t, ts, hts⟩ : ∃ t ts, c1.rest = t :: ts := by
    cases hrest : c1.rest with
    | nil =>
        rw [hrest] at hstop
        exact absurd hstop (by simp [Stop.holds])
    | cons t ts => exact ⟨t, ts, rfl⟩
  have htoken : c1.token s.text.length 0 = t := by
    rw [Cursor.token, hts]
    rfl
  have htail : c1.tail.rest = ts := by
    unfold Cursor.tail
    rw [hts]
  rw [hts] at hstop hxs
  simp only [Stop.holds, Bool.or_eq_true, Bool.and_eq_true, beq_iff_eq] at hstop
  rw [htoken]
  -- the cells behind a separator
  have more : ∀ row' before', Framed matrix [t] →
      Yields (rules.rows matrix name row' before') s c1.tail fun _ c' =>
        ∃ xs e, c.rest = xs ++ e :: c'.rest ∧ Framed matrix xs ∧ e.isCommand ["end"] = true := by
    intro row' before' ht
    refine h.rows.mono ?_
    rintro _ c2 ⟨ys, e, hys, hy, he⟩
    refine ⟨xs ++ ([t] ++ ys), e, ?_, hx.append (ht.append hy), he⟩
    rw [htail] at hys
    rw [hxs, hys]
    simp
  refine yields_ite (fun hamp => more _ _ ?_) fun hamp => yields_ite (fun hk => ?_) fun hk => ?_
  · rcases hstop with (hk | ⟨rfl, -⟩) | hk
    · rw [hk] at hamp
      exact absurd hamp (by simp)
    · exact .separator hamp .nil
    · rw [(isCommand_iff.mp hk).1] at hamp
      exact absurd hamp (by simp)
  · refine yields_pure.mpr ⟨xs, t, ?_, hx, ?_⟩
    · rw [htail]
      exact hxs
    · rcases hstop with (hk' | ⟨-, hk'⟩) | hend
      · rw [hk'] at hk
        exact absurd hk (by simp)
      · exact absurd hk' hamp
      · exact hend
  · refine more _ _ ?_
    rcases hstop with (hk' | ⟨-, hk'⟩) | hend
    · exact .plain (plain_of_mark hk' (by decide)) .nil
    · exact absurd hk' hamp
    · exact absurd (isCommand_iff.mp hend).1 hk

theorem environment_frames (h : rules.Framing)
    (hc : (c.token s.text.length 0).isCommand ["begin"] = true) :
    Yields (environment rules) s c fun _ c' => c.Frames c' := by
  have hrest := Cursor.rest_tail (isCommand_iff.mp hc).1 (by simp)
  unfold environment
  rw [yields_next]
  refine Yields.bind environmentName_named ?_
  rintro ⟨name, nameStart⟩ c1 ⟨xs, hxs, hname⟩
  dsimp only at hname ⊢
  split
  · rw [yields_lastStop]
    exact yields_failAt
  rename_i type htype
  -- the rows and the end, with or without the columns of an array before them
  have rest : ∀ (start : Nat) (c' : Cursor) (zs : List Token), c1.rest = zs ++ c'.rest →
      Framed (type == .determinant) zs →
      Yields (do
          let cells ← rules.rows (type == .determinant) name [] []
          let last ← environmentName
          if last.1 = name then pure (Node.environment type cells ⟨start, ← lastStop⟩)
          else
            failAt last.2 (← lastStop) last.1
              ("\\begin\x7b" ++ name ++ "\x7d ended by \\end\x7b" ++ last.1 ++ "\x7d")) s c'
        fun _ c2 => c.Frames c2 := by
    intro start c' zs hzs hz
    refine Yields.bind h.rows ?_
    rintro cells c2 ⟨ws, e, hws, hw, he⟩
    refine Yields.bind environmentName_named ?_
    rintro ⟨last, lastStart⟩ c3 ⟨ys, hys, hlast⟩
    dsimp only at hlast ⊢
    refine yields_ite (fun heq => ?_) fun _ => ?_
    · subst heq
      rw [yields_lastStop]
      refine yields_pure.mpr ⟨_ :: xs ++ ((zs ++ ws) ++ (e :: ys ++ [])), ?_,
        .environment htype (.intro hc hname) (hz.append hw) (.intro he hlast) .nil⟩
      rw [hrest, hxs, hzs, hws, hys]
      simp
    · rw [yields_lastStop]
      exact yields_failAt
  rw [yields_peek]
  split
  · rename_i hcolumns
    refine Yields.bind (group_frames h hcolumns.2) ?_
    rintro _ c2 ⟨zs, hzs, hz⟩
    exact rest _ c2 zs hzs (hz.of_false _)
  · exact rest _ c1 [] rfl .nil

/-! ## The grammar -/

theorem command_frames (h : rules.Framing) (hk : (c.token s.text.length 0).kind = .command) :
    Yields (command rules) s c fun _ c' => c.Frames c' := by
  have plain : ∀ {names : List Text}, (c.token s.text.length 0).isCommand names = true →
      (∀ name ∈ names, name ∉ reserved) → c.Frames c.tail := fun ht hnames =>
    Cursor.frames_command hk (plain_of_isCommand ht hnames)
  have known : ∀ {names : List Text}, names.contains (c.token s.text.length 0).text = true →
      (∀ name ∈ names, name ∉ reserved) → c.Frames c.tail := fun ht hnames =>
    Cursor.frames_command hk (plain_of_command hk (List.contains_iff_mem.mp ht) hnames)
  unfold command
  rw [yields_peek]
  refine yields_ite (fun ht => ?_) fun _ => yields_ite (fun ht => ?_) fun _ => ?_
  · rw [yields_next]
    exact yields_pure.mpr (known ht (by decide))
  · rw [yields_next]
    exact yields_pure.mpr (known ht (by decide))
  split
  · rename_i name hname
    have hmem : (c.token s.text.length 0).text ∈ namedFunctions.map (·.1) := by
      obtain ⟨before, behind, hsplit, -⟩ := List.lookup_eq_some_iff.mp hname
      rw [hsplit]
      simp
    have hc := Cursor.frames_command hk (plain_of_command hk hmem (by decide))
    exact (named_frames h hc).map fun _ _ hc' => hc'
  · refine yields_ite (fun ht => (fraction_frames h (plain ht (by decide))).map fun _ _ hc' => hc')
      fun _ => ?_
    refine yields_ite (fun ht => (root_frames h (plain ht (by decide))).map fun _ _ hc' => hc')
      fun _ => ?_
    refine yields_ite (fun ht => (integral_frames h (plain ht (by decide))).map fun _ _ hc' => hc')
      fun _ => ?_
    refine yields_ite (fun ht => (limit_frames h (plain ht (by decide))).map fun _ _ hc' => hc')
      fun _ => ?_
    refine yields_ite (fun ht => (logarithm_frames h (plain ht (by decide))).map fun _ _ hc' => hc')
      fun _ => ?_
    refine yields_ite (fun ht => Yields.map (P := fun _ c' => c.Frames c') ?_ fun _ _ hc' => hc')
      fun _ => ?_
    · unfold binary
      rw [yields_next]
      exact pair_frames h (plain ht (by decide))
    refine yields_ite (fun ht => (unary_frames h (plain ht (by decide))).map fun _ _ hc' => hc')
      fun _ => ?_
    exact yields_ite (fun ht => (environment_frames h ht).map fun _ _ hc' => hc') fun _ =>
      yields_failAt

/-- One more unfolding reads framed tokens. -/
theorem Rules.Framing.unfold (h : rules.Framing) : rules.unfold.Framing where
  sequence := sequence_frames h
  items := items_frames h
  command hk := command_frames h hk
  operand := operand_frames h
  scriptArg := scriptArg_frames h
  rows := rows_frames h

theorem rulesTo_framing (n : Nat) : (rulesTo n).Framing := by
  induction n with
  | zero =>
      exact ⟨yields_spent, yields_spent, fun _ => yields_spent, yields_spent, yields_spent,
        yields_spent⟩
  | succ n ih => exact ih.unfold

/-- **The tokens of a text that is accepted are framed.** -/
theorem parse_framed {limit : Nat} {t : Text} {tree : Node} (h : parse limit t = .ok tree) :
    ∃ ts, tokens t = .ok ts ∧ Framed false ts := by
  cases htokens : tokens t with
  | error e =>
      unfold parse at h
      rw [htokens] at h
      exact absurd h (by simp)
  | ok ts =>
      refine ⟨ts, rfl, ?_⟩
      rcases parse_grammar htokens limit with ⟨nodes, c, hrun, hrest, -⟩ | ⟨e, atEnd, -, hparse⟩
      · obtain ⟨⟨xs, hxs, hx⟩, -⟩ := (rulesTo_framing (unfoldings ts)).sequence nodes c hrun
        rw [hrest, List.append_nil] at hxs
        rw [show ts = xs from hxs]
        exact hx
      · rw [h] at hparse
        exact absurd hparse (by simp)

end MathMarkup.Grammar
