import MathMarkup.Proofs.Reading
import MathMarkup.Proofs.Trees

/-!
# Sequences, groups and arguments

`Rules.Sound` says what the productions owe one another. Each gives trees that are built, moves the
cursor forward, and where it introduces a construct moves it over at least one token. Each runs out
of unfoldings only if there are too few for the tokens that are left: two for each token, since
reading a token may take a reference to the command rule and one behind it.

The lemmas below discharge that contract for the productions that are not tied to a command, given
rules that meet it one level down.
-/

namespace MathMarkup.Grammar

open MathMarkup.Grammar.Parser
open MathMarkup.Node (Built BuiltAll)

variable {commas : Bool} {level : Nat} {rules : Rules} {short : Prop} {s : Scope} {c : Cursor}

/-- What a sequence owes: it stops where it should, and its nodes are built. -/
def Sequenced (commas : Bool) (size : Nat) (stop : Stop) (c : Cursor) (ns : List Node)
    (c' : Cursor) : Prop :=
  c.Reads c' ∧ stop.holds c'.rest = true ∧ BuiltAll commas size ns

/-- What the production of an argument owes. -/
def Argued (commas : Bool) (size : Nat) (c : Cursor) (n : Node) (c' : Cursor) : Prop :=
  c.Past c' ∧ Plain commas size n

/-- What the production of a construct owes; some commands produce nothing. -/
def Produced (commas : Bool) (size : Nat) (c : Cursor) (o : Option Node) (c' : Cursor) : Prop :=
  c.Past c' ∧ ∀ n ∈ o, Built commas size n

/-- Rows of an environment. -/
def Rows (commas : Bool) (size : Nat) (es : List Node) : Prop :=
  ∃ rs : List (List Node × Span), es = rs.map Node.row ∧ ∀ r ∈ rs, BuiltAll commas size r.1

/-- Rules, unfolded `level` times, that keep the contract. -/
structure Rules.Sound (commas : Bool) (level : Nat) (rules : Rules) : Prop where
  sequence : ∀ {stop : Stop} {definable : Bool} {s : Scope} {c : Cursor},
    c.Sound commas s.text.length →
    Meets (level ≤ 2 * c.rest.length) (rules.sequence stop definable) s c
      (Sequenced commas s.text.length stop c)
  items : ∀ {stop : Stop} {b : Builder} {s : Scope} {c : Cursor},
    c.Sound commas s.text.length → b.Sound commas s.text.length →
    Meets (level ≤ 2 * c.rest.length) (rules.items stop b) s c
      (Sequenced commas s.text.length stop c)
  command : ∀ {s : Scope} {c : Cursor}, c.Sound commas s.text.length →
    (c.token s.text.length 0).kind = .command →
    Meets (level < 2 * c.rest.length) rules.command s c (Produced commas s.text.length c)
  operand : ∀ {s : Scope} {c : Cursor}, c.Sound commas s.text.length →
    Meets (level ≤ 2 * c.rest.length) rules.operand s c (Argued commas s.text.length c)
  scriptArg : ∀ {s : Scope} {c : Cursor}, c.Sound commas s.text.length →
    Meets (level ≤ 2 * c.rest.length) rules.scriptArg s c (Argued commas s.text.length c)
  rows : ∀ {matrix : Bool} {name : Text} {row before : List Node} {s : Scope} {c : Cursor},
    c.Sound commas s.text.length → Rows commas s.text.length row →
    Rows commas s.text.length before →
    Meets (level ≤ 2 * c.rest.length + 1) (rules.rows matrix name row before) s c
      (fun es c' => c.Reads c' ∧ Rows commas s.text.length es)

/-! ## Groups -/

theorem groupContents_meets {kind : Bracket} (h : rules.Sound commas level)
    (hc : c.Sound commas s.text.length) (hshort : level ≤ 2 * (c.rest.length - 1) → short) :
    Meets short (groupContents rules kind) s c
      (fun r c' => c.Past c' ∧ BuiltAll commas s.text.length r.1) := by
  unfold groupContents
  rw [meets_next]
  refine Meets.bind ((h.sequence hc.tail).mono (fun hl => hshort ?_) fun _ _ => id) ?_
  · rw [c.tail_length] at hl; exact hl
  · rintro ns c1 ⟨hr, -, hns⟩
    refine meets_expect (hr.sound hc.tail) fun hk => ?_
    rw [meets_pure]
    exact ⟨(c.reads_tail.trans hr).past (c1.past_tail hk (by simp)), hns⟩

theorem group_meets {kind : Bracket} (h : rules.Sound commas level)
    (hc : c.Sound commas s.text.length) (hshort : level ≤ 2 * (c.rest.length - 1) → short) :
    Meets short (group rules kind) s c (fun n c' => c.Past c'
      ∧ ∃ ns span, n = .expression (wrappingOf kind) ns span
        ∧ BuiltAll commas s.text.length ns) := by
  unfold group
  refine Meets.bind (groupContents_meets h hc hshort) ?_
  rintro ⟨ns, span⟩ c' ⟨hp, hns⟩
  exact ⟨hp, ns, span, rfl, hns⟩

/-- A group can be given to a function. -/
theorem group_argued {kind : Bracket} (h : rules.Sound commas level)
    (hc : c.Sound commas s.text.length) (hshort : level ≤ 2 * (c.rest.length - 1) → short) :
    Meets short (group rules kind) s c (Argued commas s.text.length c) := by
  refine (group_meets h hc hshort).mono id ?_
  rintro n c' ⟨hp, ns, span, rfl, hns⟩
  exact ⟨hp, .expression hns, rfl⟩

theorem absolute_meets (h : rules.Sound commas level) (hc : c.Sound commas s.text.length)
    (hshort : level ≤ 2 * (c.rest.length - 1) → short) :
    Meets short (absolute rules) s c (Argued commas s.text.length c) := by
  unfold absolute
  rw [meets_next]
  refine Meets.bind ((h.sequence hc.tail).mono (fun hl => hshort ?_) fun _ _ => id) ?_
  · rw [c.tail_length] at hl; exact hl
  · rintro ns c1 ⟨hr, -, hns⟩
    refine meets_expect (hr.sound hc.tail) fun hk => ?_
    rw [meets_pure]
    refine ⟨(c.reads_tail.trans hr).past (c1.past_tail hk (by simp)), ?_, rfl⟩
    refine function_built (by simp [Solver.arities]) (by simp) (by simp) (fun a ha => ?_) (by simp)
    rw [List.mem_singleton.mp ha]
    exact argument_plain hns _

/-! ## Carets -/

theorem degreeWidth?_pos {ts : List Token} {n : Nat} (h : degreeWidth? ts = some n) : 1 ≤ n := by
  unfold degreeWidth? at h
  split at h
  · split at h
    · cases h; omega
    · split at h
      · split at h
        · cases h; omega
        · exact absurd h (by simp)
      · exact absurd h (by simp)
  · exact absurd h (by simp)

/-- A degree sign takes back any node, also one raised to a power. -/
theorem caret_meets {b : Builder} (hc : c.Sound commas s.text.length)
    (hb : b.Sound commas s.text.length) (hk : (c.token s.text.length 0).kind = .caret) :
    Meets short (caret b) s c (fun b' c' => c.Past c' ∧ b'.Sound commas s.text.length) := by
  unfold caret
  rw [meets_peek, meets_lookahead]
  split
  · rw [meets_next, meets_pure]
    exact ⟨c.past_tail hk (by simp), hb.addText (hc.token_literal 0 (Or.inr (Or.inl hk))) _⟩
  · rename_i width hw
    rw [meets_peekAt]
    split
    · exact meets_failAt (hc.token_le _) (hc.token_place _).2.2
    · rename_i operand before hp
      obtain ⟨hop, hbefore⟩ := hb.popOperand hp
      rw [meets_skip, meets_pure]
      refine ⟨c.past_skip (degreeWidth?_pos hw) (c.rest_ne_nil hk (by simp)), hbefore.add ?_⟩
      -- the operand is taken as it is, not wrapped: this is where a power can become an argument
      refine .function ⟨by simp [Solver.arities], by simp, by simp, by simp⟩ (fun a ha => ?_)
        (by simp)
      rw [List.mem_singleton.mp ha]
      exact hop

/-! ## Definitions -/

theorem Token.isLetter_char {t : Token} (h : t.isLetter = true) : t.kind = .char := by
  unfold Token.isLetter at h
  rw [Bool.and_eq_true] at h
  exact eq_of_beq h.1

theorem Token.isOperand_char {t : Token} (h : t.isOperand = true) : t.kind = .char := by
  unfold Token.isOperand at h
  rw [Bool.and_eq_true] at h
  exact eq_of_beq h.1

theorem Token.isChar_char {t : Token} {x : Text} (h : t.isChar x = true) : t.kind = .char := by
  unfold Token.isChar at h
  rw [Bool.and_eq_true] at h
  exact eq_of_beq h.1

/-- A definition begins with a letter and some tokens before its variable. -/
theorem definitionHead?_some {ts : List Token} {name : FunctionName} {width : Nat}
    (h : definitionHead? ts = some (name, width)) :
    (∃ t rest, ts = t :: rest ∧ t.isLetter = true) ∧ 1 ≤ width
      ∧ (name = .definition ∨ name = .inverseDefinition) := by
  unfold definitionHead? at h
  split at h
  · rename_i t rest
    split at h
    · exact absurd h (by simp)
    · rename_i hl
      have ht : t.isLetter = true := by simpa using hl
      split at h
      · split at h
        · cases h; exact ⟨⟨t, rest, rfl, ht⟩, by omega, Or.inr rfl⟩
        · exact absurd h (by simp)
      · split at h
        · cases h; exact ⟨⟨t, rest, rfl, ht⟩, by omega, Or.inl rfl⟩
        · exact absurd h (by simp)
  · exact absurd h (by simp)

theorem definition_meets {stop : Stop} (h : rules.Sound commas level)
    (hc : c.Sound commas s.text.length) (hshort : level ≤ 2 * (c.rest.length - 1) → short) :
    Meets short (definition rules stop) s c
      (fun o c' => c.Reads c' ∧ ∀ n ∈ o, Built commas s.text.length n) := by
  unfold definition
  rw [meets_lookahead]
  split
  · rw [meets_pure]
    exact ⟨.refl c, by simp⟩
  · rename_i name width hd
    obtain ⟨⟨t, rest, hrest, ht⟩, hwidth, hname⟩ := definitionHead?_some hd
    have htok : c.token s.text.length 0 = t := by simp [Cursor.token, hrest]
    have hne : c.rest ≠ [] := by rw [hrest]; simp
    have hskip := c.past_skip hwidth hne
    have hc1 := hskip.1.sound hc
    rw [meets_peek, meets_skip]
    refine Meets.bind (group_meets h hc1 fun hl => hshort ?_) ?_
    · have := hskip.2
      omega
    · rintro inner c2 ⟨hp2, ns, span, rfl, hns⟩
      have hr2 := hskip.1.trans hp2.1
      have hc2 := hr2.sound hc
      rw [meets_next]
      refine Meets.bind ((h.sequence hc2.tail).mono (fun hl => hshort ?_) fun _ _ => id) ?_
      · have := hp2.2
        have := hskip.2
        rw [c2.tail_length] at hl
        omega
      · rintro body c3 ⟨hr3, -, hbody⟩
        rw [meets_peek, meets_pure]
        refine ⟨hr2.trans (c2.reads_tail.trans hr3), ?_⟩
        rintro n hn
        obtain rfl := Option.some.inj hn
        refine function_built ?_ ?_ (fun _ => ⟨_, ns, span, _, rfl⟩) ?_ (by simp)
        · rcases hname with rfl | rfl <;> simp [Solver.arities]
        · rcases hname with rfl | rfl <;> simp
        · intro a ha
          simp only [List.mem_cons, List.not_mem_nil, or_false] at ha
          rcases ha with rfl | rfl | rfl
          · refine unitAt_plain (hc.token_literal 0 (Or.inl ?_)) _
            rw [htok]
            exact Token.isLetter_char ht
          · exact ⟨.expression (k := .round) hns, rfl⟩
          · exact argument_plain hbody _

/-! ## Sequences -/

theorem items_meets {stop : Stop} {b : Builder} (h : rules.Sound commas level)
    (hc : c.Sound commas s.text.length) (hb : b.Sound commas s.text.length) :
    Meets (level + 1 ≤ 2 * c.rest.length) (items rules stop b) s c
      (Sequenced commas s.text.length stop c) := by
  -- the rest of the sequence, behind at least one token
  have more : ∀ {b' : Builder} {c' : Cursor}, c.Past c' → b'.Sound commas s.text.length →
      Meets (level + 1 ≤ 2 * c.rest.length) (rules.items stop b') s c'
        (Sequenced commas s.text.length stop c) := by
    intro b' c' hp hb'
    refine (h.items (hp.1.sound hc) hb').mono (fun hl => ?_) ?_
    · have := hp.2
      omega
    · rintro ns c2 ⟨hr, hstop, hns⟩
      exact ⟨hp.1.trans hr, hstop, hns⟩
  unfold items
  rw [meets_lookahead]
  split
  · rename_i hstop
    rw [meets_pure]
    exact ⟨.refl c, hstop, hb.finish⟩
  · rw [meets_peek]
    have inner : ∀ {kind : TokenKind}, (c.token s.text.length 0).kind = kind → kind ≠ .finish →
        level ≤ 2 * (c.rest.length - 1) → level + 1 ≤ 2 * c.rest.length := by
      intro kind hk hne hl
      have := (c.past_tail hk hne).2
      omega
    split
    · rename_i hk
      rw [meets_next]
      exact more (c.past_tail hk (by simp))
        (hb.addText (hc.token_literal 0 (Or.inl hk)) _)
    · rename_i hk
      rw [meets_next]
      exact more (c.past_tail hk (by simp))
        (hb.addText (hc.token_literal 0 (Or.inr (Or.inr hk))) _)
    · rename_i kind hk
      refine Meets.bind (group_argued h hc (inner hk (by simp))) ?_
      rintro n c' ⟨hp, hn⟩
      exact more hp (hb.add hn.built)
    · rename_i hk
      refine Meets.bind (absolute_meets h hc (inner hk (by simp))) ?_
      rintro n c' ⟨hp, hn⟩
      exact more hp (hb.add hn.built)
    · rename_i hk
      refine Meets.bind (caret_meets hc hb hk) ?_
      rintro b' c' ⟨hp, hb'⟩
      exact more hp hb'
    · rename_i hk
      refine Meets.bind ((h.command hc hk).mono (fun hl => hl) fun _ _ => id) ?_
      rintro o c' ⟨hp, ho⟩
      cases o with
      | some n => exact more hp (hb.add (ho n rfl))
      | none => exact more hp hb
    all_goals exact meets_unexpected_token hc

/-- A definition leaves the cursor anywhere behind where it began; the items are read from there. -/
theorem itemsAfter_meets {stop : Stop} {c' : Cursor} (first : Option Node)
    (h : rules.Sound commas level) (hc : c.Sound commas s.text.length) (hr : c.Reads c')
    (hfirst : ∀ n ∈ first, Built commas s.text.length n) :
    Meets (level + 1 ≤ 2 * c.rest.length) (match first with
      | some n => items rules stop (Builder.add {} n)
      | none => items rules stop {}) s c' (Sequenced commas s.text.length stop c) := by
  have weaken : ∀ {b : Builder}, b.Sound commas s.text.length →
      Meets (level + 1 ≤ 2 * c.rest.length) (items rules stop b) s c'
        (Sequenced commas s.text.length stop c) := by
    intro b hb
    refine (items_meets h (hr.sound hc) hb).mono (fun hl => ?_) ?_
    · have := hr.length_le
      omega
    · rintro ns c2 ⟨hr2, hstop, hns⟩
      exact ⟨hr.trans hr2, hstop, hns⟩
  cases first with
  | some n => exact weaken (Builder.sound_empty.add (hfirst n rfl))
  | none => exact weaken Builder.sound_empty

theorem sequence_meets {stop : Stop} {definable : Bool} (h : rules.Sound commas level)
    (hc : c.Sound commas s.text.length) :
    Meets (level + 1 ≤ 2 * c.rest.length) (sequence rules stop definable) s c
      (Sequenced commas s.text.length stop c) := by
  have hc' : c.Sound commas { s with depth := s.depth + 1 }.text.length := hc
  unfold sequence
  refine meets_nested ?_
  cases definable with
  | false => exact meets_pure_bind.mpr (itemsAfter_meets none h hc' (.refl c) (by simp))
  | true =>
      by_cases hrest : c.rest = []
      · -- nothing is defined at the end of the text
        refine Meets.bind (P := fun o c' => o = none ∧ c' = c) ?_ ?_
        · unfold definition
          rw [meets_lookahead, hrest]
          exact ⟨rfl, rfl⟩
        · rintro first c' ⟨rfl, rfl⟩
          exact itemsAfter_meets none h hc' (.refl c') (by simp)
      · have : c.rest.length ≠ 0 := fun h0 => hrest (List.length_eq_zero_iff.mp h0)
        refine Meets.bind (definition_meets h hc' fun hl => by omega) ?_
        rintro first c' ⟨hr, hfirst⟩
        exact itemsAfter_meets first h hc' hr hfirst

/-! ## Arguments -/

/-- A run of letters and digits is literal. -/
theorem operandRun_literal {ts : List Token} (h : ∀ t ∈ ts, t.Sound commas) :
    LiteralText commas ((ts.takeWhile Token.isOperand).flatMap (·.text)) := by
  intro b hb
  obtain ⟨t, ht, hb⟩ := List.mem_flatMap.mp hb
  have hop : t.isOperand = true := List.all_eq_true.mp List.all_takeWhile t ht
  exact h t ((List.takeWhile_prefix _).mem ht) (Or.inl (Token.isOperand_char hop)) b hb

theorem operand_meets (h : rules.Sound commas level) (hc : c.Sound commas s.text.length)
    (hshort : level < 2 * c.rest.length → short) :
    Meets short (operand rules) s c (Argued commas s.text.length c) := by
  have inner : ∀ {kind : TokenKind}, (c.token s.text.length 0).kind = kind → kind ≠ .finish →
      level ≤ 2 * (c.rest.length - 1) → short := by
    intro kind hk hne hl
    refine hshort ?_
    have := (c.past_tail hk hne).2
    omega
  unfold operand
  rw [meets_peek]
  split
  · rename_i hk
    refine Meets.bind (groupContents_meets h hc (inner hk (by simp))) ?_
    rintro ⟨ns, span⟩ c' ⟨hp, hns⟩
    exact ⟨hp, .expression (k := .curly) hns, rfl⟩
  · rename_i kind hk
    exact group_argued h hc (inner hk (by simp))
  · rename_i hk
    exact absolute_meets h hc (inner hk (by simp))
  · rename_i hk
    refine Meets.bind ((h.command hc hk).mono hshort fun _ _ => id) ?_
    rintro o c' ⟨hp, ho⟩
    cases o with
    | some n => exact ⟨hp, wrapCurly_plain (ho n rfl)⟩
    | none =>
        refine (h.operand (hp.1.sound hc)).mono (fun hl => hshort ?_) ?_
        · have := hp.2
          omega
        · rintro n c2 ⟨hp2, hn⟩
          exact ⟨hp.1.past hp2, hn⟩
  · rename_i hk
    split
    · rename_i hop
      rw [meets_lookahead, meets_skip, meets_pure]
      obtain ⟨ts, hts⟩ := c.rest_of_kind hk (by simp)
      refine ⟨c.past_skip ?_ (by rw [hts]; simp), unitAt_plain (operandRun_literal hc.literal) _⟩
      rw [hts, List.takeWhile_cons_of_pos hop, List.length_cons]
      omega
    · exact meets_unexpected_token hc
  · exact meets_unexpected_token hc

theorem scriptArg_meets (h : rules.Sound commas level) (hc : c.Sound commas s.text.length)
    (hshort : level < 2 * c.rest.length → short) :
    Meets short (scriptArg rules) s c (Argued commas s.text.length c) := by
  unfold scriptArg
  rw [meets_peek]
  split
  · rename_i hk
    refine group_argued h hc fun hl => hshort ?_
    have := (c.past_tail hk (by simp)).2
    omega
  · rename_i hk
    rw [meets_next, meets_pure]
    exact ⟨c.past_tail hk (by simp), unitAt_plain (hc.token_literal 0 (Or.inl hk)) _⟩
  · rename_i hk
    refine Meets.bind ((h.command hc hk).mono hshort fun _ _ => id) ?_
    rintro o c' ⟨hp, ho⟩
    cases o with
    | some n => exact ⟨hp, wrapCurly_plain (ho n rfl)⟩
    | none =>
        refine (h.scriptArg (hp.1.sound hc)).mono (fun hl => hshort ?_) ?_
        · have := hp.2
          omega
        · rintro n c2 ⟨hp2, hn⟩
          exact ⟨hp.1.past hp2, hn⟩
  · exact meets_unexpected_token hc

end MathMarkup.Grammar
