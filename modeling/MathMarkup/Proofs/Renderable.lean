import MathMarkup.Proofs.Arguments
import MathMarkup.Proofs.Cutting

/-!
# Which trees can be rendered

A tree that comes from outside need not be one that reading builds. It is rendered if every function
in it takes its number of arguments, every environment has a type and a size that can be written,
and it is not too high; and if it is rendered its argument lists can be read back (`render_exact`).
All that is asked of the tree is that nothing is missing and that no character is a bracket or a
comma.

What has to be known about an argument is that it is `Separable`, whatever node it comes from. So
here an induction over all nodes is enough, and no shapes are told apart. As each stage of rendering
is given a condition that decides whether it succeeds (`Decides`), the condition for the tree is put
together in the order in which rendering goes.
-/

namespace MathMarkup

open MathMarkup.Text (byte)

namespace Node

/-! ## What stands in a tree -/

/-- What holds everywhere in a tree holds at its top and everywhere below. -/
theorem forall_occurs_iff {P : Node → Prop} {n : Node} :
    (∀ m, Occurs m n → P m) ↔ P n ∧ ∀ c ∈ n.children, ∀ m, Occurs m c → P m := by
  constructor
  · intro h
    exact ⟨h n .here, fun c hc m hm => h m (.child hc hm)⟩
  · rintro ⟨hn, hchildren⟩ m hm
    cases hm with
    | here => exact hn
    | child hc hm => exact hchildren _ hc m hm

theorem Occurs.trans {l m n : Node} (hl : Occurs l m) (hm : Occurs m n) : Occurs l n := by
  induction hm with
  | here => exact hl
  | child hc _ ih => exact .child hc ih

/-- A node stands so many levels below the top of a tree. -/
inductive OccursAt (m : Node) : Nat → Node → Prop where
  | here : OccursAt m 0 m
  | child {d : Nat} {n c : Node} : c ∈ n.children → OccursAt m d c → OccursAt m (d + 1) n

/-- Whatever stands in a tree stands on some level. -/
theorem occurs_iff_occursAt {m n : Node} : Occurs m n ↔ ∃ d, OccursAt m d n := by
  constructor
  · intro h
    induction h with
    | here => exact ⟨0, .here⟩
    | child hc _ ih =>
        obtain ⟨d, hd⟩ := ih
        exact ⟨d + 1, .child hc hd⟩
  · rintro ⟨d, h⟩
    induction h with
    | here => exact .here
    | child hc _ ih => exact .child hc ih

mutual

/-- What a node has if its children have it every node has. -/
theorem children_induction {P : Node → Prop} (h : ∀ n, (∀ c ∈ n.children, P c) → P n) :
    ∀ n : Node, P n
  | absent k => h (absent k) fun c hc => absurd hc (by simp [children])
  | root es s => h (root es s) (children_inductionList h es)
  | expression w ns s => h (expression w ns s) (children_inductionList h ns)
  | function name args exponent s => h (function name args exponent s) fun c hc => by
      rcases List.mem_append.mp hc with hc | hc
      · exact children_inductionList h args c hc
      · exact children_inductionOption h exponent c (Option.mem_toList.mp hc)
  | unit cs s => h (unit cs s) fun c hc => by
      obtain ⟨x, _, rfl⟩ := List.mem_map.mp hc
      exact h (char x) fun c hc => absurd hc (by simp [children])
  | char c => h (char c) fun c hc => absurd hc (by simp [children])
  | environment type es s => h (environment type es s) (children_inductionList h es)

theorem children_inductionList {P : Node → Prop} (h : ∀ n, (∀ c ∈ n.children, P c) → P n) :
    ∀ ns : List Node, ∀ n ∈ ns, P n
  | [] => fun _ hn => absurd hn (by simp)
  | n :: ns => fun m hm => by
      rcases List.mem_cons.mp hm with heq | hm
      · exact heq ▸ children_induction h n
      · exact children_inductionList h ns m hm

theorem children_inductionOption {P : Node → Prop} (h : ∀ n, (∀ c ∈ n.children, P c) → P n) :
    ∀ o : Option Node, ∀ n ∈ o, P n
  | none => fun _ hn => absurd hn (by simp)
  | some n => fun _ hm => Option.some.inj hm ▸ children_induction h n

end

/-! ## Levels -/

mutual

/-- The height of a tree in which the characters of a unit are not counted. -/
def levels : Node → Nat
  | absent _ => 1
  | root es _ => levelsList es + 1
  | expression _ ns _ => levelsList ns + 1
  | function _ args exponent _ => max (levelsList args) (levelsOption exponent) + 1
  | unit _ _ => 1
  | char _ => 1
  | environment _ es _ => levelsList es + 1

/-- The greatest height in a list of trees. -/
def levelsList : List Node → Nat
  | [] => 0
  | n :: ns => max (levels n) (levelsList ns)

/-- The height of a tree that may be missing. -/
def levelsOption : Option Node → Nat
  | none => 0
  | some n => levels n

end

variable {n : Node} {k : Nat}

theorem one_le_levels (n : Node) : 1 ≤ n.levels := by
  cases n <;> simp [levels]

theorem levelsList_le_iff {ns : List Node} : levelsList ns ≤ k ↔ ∀ n ∈ ns, n.levels ≤ k := by
  induction ns with
  | nil => simp [levelsList]
  | cons n ns ih => rw [levelsList, Nat.max_le, ih, List.forall_mem_cons]

theorem levelsOption_le_iff {o : Option Node} : levelsOption o ≤ k ↔ ∀ n ∈ o, n.levels ≤ k := by
  cases o <;> simp [levelsOption]

/-- But for units, the levels below a node are those of its children. -/
theorem levels_le_iff (hn : n.kind? ≠ some .calcunit) :
    n.levels ≤ k + 1 ↔ ∀ c ∈ n.children, c.levels ≤ k := by
  cases n with
  | absent | char => simp [levels, children]
  | unit => exact absurd rfl hn
  | root es | expression _ es | environment _ es =>
      rw [levels, Nat.add_le_add_iff_right]
      exact levelsList_le_iff
  | function name args exponent s =>
      rw [levels, Nat.add_le_add_iff_right, Nat.max_le, levelsList_le_iff, levelsOption_le_iff,
        children, List.forall_mem_append]
      simp only [Option.mem_toList, Option.mem_def]

/-! ## What is asked of a tree -/

/-- A node is there, and if it is a character it is no bracket and no comma. -/
def Clear : Node → Prop
  | absent _ => False
  | char c => ∀ b ∈ separators, c.code ≠ b.toNat
  | _ => True

/-- Solver syntax has a form for a node: a function is known and takes its number of arguments, an
environment has a known type, and a determinant has two or three rows. -/
def Expressible : Node → Prop
  | function name args _ _ =>
    name ∈ FunctionName.known ∧ args.length ∈ Solver.arities name
  | environment type es _ =>
    (type = .system ∨ type = .determinant)
      ∧ (type = .determinant → es.length = 4 ∨ es.length = 9)
  | _ => True

/-- The bytes of a character that is no bracket and no comma are none either. -/
theorem text_bare {c : Character} (h : (char c).Clear) : ∀ b ∈ c.text, Bare b := by
  have high : ∀ b : UInt8, 0x80 ≤ b → Bare b := by
    intro b hb hmem
    have ascii : separators.all (· < 0x80) = true := by decide
    have hlt := List.all_eq_true.mp ascii b hmem
    exact absurd hb (UInt8.not_le.mpr (of_decide_eq_true hlt))
  intro b hb
  unfold Character.text at hb
  by_cases hascii : (Text.charOfCode c.code).toNat < 0x80
  · rw [Text.ofChar_ascii hascii, List.mem_singleton] at hb
    intro hmem
    refine h b hmem ?_
    unfold Text.charOfCode at hascii hb
    split at hascii
    · rename_i hvalid
      rw [if_pos hvalid, Text.toNat_ofNat_of_valid hvalid.2] at hb
      rw [Text.toNat_ofNat_of_valid hvalid.2] at hascii
      have := hvalid.1
      rw [hb, UInt8.toNat_ofNat']
      omega
    · exact absurd hascii (by decide)
  · exact high b (Text.ofChar_high (by omega) b hb)

theorem unitText_separable {cs : List Character} (h : ∀ c ∈ cs, (char c).Clear) :
    Separable (unitText cs) := by
  refine .of_bare fun b hb => ?_
  obtain ⟨c, hc, hb⟩ := List.mem_flatMap.mp hb
  exact text_bare (h c hc) b hb

end Node

namespace Solver

open MathMarkup.Node (Occurs OccursAt Clear Expressible)

/-! ## Brackets of arguments -/

variable {t : Text}

/-- What stands in a bracket at the beginning of a separable text. -/
theorem inner_separable {k : Bracket} {r : Text} (h : Separable (k.opening :: r)) :
    ∃ body, Bracket.inner (k.opening :: r) 0 = .ok body ∧ Separable body := by
  obtain ⟨body, rest, hbody, hseparable⟩ := h.leading
  exact ⟨body, by rw [hbody, Bracket.inner_around hseparable.nested], hseparable⟩

theorem stripArgument_separable (h : Separable t) :
    ∃ u, stripArgument t = .ok u ∧ Separable u := by
  unfold stripArgument
  split
  · rename_i hhead
    obtain ⟨k, r, rfl⟩ : ∃ (k : Bracket) (r : Text), t = k.opening :: r := by
      cases t with
      | nil => exact absurd hhead (by simp)
      | cons b r =>
          rcases Bool.or_eq_true_iff.mp hhead with hb | hb
          · exact ⟨.curly, r, by rw [eq_of_beq hb]⟩
          · exact ⟨.square, r, by rw [eq_of_beq hb]⟩
    obtain ⟨body, hbody, hseparable⟩ := inner_separable h
    exact ⟨body, by rw [hbody]; rfl, hseparable⟩
  · exact ⟨t, rfl, h⟩

theorem unwrap_separable (h : Separable t) : ∃ u, unwrap t = .ok u ∧ Separable u := by
  unfold unwrap
  split
  · rename_i hhead
    cases t with
    | nil => exact absurd hhead (by simp)
    | cons b r =>
        obtain ⟨k, hk⟩ := Option.isSome_iff_exists.mp hhead
        obtain rfl := Bracket.ofOpening?_eq_some_iff.mp hk
        exact inner_separable h
  · exact ⟨t, rfl, h⟩

/-! ## Functions -/

variable {name : FunctionName} {parts : List Text}

/-- A function has a written form for the numbers of arguments that it takes. -/
theorem format?_eq_none_iff : format? name parts = none ↔ parts.length ∉ arities name := by
  -- no function takes more than four
  cases name <;> rcases parts with _ | ⟨a, _ | ⟨b, _ | ⟨c, _ | ⟨d, _ | ⟨e, rest⟩⟩⟩⟩⟩ <;>
    simp [format?, arities]

/-- Whether a function is written as a call and nothing else. -/
def isCall : FunctionName → Bool
  | .abs | .sqrt | .integral | .derivative | .binomial | .logarithm | .logarithm10 | .logarithmLn
  | .limit | .mean | .degrees => true
  | _ => false

/-- The arguments that are printed: all, but for the sign above the line of a derivative. -/
def printed : FunctionName → List Text → List Text
  | .derivative, args => args.drop 1
  | _, args => args

theorem mem_of_mem_printed {p : Text} (h : p ∈ printed name parts) : p ∈ parts := by
  unfold printed at h
  split at h
  · exact List.mem_of_mem_drop h
  · exact h

theorem format?_call (hcall : isCall name = true) (hlen : parts.length ∈ arities name) :
    printed name parts ≠ [] ∧ ∃ word : Text, word ≠ [] ∧ (∀ b ∈ word, Bare b)
      ∧ format? name parts = some (.ok (call word (printed name parts))) := by
  have hsome : format? name parts ≠ none := fun h => format?_eq_none_iff.mp h hlen
  revert hsome
  fun_cases format? name parts <;> intro hsome
  -- named functions, fractions and definitions are no calls
  case case1 | case7 | case9 | case10 => exact absurd hcall (by decide)
  case case18 => exact absurd rfl hsome
  all_goals exact ⟨by simp [printed], _, by decide, bare_of_isBare (by decide), rfl⟩

/-- A definition: a call, a sign of equality and a body. -/
theorem definition_separable (word : Text) {f x body : Text} (hne : word ≠ [])
    (hword : ∀ b ∈ word, Bare b) (hf : Separable f) (hx : Separable x) (hbody : Separable body) :
    ∃ t, (unwrap x).map (fun v => call word [f, v] ++ "=" ++ body) = .ok t ∧ Separable t := by
  obtain ⟨v, hv, hseparable⟩ := unwrap_separable hx
  have hequal : Separable (Text.ofString "=") := .of_bare (bare_of_isBare (by decide))
  have hargs : ∀ p ∈ [f, v], Separable p := by
    simp only [List.forall_mem_cons, List.not_mem_nil, false_imp_iff, implies_true, and_true]
    exact ⟨hf, hseparable⟩
  rw [hv]
  exact ⟨_, rfl, ((call_separable hne hword hargs).append hequal).append hbody⟩

/-- **Every function that takes its arguments has a written form.** -/
theorem format?_separable (hlen : parts.length ∈ arities name) (h : ∀ p ∈ parts, Separable p) :
    ∃ t, format? name parts = some (.ok t) ∧ Separable t := by
  cases name with
  | regular =>
      obtain ⟨f, x, rfl⟩ := List.length_eq_two.mp (List.mem_singleton.mp hlen)
      refine ⟨f ++ Bracket.around .round x, by rw [← applied_eq]; rfl, ?_⟩
      exact (h f (by simp)).append ((h x (by simp)).around .round)
  | fraction =>
      obtain ⟨a, b, rfl⟩ := List.length_eq_two.mp (List.mem_singleton.mp hlen)
      refine ⟨_, fraction_eq a b, (Separable.append ?_ ?_).around .curly⟩
      · exact (h a (by simp)).around .curly
      · exact .bare (by decide) ((h b (by simp)).around .curly)
  | definition =>
      obtain ⟨f, x, body, rfl⟩ := List.length_eq_three.mp (List.mem_singleton.mp hlen)
      obtain ⟨t, ht, hseparable⟩ := definition_separable "function" (by decide)
        (bare_of_isBare (by decide)) (h f (by simp)) (h x (by simp)) (h body (by simp))
      exact ⟨t, congrArg some ht, hseparable⟩
  | inverseDefinition =>
      obtain ⟨f, x, body, rfl⟩ := List.length_eq_three.mp (List.mem_singleton.mp hlen)
      obtain ⟨t, ht, hseparable⟩ := definition_separable "function_inverse" (by decide)
        (bare_of_isBare (by decide)) (h f (by simp)) (h x (by simp)) (h body (by simp))
      exact ⟨t, congrArg some ht, hseparable⟩
  | other => exact absurd hlen (by simp [arities])
  | _ =>
      obtain ⟨_, word, hne, hword, hformat⟩ := format?_call rfl hlen
      exact ⟨_, hformat, call_separable hne hword fun p hp => h p (mem_of_mem_printed hp)⟩

/-! ## Deciding -/

/-- A condition decides whether there is a result, and the result has `post`. -/
def Decides {α : Type} (fits : Prop) (r : Except StageError α) (post : α → Prop) : Prop :=
  match r with
  | .ok a => fits ∧ post a
  | .error _ => ¬ fits

section

variable {α β : Type} {p q : Prop} {r : Except StageError α} {P : α → Prop}

/-- Of two stages one after the other both have to succeed. -/
theorem Decides.bind {f : α → Except StageError β} {Q : β → Prop} (h : Decides p r P)
    (hf : ∀ a, P a → Decides q (f a) Q) : Decides (p ∧ q) (r >>= f) Q := by
  cases r with
  | error e => exact fun hpq => h hpq.1
  | ok a =>
      have ha := hf a h.2
      show Decides (p ∧ q) (f a) Q
      cases hfa : f a with
      | error e =>
          rw [hfa] at ha
          exact fun hpq => ha hpq.2
      | ok b =>
          rw [hfa] at ha
          exact ⟨⟨h.1, ha.1⟩, ha.2⟩

/-- A stage that cannot fail changes the result only. -/
theorem Decides.andThen {f : α → Except StageError β} {Q : β → Prop} (h : Decides p r P)
    (hf : ∀ a, P a → ∃ b, f a = .ok b ∧ Q b) : Decides p (r >>= f) Q := by
  cases r with
  | error e => exact h
  | ok a =>
      obtain ⟨b, hb, hQ⟩ := hf a h.2
      show Decides p (f a) Q
      rw [hb]
      exact ⟨h.1, hQ⟩

theorem Decides.congr (h : Decides p r P) (hpq : p ↔ q) : Decides q r P := by
  cases r with
  | error e => exact fun hq => h (hpq.mpr hq)
  | ok a => exact ⟨hpq.mp h.1, h.2⟩

theorem Decides.mono {Q : α → Prop} (h : Decides p r P) (hPQ : ∀ a, P a → Q a) :
    Decides p r Q := by
  cases r with
  | error e => exact h
  | ok a => exact ⟨h.1, hPQ a h.2⟩

theorem Decides.ok_iff (h : Decides p r P) : (∃ a, r = .ok a) ↔ p := by
  cases r with
  | error e => exact ⟨fun ⟨a, ha⟩ => absurd ha (by simp), fun hp => absurd hp h⟩
  | ok a => exact ⟨fun _ => h.1, fun _ => ⟨a, rfl⟩⟩

theorem Decides.post {a : α} (h : Decides p r P) (ha : r = .ok a) : P a := by
  subst ha
  exact h.2

end

theorem format_decides (name : FunctionName) (node : Node) (h : ∀ p ∈ parts, Separable p) :
    Decides (parts.length ∈ arities name) (format node name parts) Separable := by
  unfold format
  by_cases hlen : parts.length ∈ arities name
  · obtain ⟨t, ht, hseparable⟩ := format?_separable hlen h
    rw [ht]
    exact ⟨hlen, hseparable⟩
  · rw [format?_eq_none_iff.mpr hlen]
    dsimp only
    split <;> exact hlen

/-- A text is a list of parts in round brackets behind a word. -/
def ListOf (parts : List Text) (t : Text) : Prop :=
  ∃ word : Text, word ≠ [] ∧ (∀ b ∈ word, Bare b)
    ∧ t = word ++ Bracket.around .round (Text.join "," parts)

theorem ListOf.separable (h : ListOf parts t) (hparts : ∀ p ∈ parts, Separable p) :
    Separable t := by
  obtain ⟨word, hne, hword, rfl⟩ := h
  exact separable_list hne hword hparts

theorem formatEnvironment_decides (node : Node) (type : EnvironmentType) (parts : List Text) :
    Decides ((type = .system ∨ type = .determinant)
        ∧ (type = .determinant → parts.length = 4 ∨ parts.length = 9))
      (formatEnvironment node type parts) (ListOf parts) := by
  cases type with
  | system =>
      refine ⟨⟨Or.inl rfl, fun h => absurd h (by simp)⟩, ?_⟩
      exact ⟨"system", by decide, bare_of_isBare (by decide), rfl⟩
  | determinant =>
      unfold formatEnvironment
      by_cases h4 : parts.length = 4
      · rw [if_pos h4]
        refine ⟨⟨Or.inr rfl, fun _ => Or.inl h4⟩, ?_⟩
        exact ⟨"det2", by decide, bare_of_isBare (by decide), rfl⟩
      · by_cases h9 : parts.length = 9
        · rw [if_neg h4, if_pos h9]
          refine ⟨⟨Or.inr rfl, fun _ => Or.inr h9⟩, ?_⟩
          exact ⟨"det3", by decide, bare_of_isBare (by decide), rfl⟩
        · rw [if_neg h4, if_neg h9]
          exact fun h => (h.2 rfl).elim h4 h9
  | other name => exact fun h => h.1.elim (by simp) (by simp)

/-! ## Trees -/

/-- A tree can be rendered at a depth. -/
def Renderable (limit depth : Nat) (n : Node) : Prop :=
  (∀ m, Occurs m n → m.Expressible) ∧ depth + n.levels ≤ limit + 1

variable {limit depth : Nat}

/-- A node can be rendered if it has a form and its children can be rendered one level below. -/
theorem renderable_iff {n : Node} (hn : n.kind? ≠ some .calcunit) :
    Renderable limit depth n
      ↔ depth ≤ limit ∧ n.Expressible ∧ ∀ c ∈ n.children, Renderable limit (depth + 1) c := by
  unfold Renderable
  rw [Node.forall_occurs_iff]
  have hlevels : depth + n.levels ≤ limit + 1
      ↔ depth ≤ limit ∧ ∀ c ∈ n.children, depth + 1 + c.levels ≤ limit + 1 := by
    constructor
    · intro h
      have hone := n.one_le_levels
      have hchildren := (Node.levels_le_iff (k := limit - depth) hn).mp (by omega)
      exact ⟨by omega, fun c hc => by have := hchildren c hc; omega⟩
    · rintro ⟨hdepth, hchildren⟩
      have := (Node.levels_le_iff (k := limit - depth) hn).mpr fun c hc => by
        have := hchildren c hc
        omega
      omega
  rw [hlevels]
  constructor
  · rintro ⟨⟨hform, hforms⟩, hdepth, hchildren⟩
    exact ⟨hdepth, hform, fun c hc => ⟨hforms c hc, hchildren c hc⟩⟩
  · rintro ⟨hdepth, hform, hchildren⟩
    exact ⟨⟨hform, fun c hc => (hchildren c hc).1⟩, hdepth, fun c hc => (hchildren c hc).2⟩

/-- Whether a node is rendered is decided at every depth. -/
def Decided (n : Node) : Prop :=
  ∀ limit depth, Decides (Renderable limit depth n) (renderAt limit depth n) Separable

/-- So many texts, all of them separable. -/
def SeparableTexts (count : Nat) (ts : List Text) : Prop :=
  ts.length = count ∧ ∀ t ∈ ts, Separable t

theorem separableTexts_cons {count : Nat} {ts : List Text} (ht : Separable t)
    (hts : SeparableTexts count ts) : SeparableTexts (count + 1) (t :: ts) :=
  ⟨by rw [List.length_cons, hts.1], List.forall_mem_cons.mpr ⟨ht, hts.2⟩⟩

theorem renderList_decides {ns : List Node} (h : ∀ n ∈ ns, Decided n) :
    Decides (∀ n ∈ ns, Renderable limit depth n) (renderList limit depth ns)
      (SeparableTexts ns.length) := by
  induction ns with
  | nil => exact ⟨by simp, rfl, by simp⟩
  | cons n ns ih =>
      have ih := ih fun m hm => h m (List.mem_cons_of_mem _ hm)
      rw [renderList]
      refine Decides.congr (Decides.bind (h n (by simp) limit depth) fun t ht => ?_)
        List.forall_mem_cons.symm
      exact ih.andThen fun ts hts => ⟨_, rfl, separableTexts_cons ht hts⟩

theorem renderPresent_decides {missing : StageError} {ns : List Node}
    (hpresent : ∀ n ∈ ns, n.Clear) (h : ∀ n ∈ ns, Decided n) :
    Decides (∀ n ∈ ns, Renderable limit depth n) (renderPresent limit depth missing ns)
      (SeparableTexts ns.length) := by
  induction ns with
  | nil => exact ⟨by simp, rfl, by simp⟩
  | cons n ns ih =>
      have ih := ih (fun m hm => hpresent m (List.mem_cons_of_mem _ hm))
        fun m hm => h m (List.mem_cons_of_mem _ hm)
      have hn : isAbsent n = false := by
        cases n with
        | absent k => exact (hpresent (.absent k) (by simp)).elim
        | _ => rfl
      rw [renderPresent, hn, if_neg (by simp)]
      refine Decides.congr (Decides.bind (h n (by simp) limit depth) fun t ht => ?_)
        List.forall_mem_cons.symm
      exact ih.andThen fun ts hts => ⟨_, rfl, separableTexts_cons ht hts⟩

theorem renderArguments_decides {args : List Node} (h : ∀ n ∈ args, Decided n) :
    Decides (∀ n ∈ args, Renderable limit depth n) (renderArguments limit depth args)
      (SeparableTexts args.length) := by
  induction args with
  | nil => exact ⟨by simp, rfl, by simp⟩
  | cons n ns ih =>
      have ih := ih fun m hm => h m (List.mem_cons_of_mem _ hm)
      rw [renderArguments]
      refine Decides.congr (Decides.bind (h n (by simp) limit depth) fun t ht => ?_)
        List.forall_mem_cons.symm
      obtain ⟨u, hu, hseparable⟩ := stripArgument_separable ht
      rw [hu]
      exact ih.andThen fun ts hts => ⟨_, rfl, separableTexts_cons hseparable hts⟩

theorem renderPower_decides {base : Text} {exponent : Option Node} (hbase : Separable base)
    (h : ∀ e ∈ exponent, Decided e) :
    Decides (∀ e ∈ exponent, Renderable limit depth e) (renderPower limit depth base exponent)
      Separable := by
  cases exponent with
  | none => exact ⟨by simp, hbase⟩
  | some n =>
      rw [renderPower]
      refine Decides.congr ((h n rfl limit depth).andThen fun e he => ⟨_, rfl, ?_⟩) (by simp)
      rw [power_eq]
      exact (hbase.around .curly).append (.bare (by decide) he)

theorem delimiters_separable (w : Wrapping) (h : Separable t) :
    Separable (w.delimiters.1 ++ t ++ w.delimiters.2) := by
  cases w with
  | curly => exact h.around .curly
  | round => exact h.around .round
  | square => exact h.around .square
  | none | other => simpa [Wrapping.delimiters] using h

theorem renderRoot_decides {es : List Node} {s : Span} (hpresent : ∀ e ∈ es, e.Clear)
    (h : ∀ e ∈ es, Decided e) (hdepth : depth ≤ limit) :
    Decides (Renderable limit depth (.root es s)) (renderAt limit depth (.root es s))
      Separable := by
  rw [renderAt, if_neg (by omega)]
  refine Decides.congr ((renderPresent_decides hpresent h).andThen fun parts hparts => ?_) ?_
  · exact ⟨_, rfl, .flatten hparts.2⟩
  · rw [renderable_iff (by simp [Node.kind?])]
    exact ⟨fun hes => ⟨hdepth, trivial, hes⟩, fun hroot => hroot.2.2⟩

theorem renderExpression_decides {w : Wrapping} {ns : List Node} {s : Span}
    (h : ∀ n ∈ ns, Decided n) (hdepth : depth ≤ limit) :
    Decides (Renderable limit depth (.expression w ns s))
      (renderAt limit depth (.expression w ns s)) Separable := by
  rw [renderAt, if_neg (by omega)]
  refine Decides.congr ((renderList_decides h).andThen fun parts hparts => ?_) ?_
  · exact ⟨_, rfl, delimiters_separable w (.flatten hparts.2)⟩
  · rw [renderable_iff (by simp [Node.kind?])]
    exact ⟨fun hns => ⟨hdepth, trivial, hns⟩, fun hexpression => hexpression.2.2⟩

/-- Only a known function takes any arguments. -/
theorem mem_known_of_arity {count : Nat} (h : count ∈ arities name) :
    name ∈ FunctionName.known := by
  cases name with
  | other => exact absurd h (by simp [arities])
  | _ => decide

theorem renderFunction_decides {args : List Node} {exponent : Option Node} {s : Span}
    (h : ∀ c ∈ (Node.function name args exponent s).children, Decided c) (hdepth : depth ≤ limit) :
    Decides (Renderable limit depth (.function name args exponent s))
      (renderAt limit depth (.function name args exponent s)) Separable := by
  have hfits : Renderable limit depth (.function name args exponent s)
      ↔ (∀ a ∈ args, Renderable limit (depth + 1) a) ∧ args.length ∈ arities name
        ∧ ∀ e ∈ exponent, Renderable limit (depth + 1) e := by
    rw [renderable_iff (by simp [Node.kind?]), Node.children, List.forall_mem_append]
    simp only [Option.mem_toList]
    constructor
    · rintro ⟨_, ⟨_, harity⟩, hargs, hexponent⟩
      exact ⟨hargs, harity, hexponent⟩
    · rintro ⟨hargs, harity, hexponent⟩
      exact ⟨hdepth, ⟨mem_known_of_arity harity, harity⟩, hargs, hexponent⟩
  obtain ⟨hargs, hexponent⟩ := List.forall_mem_append.mp h
  simp only [Option.mem_toList] at hexponent
  rw [renderAt, if_neg (by omega)]
  refine Decides.congr (Decides.bind (renderArguments_decides hargs) fun parts hparts => ?_)
    hfits.symm
  have hformat := format_decides name (.function name args exponent s) hparts.2
  rw [hparts.1] at hformat
  exact hformat.bind fun base hbase => renderPower_decides hbase hexponent

theorem renderEnvironment_decides {type : EnvironmentType} {es : List Node} {s : Span}
    (hpresent : ∀ e ∈ es, e.Clear) (h : ∀ e ∈ es, Decided e) (hdepth : depth ≤ limit) :
    Decides (Renderable limit depth (.environment type es s))
      (renderAt limit depth (.environment type es s)) Separable := by
  have hfits : Renderable limit depth (.environment type es s)
      ↔ (∀ e ∈ es, Renderable limit (depth + 1) e) ∧ (Node.environment type es s).Expressible := by
    rw [renderable_iff (by simp [Node.kind?])]
    exact ⟨fun hes => ⟨hes.2.2, hes.2.1⟩, fun hes => ⟨hdepth, hes.2, hes.1⟩⟩
  rw [renderAt, if_neg (by omega)]
  refine Decides.congr ?_ hfits.symm
  cases hknown : type.isKnown with
  | false =>
      -- neither a system nor a determinant
      rintro ⟨_, rfl | rfl, _⟩ <;> exact absurd hknown (by decide)
  | true =>
      rw [if_pos rfl]
      refine Decides.bind (renderPresent_decides hpresent h) fun parts hparts => ?_
      have hformat := formatEnvironment_decides (.environment type es s) type parts
      rw [hparts.1] at hformat
      exact hformat.mono fun t ht => ht.separable hparts.2

theorem renderUnit_decides {cs : List Character} {s : Span}
    (hclear : ∀ c ∈ (Node.unit cs s).children, ∀ m, Occurs m c → m.Clear) (hdepth : depth ≤ limit) :
    Decides (Renderable limit depth (.unit cs s)) (renderAt limit depth (.unit cs s))
      Separable := by
  rw [renderAt, if_neg (by omega)]
  refine ⟨⟨Node.forall_occurs_iff.mpr ⟨trivial, fun c hc m hm => ?_⟩, ?_⟩, ?_⟩
  · obtain ⟨x, _, rfl⟩ := List.mem_map.mp hc
    cases hm with
    | here => exact trivial
    | child hc _ => exact absurd hc (by simp [Node.children])
  · rw [Node.levels]
    omega
  · exact Node.unitText_separable fun c hc =>
      hclear (.char c) (List.mem_map_of_mem hc) (.char c) .here

/-- **Whether a tree is rendered is decided by its functions, its environments and its height**, and
its text is separable. -/
theorem renderAt_decides {n : Node} (hclear : ∀ m, Occurs m n → m.Clear) : Decided n := by
  revert hclear
  refine Node.children_induction (P := fun n => (∀ m, Occurs m n → m.Clear) → Decided n) ?_ n
  intro n ih hclear limit depth
  obtain ⟨hn, hbelow⟩ := Node.forall_occurs_iff.mp hclear
  have hchildren : ∀ c ∈ n.children, Decided c := fun c hc => ih c hc (hbelow c hc)
  have hclears : ∀ c ∈ n.children, c.Clear := fun c hc => hbelow c hc c .here
  by_cases hdepth : depth ≤ limit
  · cases n with
    | absent k => exact hn.elim
    | root es s => exact renderRoot_decides hclears hchildren hdepth
    | expression w ns s => exact renderExpression_decides hchildren hdepth
    | function name args exponent s => exact renderFunction_decides hchildren hdepth
    | environment type es s => exact renderEnvironment_decides hclears hchildren hdepth
    | unit cs s => exact renderUnit_decides hbelow hdepth
    | char c =>
        rw [renderAt, if_neg (by omega)]
        refine ⟨(renderable_iff (by simp [Node.kind?])).mpr ⟨hdepth, trivial, ?_⟩, ?_⟩
        · exact fun c hc => absurd hc (by simp [Node.children])
        · exact .of_bare (Node.text_bare hn)
  · -- even a leaf has one level
    have hnot : ¬ Renderable limit depth n := fun h => by
      have := n.one_le_levels
      have := h.2
      omega
    rw [renderAt.eq_def, if_pos (by omega)]
    exact hnot

/-! ## Reading back -/

/-- What stands in a tree that can be rendered can be rendered on its level. Only the characters of
a unit are on no level of their own. -/
theorem Renderable.occursAt {m n : Node} {d : Nat} (h : Renderable limit depth n)
    (ho : OccursAt m d n) (hm : ∀ c, m ≠ .char c) : Renderable limit (depth + d) m := by
  induction ho generalizing depth with
  | here => exact h
  | @child d n c hc ho ih =>
      by_cases hn : n.kind? = some .calcunit
      · cases n with
        | unit cs s =>
            obtain ⟨x, _, rfl⟩ := List.mem_map.mp hc
            cases ho with
            | here => exact absurd rfl (hm x)
            | child hc _ => exact absurd hc (by simp [Node.children])
        | absent => exact absurd hc (by simp [Node.children])
        | _ => exact absurd hn (by simp [Node.kind?])
      · rw [Nat.add_comm d, ← Nat.add_assoc]
        exact ih (((renderable_iff hn).mp h).2.2 c hc)

/-- How a function is rendered at a depth: its arguments, the text before it is raised to a power,
and its text. -/
structure RendersAs (limit depth : Nat) (name : FunctionName) (args : List Node)
    (exponent : Option Node) (s : Span) (parts : List Text) (base t : Text) : Prop where
  arguments : renderArguments limit (depth + 1) args = .ok parts
  form : format (.function name args exponent s) name parts = .ok base
  power : renderPower limit (depth + 1) base exponent = .ok t
  whole : renderAt limit depth (.function name args exponent s) = .ok t

/-- The arguments of a function that is rendered as a call are read back. -/
theorem call_readBack {args : List Node} {exponent : Option Node} {s : Span}
    (hclear : ∀ m, Occurs m (.function name args exponent s) → m.Clear) (hcall : isCall name = true)
    (hfits : Renderable limit depth (.function name args exponent s)) :
    ∃ parts base t word, RendersAs limit depth name args exponent s parts base t
      ∧ base = call word (printed name parts)
      ∧ argumentsOf? base = some (printed name parts) := by
  obtain ⟨hdepth, ⟨_, harity⟩, hchildren⟩ := (renderable_iff (by simp [Node.kind?])).mp hfits
  have hbelow := (Node.forall_occurs_iff.mp hclear).2
  rw [Node.children, List.forall_mem_append] at hbelow hchildren
  have hargs : Decides _ (renderArguments limit (depth + 1) args) _ :=
    renderArguments_decides fun a ha => renderAt_decides (hbelow.1 a ha)
  obtain ⟨parts, hparts⟩ := hargs.ok_iff.mpr hchildren.1
  obtain ⟨hlen, hseparable⟩ := hargs.post hparts
  obtain ⟨hne, word, hword0, hword, hform⟩ := format?_call hcall (by rw [hlen]; exact harity)
  have hprinted : ∀ p ∈ printed name parts, Separable p :=
    fun p hp => hseparable p (mem_of_mem_printed hp)
  have hformat : format (.function name args exponent s) name parts
      = .ok (call word (printed name parts)) := by
    unfold format
    rw [hform]
  have hpower : Decides _
      (renderPower limit (depth + 1) (call word (printed name parts)) exponent) _ :=
    renderPower_decides (call_separable hword0 hword hprinted)
      fun e he => renderAt_decides (hbelow.2 e (Option.mem_toList.mpr he))
  obtain ⟨t, ht⟩ := hpower.ok_iff.mpr fun e he => hchildren.2 e (Option.mem_toList.mpr he)
  refine ⟨parts, _, t, word, ⟨hparts, hformat, ht, ?_⟩, rfl, argumentsOf?_call hword hne hprinted⟩
  rw [renderAt, if_neg (by omega), hparts]
  show (format (.function name args exponent s) name parts >>= fun base =>
    renderPower limit (depth + 1) base exponent) = _
  rw [hformat]
  exact ht

/-- The cells of an environment that is rendered are read back. -/
theorem environment_readBack {type : EnvironmentType} {es : List Node} {s : Span}
    (hclear : ∀ m, Occurs m (.environment type es s) → m.Clear)
    (hfits : Renderable limit depth (.environment type es s))
    (hcells : type = .determinant ∨ es ≠ []) :
    ∃ parts t word, renderPresent limit (depth + 1)
        (missingExpression (.environment type es s) "environment") es = .ok parts
      ∧ renderAt limit depth (.environment type es s) = .ok t
      ∧ t = word ++ "(" ++ Text.join "," parts ++ ")" ∧ cutCall? t = some parts := by
  obtain ⟨hdepth, hform, hchildren⟩ := (renderable_iff (by simp [Node.kind?])).mp hfits
  rw [Node.children] at hchildren
  have hbelow : ∀ e ∈ es, ∀ m, Occurs m e → m.Clear := (Node.forall_occurs_iff.mp hclear).2
  have hpresent : Decides _ (renderPresent limit (depth + 1)
      (missingExpression (.environment type es s) "environment") es) _ :=
    renderPresent_decides (fun e he => hbelow e he e .here)
      fun e he => renderAt_decides (hbelow e he)
  obtain ⟨parts, hparts⟩ := hpresent.ok_iff.mpr hchildren
  obtain ⟨hlen, hseparable⟩ := hpresent.post hparts
  have hformat := formatEnvironment_decides (.environment type es s) type parts
  rw [hlen] at hformat
  obtain ⟨t, ht⟩ := hformat.ok_iff.mpr hform
  obtain ⟨word, _, hword, heq⟩ := hformat.post ht
  have hne : parts ≠ [] := by
    rintro rfl
    rcases hcells with rfl | hes
    · have := hform.2 rfl
      rw [← hlen] at this
      exact absurd this (by simp)
    · exact hes (List.length_eq_zero_iff.mp hlen.symm)
  have hknown : type.isKnown = true := by
    rcases hform.1 with rfl | rfl <;> rfl
  refine ⟨parts, t, word, hparts, ?_, by rw [applied_eq]; exact heq, ?_⟩
  · rw [renderAt, if_neg (by omega), if_pos hknown, hparts]
    exact ht
  · rw [heq, cutCall?_list hword hne hseparable]

/--
**Which trees are rendered, and that their argument lists can be read back.** A tree in which
nothing is missing and no character is a bracket or a comma is rendered exactly if every function is
known and takes its arguments, every environment has a known type and a size that can be written,
and the tree has no more levels than allowed. Then every call in it, as it is before it is raised to
a power, gives the arguments that were printed when it is cut at its commas, and so does every
determinant and every system that has an equation.
-/
theorem render_exact {tree : Node} (hpresent : ∀ k, ¬ Occurs (.absent k) tree)
    (hchars : ∀ c, Occurs (.char c) tree → ∀ b ∈ separators, c.code ≠ b.toNat) (limit : Nat) :
    ((∃ out, render limit tree = .ok out)
        ↔ (∀ m, Occurs m tree → m.Expressible) ∧ tree.levels ≤ limit)
      ∧ ∀ out, render limit tree = .ok out →
        (∀ name args exponent s d, OccursAt (.function name args exponent s) d tree →
          isCall name = true →
          ∃ parts base t word, RendersAs limit (d + 1) name args exponent s parts base t
            ∧ base = call word (printed name parts)
            ∧ argumentsOf? base = some (printed name parts))
        ∧ ∀ type es s d, OccursAt (.environment type es s) d tree →
          (type = .determinant ∨ es ≠ []) →
          ∃ parts t word, renderPresent limit (d + 2)
              (missingExpression (.environment type es s) "environment") es = .ok parts
            ∧ renderAt limit (d + 1) (.environment type es s) = .ok t
            ∧ t = word ++ "(" ++ Text.join "," parts ++ ")" ∧ cutCall? t = some parts := by
  have hclear : ∀ m, Occurs m tree → m.Clear := by
    intro m hm
    cases m with
    | absent k => exact hpresent k hm
    | char c => exact hchars c hm
    | _ => exact trivial
  have hiff : (∃ out, render limit tree = .ok out) ↔ Renderable limit 1 tree :=
    (renderAt_decides hclear limit 1).ok_iff
  refine ⟨?_, fun out hout => ?_⟩
  · rw [hiff]
    exact and_congr_right fun _ => by omega
  · have hfits := hiff.mp ⟨out, hout⟩
    constructor
    · intro name args exponent s d ho hcall
      have hbelow := Node.occurs_iff_occursAt.mpr ⟨d, ho⟩
      rw [Nat.add_comm d]
      exact call_readBack (fun m hm => hclear m (hm.trans hbelow)) hcall
        (hfits.occursAt ho (by simp))
    · intro type es s d ho hcells
      have hbelow := Node.occurs_iff_occursAt.mpr ⟨d, ho⟩
      have hread := environment_readBack (fun m hm => hclear m (hm.trans hbelow))
        (hfits.occursAt ho (by simp)) hcells
      rwa [show 1 + d + 1 = d + 2 by omega, Nat.add_comm 1 d] at hread

/-- A unit of one character. -/
def single (code : Int) : Node := .unit [⟨code, ⟨0, 0⟩⟩] ⟨0, 0⟩

/-- The square of a cubic root of a logarithm. -/
def nestedLists : Node :=
  .root [.function .sqrt [single 0x33, .function .logarithm [single 0x32, single 0x78] none ⟨0, 0⟩]
    (some (single 0x32)) ⟨0, 0⟩] ⟨0, 0⟩

theorem single_clear {code : Int}
    (hcode : separators.all (fun b => code != b.toNat) = true) :
    ∀ m, Occurs m (single code) → m.Clear := by
  refine Node.forall_occurs_iff.mpr ⟨trivial, fun c hc => ?_⟩
  obtain rfl := List.mem_singleton.mp hc
  have h : ∀ b ∈ separators, code ≠ b.toNat :=
    fun b hb => bne_iff_ne.mp (List.all_eq_true.mp hcode b hb)
  exact Node.forall_occurs_iff.mpr ⟨h, fun c hc => absurd hc (by simp [Node.children])⟩

theorem nestedLists_clear : ∀ m, Occurs m nestedLists → m.Clear := by
  refine Node.forall_occurs_iff.mpr ⟨trivial, List.forall_mem_singleton.mpr ?_⟩
  refine Node.forall_occurs_iff.mpr ⟨trivial, ?_⟩
  refine List.forall_mem_cons.mpr ⟨single_clear (by decide), List.forall_mem_cons.mpr ⟨?_,
    List.forall_mem_singleton.mpr (single_clear (by decide))⟩⟩
  refine Node.forall_occurs_iff.mpr ⟨trivial, ?_⟩
  exact List.forall_mem_cons.mpr ⟨single_clear (by decide),
    List.forall_mem_singleton.mpr (single_clear (by decide))⟩

/-- It has four levels, and the comma of the logarithm does not cut the list of the root. -/
theorem nestedLists_readBack :
    render 4 nestedLists = .ok "\x7broot(3, log(2, x))\x7d^2"
      ∧ (¬ ∃ out, render 3 nestedLists = .ok out)
      ∧ argumentsOf? "root(3, log(2, x))" = some (Text.ofStrings ["3", "log(2, x)"]) := by
  have hexact := render_exact (fun k h => nestedLists_clear _ h) fun c h => nestedLists_clear _ h
  have hrun : render 4 nestedLists = .ok "\x7broot(3, log(2, x))\x7d^2" := rfl
  refine ⟨hrun, fun h => absurd ((hexact 3).1.mp h).2 (by decide), ?_⟩
  obtain ⟨parts, base, t, word, hrenders, -, hread⟩ := ((hexact 4).2 _ hrun).1 _ _ _ _ 1
    (.child (List.mem_singleton_self _) .here) rfl
  obtain rfl : Text.ofStrings ["3", "log(2, x)"] = parts := Except.ok.inj hrenders.arguments
  obtain rfl : Text.ofString "root(3, log(2, x))" = base := Except.ok.inj hrenders.form
  exact hread

end Solver

end MathMarkup
