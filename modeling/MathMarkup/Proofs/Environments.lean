import MathMarkup.Cleaning.Separators

/-!
# Terminated environments

An `&` is left alone inside a terminated matrix environment. Which bytes these are is computed from
left to right, with a count of open environments and of bytes that belong to a tag already read.
Here it is said without any of that: a text is a terminated environment if it begins with a begin
tag, and its last tag is the first end tag after which as many environments have been ended as begun
(`Terminated`). What is computed lies in such a text (`protectedIn_enclosed`).

That tags can be counted at all is because they do not overlap: a backslash stands at the beginning
of a tag and nowhere else in it.
-/

namespace MathMarkup.Cleaning

open MathMarkup.Text (byte)

/-- The number of places of a text at which a tag begins. -/
def occurrences (tag : Text) : Text → Nat
  | [] => 0
  | b :: r => (if tag.isPrefixOf (b :: r) then 1 else 0) + occurrences tag r

/-- A text from a begin tag to the end tag that belongs to it: the first one after which as many
environments of the name have been ended as begun. -/
structure Terminated (name x : Text) : Prop where
  begins : beginTag name <+: x
  ends : endTag name <:+ x
  equal : occurrences (beginTag name) x = occurrences (endTag name) x
  first : ∀ y, beginTag name <+: y → y <+: x → y ≠ x →
    occurrences (endTag name) y < occurrences (beginTag name) y

/-! ## Tags do not overlap -/

/-- A tag is a backslash and bytes that are none. -/
def IsTag (tag : Text) : Prop := ∃ w, tag = byte '\\' :: w ∧ byte '\\' ∉ w

theorem beginTag_isTag {name : Text} (h : byte '\\' ∉ name) : IsTag (beginTag name) := by
  refine ⟨"begin\x7b" ++ name ++ "\x7d", rfl, ?_⟩
  simp only [List.mem_append, not_or]
  exact ⟨⟨by decide, h⟩, by decide⟩

theorem endTag_isTag {name : Text} (h : byte '\\' ∉ name) : IsTag (endTag name) := by
  refine ⟨"end\x7b" ++ name ++ "\x7d", rfl, ?_⟩
  simp only [List.mem_append, not_or]
  exact ⟨⟨by decide, h⟩, by decide⟩

/-- Where an environment begins it does not end. -/
theorem not_endTag {name t : Text} (h : beginTag name <+: t) : ¬ endTag name <+: t := by
  rintro ⟨v, hv⟩
  obtain ⟨u, rfl⟩ := h
  -- the two tags differ in their second byte
  have hsecond : (endTag name ++ v)[1]? = (beginTag name ++ u)[1]? := by rw [hv]
  have : some (byte 'e') = some (byte 'b') := hsecond
  exact absurd this (by decide)

variable {tag t : Text}

theorem occurrences_of_no_slash (htag : IsTag tag) {w : Text} (hw : byte '\\' ∉ w) (t : Text) :
    occurrences tag (w ++ t) = occurrences tag t := by
  induction w with
  | nil => rfl
  | cons b w ih =>
      simp only [List.mem_cons, not_or] at hw
      obtain ⟨v, rfl, _⟩ := htag
      have hno : (byte '\\' :: v).isPrefixOf (b :: (w ++ t)) = false := by
        simp [List.isPrefixOf, hw.1]
      rw [List.cons_append, occurrences, hno, ih hw.2]
      simp

/-- A tag in front of a text is counted as one, and every other tag as none. -/
theorem occurrences_tag (htag : IsTag tag) {other : Text} (hother : IsTag other) (t : Text) :
    occurrences other (tag ++ t)
      = (if other.isPrefixOf (tag ++ t) then 1 else 0) + occurrences other t := by
  obtain ⟨w, rfl, hw⟩ := htag
  rw [List.cons_append, occurrences, occurrences_of_no_slash hother hw]

theorem occurrences_self (htag : IsTag tag) (t : Text) :
    occurrences tag (tag ++ t) = 1 + occurrences tag t := by
  rw [occurrences_tag htag htag, if_pos (List.isPrefixOf_iff_prefix.mpr (List.prefix_append _ _))]

/-- In a piece of a tag nothing is counted that does not begin with it. -/
theorem occurrences_piece (htag : IsTag tag) {other y : Text} (hother : IsTag other)
    (hy : y <+: tag) (hno : ¬ other <+: y) : occurrences other y = 0 := by
  obtain ⟨w, rfl, hw⟩ := htag
  cases y with
  | nil => rfl
  | cons b r =>
      have hr : byte '\\' ∉ r := fun hmem => hw ((List.cons_prefix_cons.mp hy).2.mem hmem)
      have hnone : occurrences other r = 0 := by
        simpa [occurrences] using occurrences_of_no_slash hother hr []
      rw [occurrences, hnone, if_neg fun h => hno (List.isPrefixOf_iff_prefix.mp h)]

/-- A beginning of a text that starts with a tag is a piece of the tag or has it in front. -/
theorem prefix_tag_cases {y : Text} (h : y <+: tag ++ t) :
    (y <+: tag ∧ y.length < tag.length) ∨ ∃ y', y = tag ++ y' ∧ y' <+: t := by
  rcases Nat.lt_or_ge y.length tag.length with hlt | hge
  · exact Or.inl ⟨List.prefix_of_prefix_length_le h (List.prefix_append _ _) (by omega), hlt⟩
  · obtain ⟨y', rfl⟩ := List.prefix_of_prefix_length_le (List.prefix_append _ _) h hge
    exact Or.inr ⟨y', rfl, (List.prefix_append_right_inj tag).mp h⟩

/-! ## The end of an environment -/

/-- A text after which none of `depth` open environments is open, and before the end of which one
is. -/
structure Closes (name : Text) (depth : Nat) (x : Text) : Prop where
  equal : occurrences (endTag name) x = depth + occurrences (beginTag name) x
  first : ∀ y, y <+: x → y ≠ x →
    occurrences (endTag name) y < depth + occurrences (beginTag name) y
  ends : 0 < depth → endTag name <:+ x

variable {name x : Text} {depth : Nat}

theorem closes_nil : Closes name 0 [] :=
  ⟨rfl, fun _ hy hne => absurd (List.prefix_nil.mp hy) hne, fun h => absurd h (Nat.lt_irrefl 0)⟩

theorem occurrences_beginTag (hname : byte '\\' ∉ name) (y : Text) :
    occurrences (beginTag name) (beginTag name ++ y) = 1 + occurrences (beginTag name) y
      ∧ occurrences (endTag name) (beginTag name ++ y) = occurrences (endTag name) y := by
  refine ⟨occurrences_self (beginTag_isTag hname) y, ?_⟩
  rw [occurrences_tag (beginTag_isTag hname) (endTag_isTag hname), if_neg, Nat.zero_add]
  exact fun hp => not_endTag (List.prefix_append _ _) (List.isPrefixOf_iff_prefix.mp hp)

theorem occurrences_endTag (hname : byte '\\' ∉ name) (y : Text) :
    occurrences (endTag name) (endTag name ++ y) = 1 + occurrences (endTag name) y
      ∧ occurrences (beginTag name) (endTag name ++ y) = occurrences (beginTag name) y := by
  refine ⟨occurrences_self (endTag_isTag hname) y, ?_⟩
  rw [occurrences_tag (endTag_isTag hname) (beginTag_isTag hname), if_neg, Nat.zero_add]
  exact fun hp => not_endTag (List.isPrefixOf_iff_prefix.mp hp) (List.prefix_append _ _)

/-- Another environment begins. -/
theorem Closes.begun (hname : byte '\\' ∉ name) (h : Closes name (depth + 2) x) :
    Closes name (depth + 1) (beginTag name ++ x) := by
  have hcount := occurrences_beginTag hname
  refine ⟨?_, fun y hy hne => ?_, fun _ => (h.ends (by omega)).trans (List.suffix_append _ _)⟩
  · rw [(hcount x).1, (hcount x).2, h.equal]
    omega
  · rcases prefix_tag_cases hy with ⟨hpiece, _⟩ | ⟨y', rfl, hy'⟩
    · have hnone := occurrences_piece (beginTag_isTag hname) (endTag_isTag hname) hpiece
        fun hp => not_endTag (List.prefix_refl _) (hp.trans hpiece)
      omega
    · have hlt := h.first y' hy' fun heq => hne (by rw [heq])
      rw [(hcount y').1, (hcount y').2]
      omega

/-- An environment ends. -/
theorem Closes.ended (hname : byte '\\' ∉ name) (h : Closes name depth x) :
    Closes name (depth + 1) (endTag name ++ x) := by
  have hcount := occurrences_endTag hname
  refine ⟨?_, fun y hy hne => ?_, fun _ => ?_⟩
  · rw [(hcount x).1, (hcount x).2, h.equal]
    omega
  · rcases prefix_tag_cases hy with ⟨hpiece, hlt⟩ | ⟨y', rfl, hy'⟩
    · have hnone := occurrences_piece (endTag_isTag hname) (endTag_isTag hname) hpiece
        fun hp => absurd hp.length_le (by omega)
      omega
    · have hlt := h.first y' hy' fun heq => hne (by rw [heq])
      rw [(hcount y').1, (hcount y').2]
      omega
  · by_cases hx : x = []
    · exact ⟨[], by simp [hx]⟩
    · -- something is read behind the tag, so more environments are open
      have hlt := h.first [] List.nil_prefix (Ne.symm hx)
      exact (h.ends (by simpa [occurrences] using hlt)).trans (List.suffix_append _ _)

theorem occurrences_cons {b : UInt8} {y : Text} (hno : ¬ tag <+: b :: x) (hy : y <+: x) :
    occurrences tag (b :: y) = occurrences tag y := by
  rw [occurrences, if_neg, Nat.zero_add]
  intro hp
  exact hno ((List.isPrefixOf_iff_prefix.mp hp).trans (List.cons_prefix_cons.mpr ⟨rfl, hy⟩))

theorem Closes.cons {b : UInt8} (hb : ¬ beginTag name <+: b :: x) (he : ¬ endTag name <+: b :: x)
    (h : Closes name (depth + 1) x) : Closes name (depth + 1) (b :: x) := by
  refine ⟨?_, fun y hy hne => ?_, fun hd => (h.ends hd).trans (List.suffix_cons b x)⟩
  · rw [occurrences_cons hb (List.prefix_refl x), occurrences_cons he (List.prefix_refl x), h.equal]
  · cases y with
    | nil => simp [occurrences]
    | cons c y =>
        obtain ⟨rfl, hy'⟩ := List.cons_prefix_cons.mp hy
        rw [occurrences_cons hb hy', occurrences_cons he hy']
        exact h.first y hy' fun heq => hne (by rw [heq])

theorem environmentEnd?_skip {skip : Nat} {t : Text} (h : skip ≤ t.length) :
    environmentEnd? name depth skip t
      = (environmentEnd? name depth 0 (t.drop skip)).map (· + skip) := by
  induction t generalizing skip with
  | nil =>
      have : skip = 0 := by simpa using h
      subst this
      simp
  | cons b r ih =>
      cases skip with
      | zero => simp
      | succ skip =>
          rw [environmentEnd?, ih (by simpa using h), List.drop_succ_cons, Option.map_map]
          rfl

/-- Reading on behind a tag. -/
theorem environmentEnd?_tag {tag rest t : Text} {b : UInt8} (h : b :: t = tag ++ rest)
    (hpos : 0 < tag.length) :
    (environmentEnd? name depth (tag.length - 1) t).map (· + 1)
      = (environmentEnd? name depth 0 rest).map (· + tag.length) := by
  obtain ⟨w, hw⟩ : ∃ w, tag.length = w + 1 := ⟨tag.length - 1, by omega⟩
  have hlen := congrArg List.length h
  rw [List.length_append, List.length_cons] at hlen
  have hdrop : t.drop w = rest := by
    have := congrArg (List.drop tag.length) h
    rw [List.drop_left, hw, List.drop_succ_cons] at this
    exact this
  rw [hw, Nat.add_sub_cancel, environmentEnd?_skip (by omega), hdrop, Option.map_map]
  rfl

theorem environmentEnd?_behind {tag t : Text} {b : UInt8} {n : Nat} (htag : tag <+: b :: t)
    (hpos : 0 < tag.length)
    (h : (environmentEnd? name depth (tag.length - 1) t).map (· + 1) = some n) :
    ∃ rest m, b :: t = tag ++ rest ∧ rest.length ≤ t.length ∧ n = tag.length + m
      ∧ environmentEnd? name depth 0 rest = some m := by
  obtain ⟨rest, hrest⟩ := htag
  have hlen := congrArg List.length hrest
  simp only [List.length_append, List.length_cons] at hlen
  rw [environmentEnd?_tag hrest.symm hpos] at h
  obtain ⟨m, hm, rfl⟩ := Option.map_eq_some_iff.mp h
  exact ⟨rest, m, hrest.symm, by omega, Nat.add_comm m _, hm⟩

/-- **The end of an environment closes it**, and nothing before does. -/
theorem environmentEnd?_closes (hname : byte '\\' ∉ name) {t : Text} {n : Nat}
    (h : environmentEnd? name depth 0 t = some n) :
    n ≤ t.length ∧ Closes name depth (t.take n) := by
  -- a tag takes several bytes at once, so the induction is on the length
  induction hlen : t.length using Nat.strongRecOn generalizing t depth n with
  | ind len ih =>
    cases depth with
    | zero =>
        have : n = 0 := by cases t <;> simpa [environmentEnd?, eq_comm] using h
        subst this
        exact ⟨Nat.zero_le _, closes_nil⟩
    | succ depth =>
        cases t with
        | nil => exact absurd h (by simp [environmentEnd?])
        | cons b r =>
            rw [environmentEnd?] at h
            have behind : ∀ {tag rest : Text} {m depth' : Nat}, b :: r = tag ++ rest →
                rest.length ≤ r.length → environmentEnd? name depth' 0 rest = some m →
                tag.length + m ≤ len ∧ (b :: r).take (tag.length + m) = tag ++ rest.take m
                  ∧ Closes name depth' (rest.take m) := by
              intro tag rest m depth' hsplit hle hm
              have hshort : rest.length < len := by rw [← hlen, List.length_cons]; omega
              obtain ⟨hm', hcloses⟩ := ih rest.length hshort hm rfl
              have := congrArg List.length hsplit
              rw [List.length_append, hlen] at this
              refine ⟨by omega, ?_, hcloses⟩
              rw [hsplit, List.take_length_add_append]
            split at h
            · rename_i hb
              obtain ⟨rest, m, hsplit, hle, rfl, hm⟩ :=
                environmentEnd?_behind (List.isPrefixOf_iff_prefix.mp hb) (Nat.succ_pos _) h
              obtain ⟨hn, htake, hcloses⟩ := behind hsplit hle hm
              rw [htake]
              exact ⟨hn, hcloses.begun hname⟩
            · rename_i hb
              split at h
              · rename_i he
                obtain ⟨rest, m, hsplit, hle, rfl, hm⟩ :=
                  environmentEnd?_behind (List.isPrefixOf_iff_prefix.mp he) (Nat.succ_pos _) h
                obtain ⟨hn, htake, hcloses⟩ := behind hsplit hle hm
                rw [htake]
                exact ⟨hn, hcloses.ended hname⟩
              · rename_i he
                obtain ⟨m, hm, rfl⟩ := Option.map_eq_some_iff.mp h
                obtain ⟨hn, hcloses⟩ := ih r.length (by rw [← hlen]; simp) hm rfl
                refine ⟨by rw [← hlen, List.length_cons]; omega, ?_⟩
                rw [List.take_succ_cons]
                have hno : ∀ {tag : Text}, ¬ tag.isPrefixOf (b :: r) = true →
                    ¬ tag <+: b :: r.take m := fun hno hp =>
                  hno (List.isPrefixOf_iff_prefix.mpr
                    (hp.trans (List.cons_prefix_cons.mpr ⟨rfl, List.take_prefix _ _⟩)))
                exact hcloses.cons (hno hb) (hno he)

/-! ## Protected bytes -/

/-- A begin tag and what closes its environment. -/
theorem Closes.terminated (hname : byte '\\' ∉ name) (h : Closes name 1 x) :
    Terminated name (beginTag name ++ x) where
  begins := List.prefix_append _ _
  ends := (h.ends Nat.one_pos).trans (List.suffix_append _ _)
  equal := by
    rw [(occurrences_beginTag hname x).1, (occurrences_beginTag hname x).2, h.equal]
  first y hbegin hy hne := by
    obtain ⟨y', rfl⟩ := hbegin
    rw [(occurrences_beginTag hname y').1, (occurrences_beginTag hname y').2]
    exact h.first y' ((List.prefix_append_right_inj _).mp hy) fun heq => hne (by rw [heq])

/-- The byte at an index of a text lies in a terminated environment of a name. -/
def Enclosed (name t : Text) (i : Nat) : Prop :=
  ∃ u x v, t = u ++ x ++ v ∧ Terminated name x ∧ u.length ≤ i ∧ i < u.length + x.length

theorem Enclosed.append {t : Text} {i : Nat} (h : Enclosed name t i) (w : Text) :
    Enclosed name (w ++ t) (w.length + i) := by
  obtain ⟨u, x, v, rfl, hx, hle, hlt⟩ := h
  refine ⟨w ++ u, x, v, by simp, hx, ?_, ?_⟩
  · rw [List.length_append]; omega
  · rw [List.length_append]; omega

theorem protectedFrom_run {run : Nat} {inside : Bool} {t : Text} (h : run ≤ t.length) :
    protectedFrom name run inside t
      = List.replicate run inside ++ protectedFrom name 0 false (t.drop run) := by
  induction t generalizing run with
  | nil =>
      have : run = 0 := by simpa using h
      subst this
      rfl
  | cons b r ih =>
      cases run with
      | zero => rfl
      | succ run =>
          rw [protectedFrom, ih (by simpa using h), List.replicate_succ, List.drop_succ_cons]
          rfl

theorem protectedFrom_enclosed (hname : byte '\\' ∉ name) {t : Text} {i : Nat}
    (h : (protectedFrom name 0 false t)[i]? = some true) : Enclosed name t i := by
  induction hlen : t.length using Nat.strongRecOn generalizing t i with
  | ind len ih =>
    cases t with
    | nil => exact absurd h (by simp [protectedFrom])
    | cons b r =>
        -- behind `k` bytes that are marked alike
        have behind : ∀ {k : Nat} {inside : Bool}, k ≤ r.length →
            (inside = true → i ≤ k → Enclosed name (b :: r) i) →
            (inside :: protectedFrom name k inside r)[i]? = some true →
            Enclosed name (b :: r) i := by
          intro k inside hk hhere hi
          rw [protectedFrom_run hk, ← List.cons_append, ← List.replicate_succ] at hi
          rcases Nat.lt_or_ge i (k + 1) with hlt | hge
          · rw [List.getElem?_append_left (by simpa using hlt),
              List.getElem?_replicate_of_lt hlt] at hi
            exact hhere (Option.some.inj hi) (by omega)
          · rw [List.getElem?_append_right (by simpa using hge), List.length_replicate] at hi
            have hshort : (r.drop k).length < len := by
              rw [← hlen, List.length_drop, List.length_cons]; omega
            have := (ih _ hshort hi rfl).append ((b :: r).take (k + 1))
            rwa [List.take_succ_cons, List.cons_append, List.take_append_drop, List.length_cons,
              List.length_take, Nat.min_eq_left hk, Nat.add_sub_cancel' hge] at this
        have htag : 0 < (beginTag name).length := Nat.succ_pos _
        rw [protectedFrom] at h
        split at h
        · rename_i hb
          obtain ⟨rest, hrest⟩ := List.isPrefixOf_iff_prefix.mp hb
          have hsize := congrArg List.length hrest
          rw [List.length_append, List.length_cons] at hsize
          split at h
          · rename_i n hn
            rw [← hrest, List.drop_left] at hn
            obtain ⟨hle, hcloses⟩ := environmentEnd?_closes hname hn
            refine behind (by omega) (fun _ hi => ?_) h
            -- the environment reaches from here to its end
            refine ⟨[], beginTag name ++ rest.take n, rest.drop n, ?_, hcloses.terminated hname,
              Nat.zero_le _, ?_⟩
            · rw [List.nil_append, List.append_assoc, List.take_append_drop, hrest]
            · rw [List.length_append, List.length_take, Nat.min_eq_left hle, List.length_nil]
              omega
          · exact behind (by omega) (fun hf => absurd hf (by simp)) h
        · exact behind (Nat.zero_le _) (fun hf => absurd hf (by simp)) h

/-- **What is protected lies in a terminated environment** of one of the names. -/
theorem protectedIn_enclosed {names : List Text} (hnames : ∀ name ∈ names, byte '\\' ∉ name)
    {t : Text} {i : Nat} (h : (protectedIn names t)[i]? = some true) :
    ∃ name ∈ names, Enclosed name t i := by
  induction names with
  | nil =>
      have hmask : protectedIn [] t = t.map fun _ => false := rfl
      rw [hmask] at h
      obtain ⟨_, _, hfalse⟩ := List.mem_map.mp (List.mem_of_getElem? h)
      exact absurd hfalse (by decide)
  | cons name names ih =>
      have hmask : protectedIn (name :: names) t
          = List.zipWith (· || ·) (protectedFrom name 0 false t) (protectedIn names t) := rfl
      rw [hmask, List.getElem?_zipWith_eq_some] at h
      obtain ⟨a, b, ha, hb, hor⟩ := h
      rcases Bool.or_eq_true_iff.mp hor with rfl | rfl
      · exact ⟨name, List.mem_cons_self .., protectedFrom_enclosed (hnames name (by simp)) ha⟩
      · obtain ⟨name', hmem, henc⟩ := ih (fun n hn => hnames n (by simp [hn])) hb
        exact ⟨name', List.mem_cons_of_mem _ hmem, henc⟩

end MathMarkup.Cleaning
