import Mathlib.Data.List.Forall2
import MathMarkup.Proofs.Joining
import MathMarkup.Proofs.Separators

/-!
# Environments of accepted texts

Texts that are accepted on their own can be put together to an environment: cells with `&` between
them and rows with `\\` between them. The environment is accepted, and holds the nodes of the cells
row by row, moved to where the cells stand (`environments_compose`).
-/

namespace MathMarkup.Grammar

open MathMarkup.Cleaning
open MathMarkup.Grammar.Parser
open MathMarkup.Text (byte)

/-! ## What is put together -/

/-- A text and the nodes it is read as. -/
structure Cell where
  text : Text
  nodes : List Node

/-- A cell whose text is accepted with a nesting of at most `limit` sequences. -/
def Cell.Accepted (limit : Nat) (cell : Cell) : Prop := Grammar.Accepted limit cell.text cell.nodes

/-- Whether a text begins with the definition of a function. -/
def startsDefinition (t : Text) : Bool :=
  match tokens t with
  | .ok ts => (definitionHead? ts).isSome
  | .error _ => false

theorem definitionHead?_of_starts {t : Text} {xs : List Token} (hxs : Tokenized t xs)
    (h : startsDefinition t = false) : definitionHead? xs = none := by
  obtain ⟨ts, ht, -⟩ := id hxs
  rw [definitionHead?_tokenized ht hxs]
  rw [startsDefinition, ht] at h
  simpa using h

/-- A row: its cells with `&` between them. -/
def rowText (row : List Cell) : Text := List.intercalate "&" (row.map (·.text))

/-- The rows of an environment with `\\` between them. -/
def bodyText (rows : List (List Cell)) : Text := List.intercalate "\\\\" (rows.map rowText)

/-- An environment: its rows between its tags. -/
def environmentText (name : Text) (rows : List (List Cell)) : Text :=
  beginTag name ++ bodyText rows ++ endTag name

/-- Whether a row is a single cell that holds nothing. -/
def isBlankRow : List Cell → Bool
  | [cell] => cell.nodes.isEmpty
  | _ => false

/-- The cells of an environment, row by row, without the rows that hold nothing. -/
def keptCells (rows : List (List Cell)) : List Cell := (rows.filter (!isBlankRow ·)).flatten

theorem keptCells_cons (row : List Cell) (rows : List (List Cell)) :
    keptCells (row :: rows) = keptCells [row] ++ keptCells rows := by
  unfold keptCells
  rw [← List.flatten_append, ← List.filter_append]
  rfl

/-- The expression `e` of the text `t` holds the nodes of a cell, with the offsets that they have
where the cell stands in `t`. -/
def Cell.HeldBy (t : Text) (cell : Cell) (e : Node) : Prop :=
  ∃ k span, cell.text <+: t.drop k ∧ e = .expression .none (cell.nodes.map (Node.shift k)) span

/-- A text is read as one environment that holds the given cells and nothing else. -/
def ReadsCells (limit : Nat) (t : Text) (type : EnvironmentType) (cells : List Cell) : Prop :=
  ∃ es, parse limit t = .ok (.root [.expression .none [.environment type es ⟨0, t.length⟩]
      ⟨0, t.length⟩] ⟨0, t.length⟩)
    ∧ List.Forall₂ (Cell.HeldBy t) cells es

/-! ## Tokens of rows -/

/-- The tokens of a cell that stands at offset `k` of the text `t`. -/
structure Cell.StandsAt (t : Text) (k : Nat) (cell : Cell) (xs : List Token) : Prop where
  here : cell.text <+: t.drop k
  tokenized : TokenizedAt k cell.text xs

/-- The tokens of a row from an offset of the text to another. In a matrix there are separators
between cells. -/
inductive RowTokens (matrix : Bool) (t : Text) : Nat → List Cell → List Token → Nat → Prop
  | last {k : Nat} {cell : Cell} {xs : List Token} : cell.StandsAt t k xs →
      RowTokens matrix t k [cell] xs (cell.text.length + k)
  | cons {k k' : Nat} {cell : Cell} {row : List Cell} {xs ys : List Token} {u : Token} :
      matrix = true → cell.StandsAt t k xs → u.kind = .ampersand → u.start = cell.text.length + k →
      RowTokens matrix t u.stop row ys k' → RowTokens matrix t k (cell :: row) (xs ++ u :: ys) k'

/-- The tokens of rows from an offset of the text up to the command `e`. -/
inductive BodyTokens (matrix : Bool) (t : Text) (e : Token) :
    Nat → List (List Cell) → List Token → Prop
  | last {k : Nat} {row : List Cell} {xs : List Token} : RowTokens matrix t k row xs e.start →
      BodyTokens matrix t e k [row] (xs ++ [e])
  | cons {k : Nat} {row : List Cell} {rows : List (List Cell)} {xs ys : List Token} {u : Token} :
      RowTokens matrix t k row xs u.start → u.kind = .rowBreak →
      BodyTokens matrix t e u.stop rows ys → BodyTokens matrix t e k (row :: rows) (xs ++ u :: ys)

/-! ## Reading rows -/

section Rows

variable {limit : Nat} {matrix : Bool} {t name : Text} {s : Scope} {cell : Cell} {row : List Cell}
  {rows : List (List Cell)} {acc before : List Node} {xs ys rest : List Token} {u e : Token}
  {k k' : Nat}

theorem rows_unfold :
    grammar.rows matrix name acc before = Grammar.rows grammar matrix name acc before :=
  congrFun (congrFun (congrFun (congrFun
    (congrArg Rules.rows grammar_unfold.symm) matrix) name) acc) before

/-- A cell is read up to the separator behind it. -/
theorem Cell.Accepted.reads (h : cell.Accepted limit) (hxs : cell.StandsAt t k xs)
    (hdefinition : matrix = true → startsDefinition cell.text = false)
    (hu : (Stop.cell matrix).holds (u :: rest) = true) (hstart : u.start = cell.text.length + k)
    (hroom : limit + s.depth ≤ s.limit) :
    ∃ k', grammar.sequence (.cell matrix) (!matrix) s ⟨xs ++ u :: rest, k⟩
      = .ok (cell.nodes.map (Node.shift k), ⟨u :: rest, k'⟩) := by
  have hkind : u.kind ≠ .char := by
    rcases cell_holds_iff.mp hu with hk | ⟨-, hk⟩ | hend
    · rw [hk]
      simp
    · rw [hk]
      simp
    · rw [(isCommand_iff.mp hend).1]
      simp
  have hends : runsInto xs (u :: rest) = false := by
    simp [runsInto, Token.isOperand, hkind]
  have hclear : u.isLetter = true → ∀ x ∈ xs, x.isChar "d" = false := fun hletter =>
    absurd (Token.isLetter_char hletter) hkind
  have hundefined : (!matrix) = false → definitionHead? xs = none := by
    intro hmatrix
    exact definitionHead?_of_starts hxs.tokenized.tokenized (hdefinition (by simpa using hmatrix))
  obtain ⟨l, hl, c, hrun, hleft⟩ :=
    Grammar.Accepted.shifted h hxs.tokenized (List.replicate u.start 0) (by simp [hstart])
  have hcarried := sequence_before hrun (.separator hu) hclear hundefined (fun _ => hends)
    (show l + s.depth ≤ s.limit by omega)
  rw [hends] at hcarried
  obtain ⟨left, k'⟩ := c
  cases hleft
  generalize grammar.sequence (.cell matrix) (!matrix) s ⟨xs ++ u :: rest, k⟩ = run at hcarried ⊢
  cases hcarried with
  | same => exact ⟨k', rfl⟩
  | grown _ _ hends => exact absurd hends (by simp)

/-- What a row does when it is complete: it is dropped or kept, and the next one follows. -/
def rowDone (matrix : Bool) (name : Text) (before row : List Node) (u : Token) :
    Parser (List Node) :=
  let before := if isEmptyRow row then before else row ++ before
  if u.kind = .command then pure before.reverse else grammar.rows matrix name [] before

theorem rows_cell (h : cell.Accepted limit) (hxs : cell.StandsAt t k xs)
    (hdefinition : matrix = true → startsDefinition cell.text = false)
    (hu : (Stop.cell matrix).holds (u :: rest) = true) (hstart : u.start = cell.text.length + k)
    (hroom : limit + s.depth ≤ s.limit) :
    ∃ e : Node, cell.HeldBy t e ∧
      grammar.rows matrix name acc before s ⟨xs ++ u :: rest, k⟩
        = (if u.kind = .ampersand then grammar.rows matrix name (e :: acc) before
            else rowDone matrix name before (e :: acc) u) s ⟨rest, u.stop⟩ := by
  obtain ⟨k', hrun⟩ := h.reads hxs hdefinition hu hstart hroom
  have hsequence : ∀ detail, rewordAtEnd detail (grammar.sequence (.cell matrix) (!matrix)) s
      ⟨xs ++ u :: rest, k⟩ = .ok (cell.nodes.map (Node.shift k), ⟨u :: rest, k'⟩) := by
    intro detail
    rw [rewordAtEnd, hrun]
  refine ⟨.expression .none (cell.nodes.map (Node.shift k))
    ⟨(Cursor.token ⟨xs ++ u :: rest, k⟩ s.text.length 0).start, u.start⟩, ⟨k, _, hxs.here, rfl⟩, ?_⟩
  rw [rows_unfold, rows, peek, bind_of_ok (peekAt_eq 0), bind_of_ok (hsequence _)]
  rfl

/-- The cells of a row are read one after the other. -/
theorem RowTokens.run (h : RowTokens matrix t k row xs k')
    (hcells : ∀ cell ∈ row, cell.Accepted limit)
    (hdefinition : matrix = true → ∀ cell ∈ row, startsDefinition cell.text = false)
    (hu : u.kind = .rowBreak ∨ u.isCommand ["end"] = true) (hstart : u.start = k')
    (hroom : limit + s.depth ≤ s.limit) :
    ∃ es : List Node, List.Forall₂ (Cell.HeldBy t) row es ∧
      grammar.rows matrix name acc before s ⟨xs ++ u :: rest, k⟩
        = rowDone matrix name before (es.reverse ++ acc) u s ⟨rest, u.stop⟩ := by
  have hkind : u.kind ≠ .ampersand := by
    rcases hu with hk | hend
    · rw [hk]
      simp
    · rw [(isCommand_iff.mp hend).1]
      simp
  have hholds : (Stop.cell matrix).holds (u :: rest) = true :=
    cell_holds_iff.mpr (hu.imp_right Or.inr)
  induction h generalizing acc with
  | @last k cell xs hxs =>
      obtain ⟨e, he, hrun⟩ := rows_cell (hcells cell (by simp)) hxs
        (fun hmatrix => hdefinition hmatrix cell (by simp)) hholds hstart hroom
      refine ⟨[e], .cons he .nil, ?_⟩
      rw [hrun, if_neg hkind]
      rfl
  | @cons k k' cell row xs ys v hmatrix hxs hv hvstart _ ih =>
      have hseparator : (Stop.cell matrix).holds (v :: (ys ++ u :: rest)) = true :=
        cell_holds_iff.mpr (Or.inr (Or.inl ⟨hmatrix, hv⟩))
      obtain ⟨e, he, hrun⟩ := rows_cell (hcells cell (by simp)) hxs
        (fun hmatrix => hdefinition hmatrix cell (by simp)) hseparator hvstart hroom
      obtain ⟨es, hes, hrun'⟩ := ih (fun cell hcell => hcells cell (List.mem_cons_of_mem _ hcell))
        (fun hmatrix cell hcell => hdefinition hmatrix cell (List.mem_cons_of_mem _ hcell)) hstart
      refine ⟨e :: es, .cons he hes, ?_⟩
      rw [List.append_assoc, List.cons_append, hrun, if_pos hv, hrun']
      simp

theorem isEmptyRow_reverse {es : List Node} (h : List.Forall₂ (Cell.HeldBy t) row es) :
    isEmptyRow es.reverse = isBlankRow row := by
  cases h with
  | nil => rfl
  | @cons cell e row es he hes =>
      obtain ⟨k, span, -, rfl⟩ := he
      cases hes with
      | nil =>
          simp only [List.reverse_cons, List.reverse_nil, List.nil_append, isBlankRow]
          cases cell.nodes <;> rfl
      | cons _ _ =>
          -- two cells or more, in whatever order
          have hlong : ∀ ns : List Node, 2 ≤ ns.length → isEmptyRow ns = false := by
            rintro (_ | ⟨m, _ | ⟨n, ns⟩⟩) hlength
            · exact absurd hlength (by simp)
            · exact absurd hlength (by simp)
            · cases m with
              | expression w ms span => cases ms <;> rfl
              | _ => rfl
          rw [hlong _ (by simp)]
          rfl

/-- **The rows are read one after the other, and those that hold nothing are dropped.** -/
theorem BodyTokens.run (h : BodyTokens matrix t e k rows xs) (name : Text) (before : List Node)
    (rest : List Token) (hcells : ∀ row ∈ rows, ∀ cell ∈ row, cell.Accepted limit)
    (hdefinition : matrix = true → ∀ row ∈ rows, ∀ cell ∈ row, startsDefinition cell.text = false)
    (he : e.isCommand ["end"] = true) (hroom : limit + s.depth ≤ s.limit) :
    ∃ es : List Node, List.Forall₂ (Cell.HeldBy t) (keptCells rows) es ∧
      grammar.rows matrix name [] before s ⟨xs ++ rest, k⟩
        = .ok (before.reverse ++ es, ⟨rest, e.stop⟩) := by
  -- a complete row goes behind those before it
  have kept : ∀ {row : List Cell} {es : List Node} (before : List Node),
      List.Forall₂ (Cell.HeldBy t) row es →
      ∃ es', List.Forall₂ (Cell.HeldBy t) (keptCells [row]) es' ∧
        (if isEmptyRow es.reverse then before else es.reverse ++ before).reverse
          = before.reverse ++ es' := by
    intro row es before hes
    rw [isEmptyRow_reverse hes]
    by_cases hblank : isBlankRow row = true
    · exact ⟨[], by simp [keptCells, hblank], by simp [hblank]⟩
    · exact ⟨es, by simpa [keptCells, hblank] using hes, by simp [hblank]⟩
  induction h generalizing before with
  | @last k row xs hxs =>
      obtain ⟨es, hes, hrun⟩ := hxs.run (hcells row (by simp))
        (fun hmatrix => hdefinition hmatrix row (by simp)) (Or.inr he) rfl hroom
      obtain ⟨es', hes', hbefore⟩ := kept before hes
      refine ⟨es', hes', ?_⟩
      rw [List.append_assoc, List.singleton_append, hrun, List.append_nil, rowDone,
        if_pos (isCommand_iff.mp he).1, hbefore]
      rfl
  | @cons k row rows xs ys u hxs hu _ ih =>
      obtain ⟨es, hes, hrun⟩ := hxs.run (hcells row (by simp))
        (fun hmatrix => hdefinition hmatrix row (by simp)) (Or.inl hu) rfl hroom
      obtain ⟨es', hes', hbefore⟩ := kept before hes
      obtain ⟨es'', hes'', hrun'⟩ := ih _
        (fun row hrow => hcells row (List.mem_cons_of_mem _ hrow))
        (fun hmatrix row hrow => hdefinition hmatrix row (List.mem_cons_of_mem _ hrow))
      refine ⟨es' ++ es'', ?_, ?_⟩
      · rw [keptCells_cons]
        exact List.rel_append hes' hes''
      · rw [List.append_assoc, List.cons_append, hrun, List.append_nil, rowDone,
          if_neg (by rw [hu]; simp), hrun', hbefore, List.append_assoc]

/-! ## Reading environments -/

theorem Named.run {z : Token} (h : Named name xs) (hz : xs.getLast? = some z) (s : Scope)
    (rest : List Token) (k : Nat) :
    ∃ start, environmentName s ⟨xs ++ rest, k⟩ = .ok ((name, start), ⟨rest, z.stop⟩) := by
  cases h with
  | @intro o z' letters ho hletters hname hclosing =>
      obtain rfl : z' = z := by
        rw [← List.cons_append, List.getLast?_append] at hz
        exact Option.some.inj hz
      have htake : (letters ++ z' :: rest).takeWhile (·.kind == .char) = letters :=
        takeWhile_closed (fun t ht => by rw [hletters t ht]; rfl) (by rw [hclosing]; rfl)
      have hcut : o :: (letters ++ [z']) ++ rest = o :: (letters ++ z' :: rest) := by simp
      have hleft :
          (Cursor.skip letters.length ⟨letters ++ z' :: rest, o.stop⟩).rest = z' :: rest := by
        rw [skip_drop]
        exact List.drop_left
      have hopen : expect (.opening .curly) s ⟨o :: (letters ++ z' :: rest), k⟩
          = .ok (o, ⟨letters ++ z' :: rest, o.stop⟩) := expect_eq ho
      refine ⟨(Cursor.token ⟨letters ++ z' :: rest, o.stop⟩ s.text.length 0).start, ?_⟩
      rw [hcut, environmentName, bind_of_ok hopen, peek, bind_of_ok (peekAt_eq 0)]
      show (Parser.skip ((letters ++ z' :: rest).takeWhile (·.kind == .char)).length
        >>= fun _ => _) s _ = _
      rw [htake, bind_of_ok (skip_eq _)]
      generalize Cursor.skip letters.length ⟨letters ++ z' :: rest, o.stop⟩ = c1 at hleft ⊢
      obtain ⟨left, k1⟩ := c1
      cases hleft
      have hclose : expect (.closing .curly) s ⟨z' :: rest, k1⟩ = .ok (z', ⟨rest, z'.stop⟩) :=
        expect_eq hclosing
      rw [bind_of_ok hclose, ← hname]
      rfl

/-- The tokens of a tag from an offset of the text to another: the command and the name behind
it. -/
structure TagTokens (command name : Text) (c : Token) (xs : List Token) (k k' : Nat) : Prop where
  command : c.isCommand [command] = true
  named : Named name xs
  start : c.start = k
  stop : ∃ z, xs.getLast? = some z ∧ z.stop = k'

theorem environment_run {type : EnvironmentType} {b : Token} {zs : List Token} {k0 k1 k2 : Nat}
    (s : Scope) (rest : List Token) (k : Nat) (htype : environments.lookup name = some type)
    (harray : name ≠ "array") (hbegin : TagTokens "begin" name b xs k0 k1)
    (hrows : BodyTokens (type == .determinant) t e k1 rows ys)
    (hend : TagTokens "end" name e zs k' k2)
    (hcells : ∀ row ∈ rows, ∀ cell ∈ row, cell.Accepted limit)
    (hdefinition : type = .determinant → ∀ row ∈ rows, ∀ cell ∈ row,
      startsDefinition cell.text = false) (hroom : limit + s.depth ≤ s.limit) :
    ∃ es, List.Forall₂ (Cell.HeldBy t) (keptCells rows) es ∧
      environment grammar s ⟨b :: (xs ++ (ys ++ (zs ++ rest))), k⟩
        = .ok (.environment type es ⟨k0, k2⟩, ⟨rest, k2⟩) := by
  obtain ⟨z, hz, rfl⟩ := hbegin.stop
  obtain ⟨z', hz', rfl⟩ := hend.stop
  obtain ⟨start, hopen⟩ := hbegin.named.run hz s (ys ++ (zs ++ rest)) b.stop
  obtain ⟨es, hes, hbody⟩ := hrows.run name [] (zs ++ rest) hcells
    (fun hmatrix => hdefinition (by simpa using hmatrix)) hend.command hroom
  obtain ⟨start', hclose⟩ := hend.named.run hz' s rest e.stop
  refine ⟨es, hes, ?_⟩
  have hnext : next s ⟨b :: (xs ++ (ys ++ (zs ++ rest))), k⟩
      = .ok (b, ⟨xs ++ (ys ++ (zs ++ rest)), b.stop⟩) := rfl
  rw [environment, bind_of_ok hnext, bind_of_ok hopen]
  dsimp only
  rw [htype]
  dsimp only
  rw [peek, bind_of_ok (peekAt_eq 0), if_neg (fun h => harray h.1)]
  show (grammar.rows (type == .determinant) name [] [] >>= fun _ => _) s _ = _
  rw [bind_of_ok hbody, bind_of_ok hclose]
  dsimp only
  rw [if_pos rfl, ← hbegin.start]
  rfl

theorem command_begin {rules : Rules} {b : Token} (hb : b.isCommand ["begin"] = true)
    (s : Scope) (ts : List Token) (k : Nat) :
    command rules s ⟨b :: ts, k⟩ = (some <$> environment rules) s ⟨b :: ts, k⟩ := by
  have htext := List.mem_singleton.mp (isCommand_iff.mp hb).2
  have other : ∀ {names : List Text}, Text.ofString "begin" ∉ names → ¬ b.isCommand names = true :=
    not_isCommand htext
  rw [command_construct (by rw [htext]; decide) (by rw [htext]; decide) (by rw [htext]; decide),
    if_neg (other (by decide)), if_neg (other (by decide)), if_neg (other (by decide)),
    if_neg (other (by decide)), if_neg (other (by decide)), if_neg (other (by decide)),
    if_neg (other (by decide)), if_pos hb]

theorem parse_environment {limit' : Nat} {type : EnvironmentType} {b : Token} {zs : List Token}
    (ht : tokens t = .ok (b :: (xs ++ (ys ++ zs)))) (htype : environments.lookup name = some type)
    (harray : name ≠ "array") (hbegin : TagTokens "begin" name b xs 0 k)
    (hrows : BodyTokens (type == .determinant) t e k rows ys)
    (hend : TagTokens "end" name e zs k' t.length)
    (hcells : ∀ row ∈ rows, ∀ cell ∈ row, cell.Accepted limit)
    (hdefinition : type = .determinant → ∀ row ∈ rows, ∀ cell ∈ row,
      startsDefinition cell.text = false)
    (hroom : limit < limit') : ReadsCells limit' t type (keptCells rows) := by
  obtain ⟨es, hes, henvironment⟩ :=
    environment_run ⟨t, limit', 1⟩ [] 0 htype harray hbegin hrows hend hcells hdefinition hroom
  rw [List.append_nil] at henvironment
  have hcommand : grammar.command ⟨t, limit', 1⟩ ⟨b :: (xs ++ (ys ++ zs)), 0⟩
      = .ok (some (.environment type es ⟨0, t.length⟩), ⟨[], t.length⟩) := by
    rw [command_unfold, command_begin hbegin.command]
    show (environment grammar >>= fun n => pure (some n)) _ _ = _
    rw [bind_of_ok henvironment]
    rfl
  exact ⟨es, parse_construct ht (isCommand_iff.mp hbegin.command).1 (by omega) hcommand, hes⟩

end Rows

/-! ## Tokens of environments -/

section Texts

variable {matrix : Bool} {t name command : Text} {pos : Nat} {cell : Cell} {row : List Cell}
  {rows : List (List Cell)} {r q : Text} {x : UInt8} {us : List Token}

/-- The bytes of the names of environments. -/
def isNameByte (b : UInt8) : Bool := Text.isLetter b || b == byte '*'

theorem headLexeme_nameByte {b : UInt8} (hb : isNameByte b = true) (r : Text) :
    headLexeme b r = .token .char [b] 1 := by
  rcases Bool.or_eq_true_iff.mp hb with hletter | hstar
  · exact headLexeme_letter hletter r
  · rw [beq_iff_eq.mp hstar]
    rfl

theorem cut_name (hname : ∀ b ∈ name, isNameByte b = true) (h : Cut (pos + name.length) r us) :
    ∃ letters, Cut pos (name ++ r) (letters ++ us) ∧ (∀ t ∈ letters, t.kind = .char)
      ∧ texts letters = name := by
  induction name generalizing pos with
  | nil => exact ⟨[], h, by simp, rfl⟩
  | cons b name ih =>
      rw [List.length_cons, Nat.add_comm name.length, ← Nat.add_assoc] at h
      obtain ⟨letters, hcut, hkind, htexts⟩ :=
        ih (fun x hx => hname x (List.mem_cons_of_mem _ hx)) h
      refine ⟨⟨.char, [b], pos, pos + 1⟩ :: letters, ?_, ?_, ?_⟩
      · exact .token (headLexeme_nameByte (hname b (by simp)) _) hcut
      · exact List.forall_mem_cons.mpr ⟨rfl, hkind⟩
      · rw [texts_cons, htexts]
        rfl

theorem cut_tag
    (hcommand : headLexeme (byte '\\') command = .token .command command (command.length + 1))
    (hname : ∀ b ∈ name, isNameByte b = true)
    (h : Cut (pos + (tagText command name).length) r us) :
    ∃ c xs, Cut pos (tagText command name ++ r) (c :: (xs ++ us))
      ∧ TagTokens command name c xs pos (pos + (tagText command name).length) := by
  have hlength : pos + (tagText command name).length
      = pos + (command.length + 1) + 1 + name.length + 1 := by
    simp only [tagText, List.length_cons, List.length_append, List.length_nil]
    omega
  have hbytes : tagText command name ++ r
      = byte '\\' :: (command ++ byte '\x7b' :: (name ++ byte '\x7d' :: r)) := by
    simp [tagText]
  rw [hlength] at h ⊢
  -- from the closing brace back to the command
  obtain ⟨z, hz, -, -, hzstop, hclose⟩ : ∃ z : Token,
      z.kind = .closing .curly ∧ z.text = [byte '\x7d'] ∧ z.start = _
      ∧ z.stop = pos + (command.length + 1) + 1 + name.length + 1
      ∧ Cut (pos + (command.length + 1) + 1 + name.length) (byte '\x7d' :: r) (z :: us) :=
    Cut.cons rfl h
  obtain ⟨letters, hletters, hkind, htexts⟩ := cut_name hname hclose
  obtain ⟨o, ho, -, -, -, hopen⟩ : ∃ o : Token, o.kind = .opening .curly ∧ o.text = [byte '\x7b']
      ∧ o.start = _ ∧ o.stop = _ ∧ Cut (pos + (command.length + 1))
        (byte '\x7b' :: (name ++ byte '\x7d' :: r)) (o :: (letters ++ z :: us)) :=
    Cut.cons rfl hletters
  have hdrop : (byte '\\' :: (command ++ byte '\x7b' :: (name ++ byte '\x7d' :: r))).drop
      (command.length + 1) = byte '\x7b' :: (name ++ byte '\x7d' :: r) := by
    rw [List.drop_succ_cons, List.drop_left]
  rw [← hdrop] at hopen
  obtain ⟨c, hc, htext, hcstart, -, hfirst⟩ := Cut.cons (headLexeme_append ⟨by decide, by decide⟩
    hcommand (name ++ byte '\x7d' :: r)) hopen
  refine ⟨c, o :: (letters ++ [z]), ?_, isCommand_iff.mpr ⟨hc, by simp [htext]⟩,
    .intro ho hkind htexts hz, hcstart, z, ?_, hzstop⟩
  · rw [hbytes]
    simpa using hfirst
  · rw [← List.cons_append, List.getLast?_append]
    rfl

theorem environment_name {type : EnvironmentType} (h : environments.lookup name = some type) :
    ∀ b ∈ name, isNameByte b = true := by
  obtain ⟨l, l', hl, -⟩ := List.lookup_eq_some_iff.mp h
  have all : environments.all (fun e => e.1.all isNameByte) = true := by decide
  have hmem : (name, type) ∈ environments := by
    rw [hl]
    simp
  exact List.all_eq_true.mp (List.all_eq_true.mp all _ hmem)

variable {limit : Nat}

/-- What follows a part of the text that ends at a later offset. -/
theorem drop_behind {a : Text} (h : t.drop pos = a ++ r) : t.drop (pos + a.length) = r := by
  rw [← List.drop_drop, h, List.drop_left]

theorem cut_cell (h : cell.Accepted limit) (hx : StartsAnew x)
    (hat : t.drop pos = cell.text ++ x :: q) (hbehind : Cut (pos + cell.text.length) (x :: q) us) :
    ∃ xs, cell.StandsAt t pos xs ∧ Cut pos (cell.text ++ x :: q) (xs ++ us) := by
  obtain ⟨l, -, hparse⟩ := h
  obtain ⟨ts, ht, -⟩ := parse_framed hparse
  have hcut := (tokens_cut ht).shift pos (Nat.le_refl 0)
  rw [Nat.zero_add, List.map_congr_left fun t _ => t.moved_zero] at hcut
  exact ⟨_, ⟨⟨_, hat.symm⟩, ts, ht, rfl⟩, hcut.append hx hbehind⟩

theorem rowText_cons (cell cell' : Cell) (row : List Cell) :
    rowText (cell :: cell' :: row) = cell.text ++ byte '&' :: rowText (cell' :: row) := by
  simp [rowText, List.intercalate]
  rfl

theorem cut_row (hne : row ≠ []) (hcells : ∀ cell ∈ row, cell.Accepted limit)
    (hsingle : matrix = false → row.length = 1) (hx : StartsAnew x)
    (hat : t.drop pos = rowText row ++ x :: q)
    (hbehind : Cut (pos + (rowText row).length) (x :: q) us) :
    ∃ xs, RowTokens matrix t pos row xs (pos + (rowText row).length)
      ∧ Cut pos (rowText row ++ x :: q) (xs ++ us) := by
  induction row generalizing pos with
  | nil => exact absurd rfl hne
  | cons cell row ih =>
      cases row with
      | nil =>
          have hone : rowText [cell] = cell.text := by simp [rowText, List.intercalate]
          rw [hone] at hbehind hat ⊢
          obtain ⟨xs, hxs, hcut⟩ := cut_cell (hcells cell (by simp)) hx hat hbehind
          rw [Nat.add_comm pos]
          exact ⟨xs, .last hxs, hcut⟩
      | cons cell' row =>
          have hmatrix : matrix = true := by
            rw [← Bool.not_eq_false]
            intro hfalse
            exact absurd (hsingle hfalse) (by simp)
          have hlength : pos + (rowText (cell :: cell' :: row)).length
              = pos + cell.text.length + 1 + (rowText (cell' :: row)).length := by
            rw [rowText_cons, List.length_append, List.length_cons]
            omega
          rw [hlength] at hbehind ⊢
          rw [rowText_cons, List.append_assoc, List.cons_append] at hat
          rw [rowText_cons, List.append_assoc, List.cons_append]
          obtain ⟨ys, hys, hcut⟩ := ih (by simp)
            (fun cell hcell => hcells cell (List.mem_cons_of_mem _ hcell))
            (fun hfalse => absurd (hmatrix.symm.trans hfalse) (by simp))
            (drop_behind (a := [byte '&']) (drop_behind hat)) hbehind
          obtain ⟨u, hu, -, hstart, hstop, hseparator⟩ : ∃ u : Token, u.kind = .ampersand
              ∧ u.text = [byte '&'] ∧ u.start = pos + cell.text.length
              ∧ u.stop = pos + cell.text.length + 1
              ∧ Cut (pos + cell.text.length) (byte '&' :: (rowText (cell' :: row) ++ x :: q))
                (u :: (ys ++ us)) := Cut.cons rfl hcut
          obtain ⟨xs, hxs, hcut'⟩ :=
            cut_cell (hcells cell (by simp)) ⟨by decide, by decide⟩ hat hseparator
          refine ⟨xs ++ u :: ys, .cons hmatrix hxs hu (by rw [hstart, Nat.add_comm]) ?_, ?_⟩
          · rw [hstop]
            exact hys
          · simpa using hcut'

theorem bodyText_cons (row row' : List Cell) (rows : List (List Cell)) :
    bodyText (row :: row' :: rows)
      = rowText row ++ byte '\\' :: byte '\\' :: bodyText (row' :: rows) := by
  simp [bodyText, List.intercalate]
  rfl

theorem cut_body {e : Token} (hne : rows ≠ []) (hrows : ∀ row ∈ rows, row ≠ [])
    (hcells : ∀ row ∈ rows, ∀ cell ∈ row, cell.Accepted limit)
    (hsingle : matrix = false → ∀ row ∈ rows, row.length = 1) (hx : StartsAnew x)
    (hat : t.drop pos = bodyText rows ++ x :: q) (he : e.start = pos + (bodyText rows).length)
    (hbehind : Cut (pos + (bodyText rows).length) (x :: q) (e :: us)) :
    ∃ xs, BodyTokens matrix t e pos rows xs ∧ Cut pos (bodyText rows ++ x :: q) (xs ++ us) := by
  induction rows generalizing pos with
  | nil => exact absurd rfl hne
  | cons row rows ih =>
      have hrow := hrows row (by simp)
      have hcells' := hcells row (by simp)
      have hsingle' : matrix = false → row.length = 1 := fun hfalse => hsingle hfalse row (by simp)
      cases rows with
      | nil =>
          have hone : bodyText [row] = rowText row := by simp [bodyText, List.intercalate]
          rw [hone] at hbehind hat he ⊢
          obtain ⟨xs, hxs, hcut⟩ := cut_row hrow hcells' hsingle' hx hat hbehind
          rw [← he] at hxs
          refine ⟨xs ++ [e], .last hxs, ?_⟩
          rw [List.append_assoc]
          exact hcut
      | cons row' rows =>
          have hlength : pos + (bodyText (row :: row' :: rows)).length
              = pos + (rowText row).length + 2 + (bodyText (row' :: rows)).length := by
            rw [bodyText_cons, List.length_append, List.length_cons, List.length_cons]
            omega
          rw [hlength] at hbehind he
          rw [bodyText_cons, List.append_assoc, List.cons_append, List.cons_append] at hat
          rw [bodyText_cons, List.append_assoc, List.cons_append, List.cons_append]
          obtain ⟨ys, hys, hcut⟩ := ih (by simp)
            (fun row hrow => hrows row (List.mem_cons_of_mem _ hrow))
            (fun row hrow => hcells row (List.mem_cons_of_mem _ hrow))
            (fun hfalse row hrow => hsingle hfalse row (List.mem_cons_of_mem _ hrow))
            (drop_behind (a := [byte '\\', byte '\\']) (drop_behind hat)) he hbehind
          obtain ⟨u, hu, -, hstart, hstop, hseparator⟩ : ∃ u : Token, u.kind = .rowBreak
              ∧ u.text = "\\\\" ∧ u.start = pos + (rowText row).length
              ∧ u.stop = pos + (rowText row).length + 2
              ∧ Cut (pos + (rowText row).length)
                (byte '\\' :: byte '\\' :: (bodyText (row' :: rows) ++ x :: q))
                (u :: (ys ++ us)) := Cut.cons rfl hcut
          obtain ⟨xs, hxs, hcut'⟩ :=
            cut_row hrow hcells' hsingle' ⟨by decide, by decide⟩ hat hseparator
          rw [← hstart] at hxs
          refine ⟨xs ++ u :: ys, .cons hxs hu ?_, ?_⟩
          · rw [hstop]
            exact hys
          · simpa using hcut'

end Texts

/-! ## Environments of accepted texts -/

section Compositions

variable {limit limit' : Nat} {name : Text} {type : EnvironmentType} {rows : List (List Cell)}

theorem tokens_environmentText (htype : environments.lookup name = some type) (hne : rows ≠ [])
    (hrows : ∀ row ∈ rows, row ≠ []) (hcells : ∀ row ∈ rows, ∀ cell ∈ row, cell.Accepted limit)
    (hsingle : type ≠ .determinant → ∀ row ∈ rows, row.length = 1) :
    ∃ b e xs ys zs k k', tokens (environmentText name rows) = .ok (b :: (xs ++ (ys ++ zs)))
      ∧ TagTokens "begin" name b xs 0 k
      ∧ BodyTokens (type == .determinant) (environmentText name rows) e k rows ys
      ∧ TagTokens "end" name e zs k' (environmentText name rows).length := by
  have hname := environment_name htype
  have htext : environmentText name rows
      = tagText "begin" name ++ (bodyText rows ++ (tagText "end" name ++ [])) := by
    rw [environmentText, beginTag_eq, endTag_eq, List.append_nil, List.append_assoc]
  have hlength : (environmentText name rows).length = 0 + (tagText "begin" name).length
      + (bodyText rows).length + (tagText "end" name).length := by
    rw [htext, List.append_nil, List.length_append, List.length_append]
    omega
  have hfinish : Cut (0 + (tagText "begin" name).length + (bodyText rows).length
      + (tagText "end" name).length) [] [] := .finish
  obtain ⟨e, zs, hend, hzs⟩ := cut_tag rfl hname hfinish
  obtain ⟨ys, hys, hbody⟩ : ∃ ys,
      BodyTokens (type == .determinant) (environmentText name rows) e
        (0 + (tagText "begin" name).length) rows ys
      ∧ Cut (0 + (tagText "begin" name).length) (bodyText rows ++ (tagText "end" name ++ []))
        (ys ++ (zs ++ [])) :=
    cut_body hne hrows hcells (fun hfalse => hsingle (by simpa using hfalse)) ⟨by decide, by decide⟩
      (drop_behind (show (environmentText name rows).drop 0 = _ from htext)) hzs.start hend
  obtain ⟨b, xs, hbegin, hxs⟩ := cut_tag rfl hname hbody
  rw [← htext, List.append_nil zs] at hbegin
  rw [← hlength] at hzs
  exact ⟨b, e, xs, ys, zs, _, _, hbegin.tokens_eq, hxs, hys, hzs⟩

theorem parse_rows (htype : environments.lookup name = some type) (harray : name ≠ "array")
    (hne : rows ≠ []) (hrows : ∀ row ∈ rows, row ≠ [])
    (hcells : ∀ row ∈ rows, ∀ cell ∈ row, cell.Accepted limit)
    (hsingle : type ≠ .determinant → ∀ row ∈ rows, row.length = 1)
    (hdefinition : type = .determinant →
      ∀ row ∈ rows, ∀ cell ∈ row, startsDefinition cell.text = false)
    (hroom : limit < limit') :
    ReadsCells limit' (environmentText name rows) type (keptCells rows) := by
  obtain ⟨b, e, xs, ys, zs, k, k', ht, hbegin, hbody, hend⟩ :=
    tokens_environmentText htype hne hrows hcells hsingle
  exact parse_environment ht htype harray hbegin hbody hend hcells hdefinition hroom

/-- No rows are written as one row that holds nothing. -/
theorem parse_noRows (htype : environments.lookup name = some type) (harray : name ≠ "array")
    (hlimit : 0 < limit) (hroom : limit < limit') :
    ReadsCells limit' (environmentText name []) type (keptCells []) := by
  have hblank : ∀ row ∈ [[(⟨[], []⟩ : Cell)]], ∀ cell ∈ row, cell = ⟨[], []⟩ := by simp
  have hcells : ∀ row ∈ [[(⟨[], []⟩ : Cell)]], ∀ cell ∈ row, cell.Accepted limit := by
    intro row hrow cell hcell
    rw [hblank row hrow cell hcell]
    exact ⟨1, hlimit, rfl⟩
  have h := parse_rows htype harray (by simp) (by simp) hcells (by simp)
    (fun _ row hrow cell hcell => by rw [hblank row hrow cell hcell]; rfl) hroom
  exact h

/-- **Environments compose.** Texts that are accepted on their own with a nesting of at most `limit`
sequences are accepted as the cells of an environment with any larger limit. A matrix may have any
number of rows of one or more cells, none of which begins with a definition; in a system each row is
one cell, and definitions are allowed. The expressions of the environment are those of the cells,
row by row, with every offset moved by that of the cell, and just the rows are missing that are a
single cell without nodes. -/
theorem environments_compose (limit limit' : Nat) (hlimit : 0 < limit) (hroom : limit < limit') :
    (∀ (name : Text) (rows : List (List Cell)), environments.lookup name = some .determinant →
      (∀ row ∈ rows, row ≠ []) →
      (∀ row ∈ rows, ∀ cell ∈ row, cell.Accepted limit ∧ startsDefinition cell.text = false) →
      ReadsCells limit' (environmentText name rows) .determinant (keptCells rows))
    ∧ ∀ (name : Text) (cells : List Cell), environments.lookup name = some .system →
      name ≠ "array" → (∀ cell ∈ cells, cell.Accepted limit) →
      ReadsCells limit' (environmentText name (cells.map fun cell => [cell])) .system
        (keptCells (cells.map fun cell => [cell])) := by
  constructor
  · intro name rows htype hrows hcells
    have harray : name ≠ "array" := by
      rintro rfl
      exact absurd htype (by decide)
    by_cases hne : rows = []
    · subst hne
      exact parse_noRows htype harray hlimit hroom
    · exact parse_rows htype harray hne hrows
        (fun row hrow cell hcell => (hcells row hrow cell hcell).1)
        (fun h => absurd rfl h) (fun _ row hrow cell hcell => (hcells row hrow cell hcell).2) hroom
  · intro name cells htype harray hcells
    have hsingle : ∀ row ∈ cells.map (fun cell => [cell]), ∃ cell ∈ cells, row = [cell] := by
      intro row hrow
      obtain ⟨cell, hcell, rfl⟩ := List.mem_map.mp hrow
      exact ⟨cell, hcell, rfl⟩
    by_cases hne : cells = []
    · subst hne
      exact parse_noRows htype harray hlimit hroom
    · refine parse_rows htype harray (by simpa using hne) ?_ ?_ ?_
        (fun h => absurd h (by simp)) hroom
      · intro row hrow
        obtain ⟨cell, -, rfl⟩ := hsingle row hrow
        simp
      · intro row hrow cell hin
        obtain ⟨cell', hcell', rfl⟩ := hsingle row hrow
        rw [List.mem_singleton.mp hin]
        exact hcells cell' hcell'
      · intro _ row hrow
        obtain ⟨cell, -, rfl⟩ := hsingle row hrow
        rfl

/-- The function `\sin x` on its own. -/
def sineCell : Cell :=
  ⟨"\\sin x", [.function .regular [unitAt "sin" ⟨0, 4⟩, unitAt "x" ⟨5, 6⟩] none ⟨0, 6⟩]⟩

/-- The definition `f(x)=1` on its own. -/
def definitionCell : Cell :=
  ⟨"f(x)=1",
    [.function .definition [unitAt "f" ⟨0, 1⟩, .expression .round [unitAt "x" ⟨2, 3⟩] ⟨1, 4⟩,
      argument [unitAt "1" ⟨5, 6⟩] ⟨5, 6⟩] none ⟨0, 6⟩]⟩

/-- Nothing on its own. -/
def blankCell : Cell := ⟨[], []⟩

/-- A matrix with a cell that holds nothing and a row that does, and a system with a definition. -/
theorem sine_and_definition_compose :
    (sineCell.Accepted 3 ∧ definitionCell.Accepted 3 ∧ blankCell.Accepted 3
      ∧ startsDefinition sineCell.text = false ∧ startsDefinition definitionCell.text = true)
    ∧ ReadsCells 4 (environmentText "pmatrix" [[sineCell, blankCell], [blankCell], [sineCell]])
        .determinant [sineCell, blankCell, sineCell]
    ∧ ReadsCells 4 (environmentText "align*" [[definitionCell], [blankCell], [sineCell]]) .system
        [definitionCell, sineCell] := by
  have hsine : sineCell.Accepted 3 := ⟨1, by decide, rfl⟩
  have hdefinition : definitionCell.Accepted 3 := ⟨3, by decide, rfl⟩
  have hblank : blankCell.Accepted 3 := ⟨1, by decide, rfl⟩
  have hplain : startsDefinition sineCell.text = false ∧ startsDefinition blankCell.text = false :=
    ⟨rfl, rfl⟩
  have h := environments_compose 3 4 (by decide) (by decide)
  refine ⟨⟨hsine, hdefinition, hblank, rfl, rfl⟩, ?_, ?_⟩
  · exact h.1 "pmatrix" [[sineCell, blankCell], [blankCell], [sineCell]] rfl (by simp)
      (by simp [hsine, hblank, hplain])
  · exact h.2 "align*" [definitionCell, blankCell, sineCell] rfl (by decide)
      (by simp [hdefinition, hblank, hsine])

end Compositions

end MathMarkup.Grammar
