import WordMachine.Proofs.Assembly.Grammar

/-! Which sources are read, and what is said of the others. The grammar is followed as far as its
repetitions are: one that has matched too often is given up, whatever stands behind it. -/

namespace WordMachine.Assembly

open Place Line

/-- The tokens of a source without its layout, if all of it falls into tokens. -/
def Tokenized (source : Bytes) (tokens : List Token) : Prop :=
  ∃ lexemes, Lexes (closeLast source) lexemes [] ∧
    tokens = (tokensAt {} lexemes).filter fun t => !t.isLayout

section Tokens

variable {source : Bytes} {tokens before after : List Token} {t : Token}

theorem Tokenized.closed (tokenized : Tokenized source tokens) :
    ∃ front t, tokens = front ++ [t] ∧ t.kind = .newline ∧ t.position.advance t.text = .after (closeLast source) := by
  obtain ⟨lexemes, lexes, rfl⟩ := tokenized
  obtain ⟨front, rfl⟩ := List.getLast?_eq_some_iff.mp (lexes.getLast?_eq (closeLast_getLast? source))
  have place := lexes.placeAfter_eq []
  rw [List.nil_append, ← List.append_nil (List.flatMap _ _), ← lexes.text_eq, placeAfter, List.foldl_append] at place
  rw [tokensAt_append, List.filter_append]
  exact ⟨_, _, rfl, rfl, place⟩

theorem Tokenized.ended (tokenized : Tokenized source tokens) : Ended tokens := by
  obtain ⟨front, t, rfl, ends, -⟩ := tokenized.closed
  simp [Ended, ends]

theorem Tokenized.unique {other : List Token} (tokenized : Tokenized source tokens)
    (tokenized' : Tokenized source other) : other = tokens := by
  obtain ⟨lexemes, lexes, rfl⟩ := tokenized
  obtain ⟨lexemes', lexes', rfl⟩ := tokenized'
  rw [lexes.unique lexes']

theorem Tokenized.heads (tokenized : Tokenized source tokens) (mem : t ∈ tokens) :
    ∃ rest, t.lexeme.Heads rest := by
  obtain ⟨lexemes, lexes, rfl⟩ := tokenized
  have lexed : t.lexeme ∈ lexemes := by
    rw [← map_lexeme_tokensAt {} lexemes]
    exact List.mem_map_of_mem (List.mem_filter.mp mem).1
  exact lexes.heads_of_mem lexed

theorem Tokenized.stands (tokenized : Tokenized source tokens) (mem : t ∈ tokens) :
    t.Stands (closeLast source) ∧ t.text ≠ [] := by
  obtain ⟨rest, heads⟩ := tokenized.heads mem
  obtain ⟨lexemes, lexes, rfl⟩ := tokenized
  exact ⟨lexes.stands [] t (List.mem_filter.mp mem).1, heads.filled⟩

theorem Tokenized.label (tokenized : Tokenized source tokens) (mem : t ∈ tokens) (kind : t.kind = .label) :
    ∃ name, IsName name ∧ t.text = name ++ [Bytes.ascii ':'] := by
  obtain ⟨rest, heads⟩ := tokenized.heads mem
  exact heads.label kind

theorem Tokenized.placeBetween_eq (tokenized : Tokenized source (before ++ after)) :
    placeBetween before after = (after.head?.map Token.position).getD (.after (closeLast source)) := by
  cases after with
  | cons t after => rfl
  | nil =>
    obtain ⟨front, t, split, -, ending⟩ := tokenized.closed
    rw [List.append_nil] at split
    simp [placeBetween, split, ending]

theorem Tokenized.parse_eq (tokenized : Tokenized source tokens) : parse source = parseTokens tokens := by
  obtain ⟨lexemes, lexes, rfl⟩ := tokenized
  rw [parse, lexes.scan_eq]

end Tokens

/-- Lines with which no repetition comes to its limit. -/
structure Sparse (lines : List Line) : Prop where
  number : lines.length < repetitionLimit
  labels : ∀ l ∈ lines, l.labels.length < repetitionLimit
  operands : ∀ l ∈ lines, ∀ s ∈ l.statement, s.operands.length ≤ repetitionLimit

section Counting

open Tally

variable {c : Tally} {tokens operands more : List Token} {t : Token}

theorem add_label (label : t.kind = .label) : c.add t = { c with labels := c.labels + 1 } := by
  rw [add, label]

theorem add_newline (ends : t.kind = .newline) : c.add t = { lines := c.lines + 1 } := by
  rw [add, ends]

theorem add_word (word : t.kind ≠ .label ∧ t.kind ≠ .newline) :
    c.add t = { c with words := c.words + if t.isPlaced then 1 else 0 } := by
  cases kind : t.kind <;> simp_all [add, Token.isPlaced]

/-- Where tokens add to one count alone, this count decides. -/
theorem overrun?_counted (more : List Token) {g : Nat → Tally} {p : Token → Bool} {n limit : Nat}
    (adds : ∀ t ∈ tokens, ∀ n, (g n).add t = g (n + if p t then 1 else 0))
    (full : ∀ n, (g n).full? = none ↔ n ≠ limit) (below : n < limit) :
    (g n).overrun? (tokens ++ more) = none ↔
      n + tokens.countP p < limit ∧ (g (n + tokens.countP p)).overrun? more = none := by
  induction tokens generalizing n with
  | nil => simp [below]
  | cons t tokens ih =>
    obtain ⟨first, others⟩ := List.forall_mem_cons.mp adds
    have single : (if p t = true then 1 else 0) ≤ 1 := by split <;> omega
    rw [List.cons_append, overrun?_cons, first, full, List.countP_cons, Nat.add_comm (tokens.countP p),
      ← Nat.add_assoc]
    generalize (if p t = true then 1 else 0) = one at single ⊢
    by_cases reached : n + one = limit
    · simp only [reached, ne_eq, not_true_eq_false, false_and, false_iff, not_and]
      omega
    · rw [ih others (by omega)]
      simp only [ne_eq, reached, not_false_eq_true, true_and]

theorem overrun?_labels {n : Nat} (below : n < repetitionLimit) (all : ∀ t ∈ tokens, t.kind = .label) :
    overrun? { lines := n } (tokens ++ more) = none ↔
      tokens.length < repetitionLimit ∧ overrun? ⟨n, tokens.length, 0⟩ more = none := by
  have adds : ∀ t ∈ tokens, ∀ k, (⟨n, k, 0⟩ : Tally).add t = ⟨n, k + if true then 1 else 0, 0⟩ :=
    fun t mem k => add_label (all t mem)
  have full : ∀ k, (⟨n, k, 0⟩ : Tally).full? = none ↔ k ≠ repetitionLimit := by
    intro k
    rw [full?_eq_none_iff]
    simp only
    omega
  have count := overrun?_counted more adds full (Nat.zero_lt_of_lt below)
  rwa [List.countP_true, Nat.zero_add] at count

theorem overrun?_words {n k : Nat} (below : n < repetitionLimit) (sparse : k < repetitionLimit)
    (all : ∀ t ∈ tokens, t.kind ≠ .label ∧ t.kind ≠ .newline) :
    overrun? ⟨n, k, 0⟩ (tokens ++ more) = none ↔ tokens.countP Token.isPlaced < repetitionLimit + 2 ∧
      overrun? ⟨n, k, tokens.countP Token.isPlaced⟩ more = none := by
  have adds : ∀ t ∈ tokens, ∀ w, (⟨n, k, w⟩ : Tally).add t = ⟨n, k, w + if t.isPlaced then 1 else 0⟩ :=
    fun t mem w => add_word (all t mem)
  have full : ∀ w, (⟨n, k, w⟩ : Tally).full? = none ↔ w ≠ repetitionLimit + 2 := by
    intro w
    rw [full?_eq_none_iff]
    simp only
    omega
  have count := overrun?_counted more adds full (Nat.succ_pos _)
  rwa [Nat.zero_add] at count

theorem ne_of_isOperand (operand : t.isOperand = true) : t.kind ≠ .label ∧ t.kind ≠ .newline := by
  rw [isOperand_iff] at operand
  obtain kind | kind | kind | kind := operand <;> simp [kind]

theorem Following.words (following : Following tokens operands) :
    ∀ t ∈ tokens, t.kind ≠ .label ∧ t.kind ≠ .newline := by
  induction following with
  | nil => simp
  | next operand more ih => exact List.forall_mem_cons.mpr ⟨ne_of_isOperand operand, ih⟩
  | comma comma operand more ih =>
    exact List.forall_mem_cons.mpr
      ⟨by simp [comma], List.forall_mem_cons.mpr ⟨ne_of_isOperand operand, ih⟩⟩

theorem Stated.words {statement : Option Statement} (stated : Stated tokens statement) :
    (∀ t ∈ tokens, t.kind ≠ .label ∧ t.kind ≠ .newline) ∧
      (tokens.countP Token.isPlaced < repetitionLimit + 2 ↔
        ∀ s ∈ statement, s.operands.length ≤ repetitionLimit) := by
  cases stated with
  | nil => simp
  | @head t tokens operands named more =>
    have first : t.isPlaced = true ∧ t.kind ≠ .label ∧ t.kind ≠ .newline := by
      obtain kind | kind := named <;> simp [Token.isPlaced, kind]
    have inner : ∀ t ∈ tokens, t.kind ≠ .label ∧ t.kind ≠ .newline := by
      cases more with
      | nil => simp
      | first operand more => exact List.forall_mem_cons.mpr ⟨ne_of_isOperand operand, more.words⟩
    refine ⟨List.forall_mem_cons.mpr ⟨first.2, inner⟩, ?_⟩
    rw [List.countP_cons_of_pos first.1, List.countP_eq_length_filter, more.placed.1]
    simp only [Option.mem_some_iff, forall_eq']
    omega

theorem overrun?_line {l : Line} {newline : Token} (form : LineForm tokens l) (ends : newline.kind = .newline)
    {n : Nat} (below : n < repetitionLimit) :
    overrun? { lines := n } (tokens ++ newline :: more) = none ↔
      l.labels.length < repetitionLimit ∧ (∀ s ∈ l.statement, s.operands.length ≤ repetitionLimit) ∧
        n + 1 < repetitionLimit ∧ overrun? { lines := n + 1 } more = none := by
  obtain @⟨labels, rest, statement, all, stated⟩ := form
  obtain ⟨words, few⟩ := stated.words
  have next : ({ lines := n + 1 } : Tally).full? = none ↔ n + 1 < repetitionLimit := by
    rw [full?_eq_none_iff]
    simp only
    omega
  rw [List.append_assoc, overrun?_labels below all]
  refine and_congr_right fun sparse => ?_
  rw [overrun?_words below sparse words, overrun?_cons, add_newline ends, few, next]

theorem SourceForm.overrun?_iff {lines : List Line} (form : SourceForm tokens lines) {n : Nat}
    (below : n < repetitionLimit) :
    overrun? { lines := n } tokens = none ↔ n + lines.length < repetitionLimit ∧
      (∀ l ∈ lines, l.labels.length < repetitionLimit) ∧
        ∀ l ∈ lines, ∀ s ∈ l.statement, s.operands.length ≤ repetitionLimit := by
  induction form generalizing n with
  | nil => simp [overrun?, below]
  | @line tokens more newline l lines form ends rest ih =>
    rw [overrun?_line form ends below, List.length_cons, List.forall_mem_cons, List.forall_mem_cons]
    by_cases within : n + 1 < repetitionLimit
    · rw [ih within]
      constructor
      · rintro ⟨labels, operands, -, number, others, others'⟩
        exact ⟨by omega, ⟨labels, others⟩, operands, others'⟩
      · rintro ⟨number, ⟨labels, others⟩, operands, others'⟩
        exact ⟨labels, operands, within, by omega, others, others'⟩
    · constructor
      · rintro ⟨-, -, less, -⟩
        exact absurd less within
      · rintro ⟨number, -⟩
        omega

theorem SourceForm.sparse_iff {lines : List Line} (form : SourceForm tokens lines) :
    overrun? {} tokens = none ↔ Sparse lines := by
  have limit : 0 < repetitionLimit := by decide
  rw [form.overrun?_iff limit, Nat.zero_add]
  constructor
  · rintro ⟨number, labels, operands⟩
    exact ⟨number, labels, operands⟩
  · intro sparse
    exact ⟨sparse.number, sparse.labels, sparse.operands⟩

end Counting

def Unfilled (tokens : List Token) : Prop := ∀ front r, front <+: tokens → ¬Tally.Fills {} front r

/-- What is wrong with a source that is none: the first place where no rule of tokens matches, or
else the first token that no line can have, or the place behind a repetition that comes to its limit
before that. -/
inductive Misplaced (source : Bytes) : Error → Prop
  | text {lexemes : List Lexeme} {rest : Bytes} (lexes : Lexes (closeLast source) lexemes rest)
      (unlexed : Unlexed rest) :
      Misplaced source ⟨.of (.after (lexemes.flatMap Lexeme.text)) 1, .noToken rest⟩
  | token {before after : List Token} {t : Token} (tokenized : Tokenized source (before ++ t :: after))
      (unfilled : Unfilled before) (viable : Viable before) (unviable : ¬Viable (before ++ [t]))
      (stands : (blamed before t).Stands (closeLast source)) :
      Misplaced source (unexpected (blamed before t) (midLine before))
  | limit {before after : List Token} {r : Repetition} (tokenized : Tokenized source (before ++ after))
      (viable : Viable before) (fills : Tally.Fills {} before r) :
      Misplaced source
        ⟨.of ((after.head?.map Token.position).getD (.after (closeLast source))) 1, .overrun r⟩

theorem Misplaced.isSyntax {source : Bytes} {e : Error} (misplaced : Misplaced source e) :
    e.cause.isSyntax = true := by
  cases misplaced <;> rfl

theorem blamed_mem {before after : List Token} {t : Token} : blamed before t ∈ before ++ t :: after := by
  unfold blamed
  split
  · next c last =>
    split
    · exact List.mem_append_left _ (List.mem_of_getLast? last)
    · simp
  · simp

theorem Tally.Fills.unfilled {before after : List Token} {t : Token} {r : Repetition}
    (fills : Tally.Fills {} (before ++ t :: after) r) : Unfilled before := by
  intro front r' shorter fills'
  have same := fills'.eq_of_prefix fills (shorter.trans (List.prefix_append _ _))
  have length := shorter.length_le
  rw [same, List.length_append, List.length_cons] at length
  omega

theorem Tally.Fills.viable_closing {before : List Token} {r : Repetition} (fills : Tally.Fills {} before r)
    (viable : Viable before) : Viable (before ++ [closing]) := by
  rw [viable_iff] at viable ⊢
  obtain ⟨place, ran⟩ := Option.isSome_iff_exists.mp viable
  have uncommaed : place ≠ .comma := by
    intro comma
    obtain ⟨c, last, kind⟩ := (run?_last ran).1.mp comma
    exact fills.getLast?_ne_comma rfl c last kind
  rw [run?_append, ran]
  cases place with
  | comma => exact absurd rfl uncommaed
  | start | labelled | headed | operand => rfl

/-- Tokens are read in the one way that the grammar has for them, or there is one among them that has no
place. -/
theorem parseTokens_cases {source : Bytes} {tokens : List Token} (tokenized : Tokenized source tokens) :
    (∃ lines, SourceForm tokens lines ∧ parseTokens tokens = .ok lines) ∨
      ∃ e, parseTokens tokens = .error e ∧ Misplaced source e := by
  cases met : Tally.overrun? {} tokens with
  | none =>
    rw [parseTokens, met]
    obtain ⟨lines, read, form⟩ | ⟨e, read, halts⟩ := source_settled tokenized.ended
    · exact .inl ⟨lines, form, read⟩
    · obtain ⟨before, t, after, split, viable, unviable, rfl⟩ := halts.blames (rfl : Place.start.run? [] = _)
      rw [List.nil_append] at split
      subst split
      have unfilled : Unfilled before := fun front r shorter =>
        Tally.overrun?_eq_none_iff.mp met front r (shorter.trans (List.prefix_append _ _))
      exact .inr ⟨_, read, .token tokenized unfilled viable unviable (tokenized.stands blamed_mem).1⟩
  | some found =>
    obtain ⟨r, after⟩ := found
    obtain ⟨before, rfl, fills⟩ := Tally.overrun?_eq_some_iff.mp met
    rw [fills.parseTokens_eq]
    have ended : Ended (before ++ [closing]) := by simp [Ended, closing]
    obtain ⟨lines, read, form⟩ | ⟨e, read, halts⟩ := source_settled ended
    · refine .inr ⟨_, by rw [read], ?_⟩
      rw [tokenized.placeBetween_eq]
      exact .limit tokenized ⟨_, _, form⟩ fills
    · obtain ⟨front, t, behind, split, viable, unviable, rfl⟩ := halts.blames (rfl : Place.start.run? [] = _)
      refine .inr ⟨_, by rw [read], ?_⟩
      rw [List.nil_append] at split
      obtain rfl | ⟨middle, last, rfl⟩ := behind.eq_nil_or_concat
      · obtain ⟨rfl, same⟩ := List.append_inj' split rfl
        rw [← same] at unviable
        exact absurd (fills.viable_closing viable) unviable
      · rw [List.concat_eq_append, ← List.cons_append, ← List.append_assoc] at split
        obtain ⟨rfl, -⟩ := List.append_inj' split rfl
        rw [List.append_assoc] at tokenized
        exact .token tokenized fills.unfilled viable unviable (tokenized.stands blamed_mem).1

/-- A source is read in the one way that the grammar has for it, or it is misplaced. -/
theorem parse_cases (source : Bytes) :
    (∃ tokens lines, Tokenized source tokens ∧ SourceForm tokens lines ∧ parse source = .ok lines) ∨
      ∃ e, parse source = .error e ∧ Misplaced source e := by
  obtain ⟨lexemes, rest, lexes, rfl | unlexed⟩ := lexes_total (closeLast source)
  · have tokenized : Tokenized source ((tokensAt {} lexemes).filter fun t => !t.isLayout) :=
      ⟨lexemes, lexes, rfl⟩
    obtain ⟨lines, form, read⟩ | ⟨e, read, misplaced⟩ := parseTokens_cases tokenized
    · exact .inl ⟨_, lines, tokenized, form, tokenized.parse_eq.trans read⟩
    · exact .inr ⟨e, tokenized.parse_eq.trans read, misplaced⟩
  · exact .inr ⟨_, by rw [parse, lexes.scan_stuck unlexed], .text lexes unlexed⟩

/-- Lines that the grammar derives are read exactly if they are sparse. -/
theorem SourceForm.parse_iff {source : Bytes} {tokens : List Token} {lines : List Line}
    (form : SourceForm tokens lines) (tokenized : Tokenized source tokens) :
    parse source = .ok lines ↔ Sparse lines := by
  rw [tokenized.parse_eq, ← form.sparse_iff, parseTokens]
  cases met : Tally.overrun? {} tokens with
  | none => simp [form.read]
  | some found =>
    simp only [reduceCtorEq, iff_false]
    split <;> simp

theorem exists_form {source : Bytes} {lines : List Line} (parsed : parse source = .ok lines) :
    ∃ tokens, Tokenized source tokens ∧ SourceForm tokens lines := by
  obtain ⟨tokens, lines', tokenized, form, read⟩ | ⟨e, read, -⟩ := parse_cases source
  · obtain rfl := Except.ok.inj (parsed.symm.trans read)
    exact ⟨tokens, tokenized, form⟩
  · exact absurd (parsed.symm.trans read) (by simp)

/-- A source is read exactly if it falls into tokens that make up lines in which no repetition comes to
its limit. There is one way for that, and it leaves out nothing but commas. Any other source gives a
single error of syntax, at the first place where no rule of tokens matches, or else at the first token
that no line can have there, or at the comma before it, or, if a repetition comes to its limit before
that, at what stands behind. -/
theorem parse_exact (source : Bytes) (table : Option SymbolTable) :
    (∀ lines, parse source = .ok lines ↔
      ∃ tokens, Tokenized source tokens ∧ SourceForm tokens lines ∧ Sparse lines) ∧
    (∀ tokens lines, Tokenized source tokens → SourceForm tokens lines →
      (∀ tokens' lines', Tokenized source tokens' → SourceForm tokens' lines' →
        tokens' = tokens ∧ lines' = lines) ∧
      lines.flatMap Line.tokens = tokens.filter Token.isPlaced ∧
      lines.length = tokens.countP (·.kind = .newline)) ∧
    ((¬∃ tokens lines, Tokenized source tokens ∧ SourceForm tokens lines ∧ Sparse lines) →
      ∃ e, assemble source table = ⟨.error [e], table⟩ ∧ e.cause.isSyntax = true ∧ Misplaced source e) := by
  have read_iff : ∀ lines, parse source = .ok lines ↔
      ∃ tokens, Tokenized source tokens ∧ SourceForm tokens lines ∧ Sparse lines := by
    refine fun lines => ⟨fun read => ?_, fun ⟨tokens, tokenized, form, sparse⟩ =>
      (form.parse_iff tokenized).mpr sparse⟩
    obtain ⟨tokens, tokenized, form⟩ := exists_form read
    exact ⟨tokens, tokenized, form, (form.parse_iff tokenized).mp read⟩
  refine ⟨read_iff, fun tokens lines tokenized form => ⟨?_, form.placed⟩, fun underivable => ?_⟩
  · intro tokens' lines' tokenized' form'
    obtain rfl := tokenized.unique tokenized'
    exact ⟨rfl, Except.ok.inj (form'.read.symm.trans form.read)⟩
  · cases read : parse source with
    | ok lines =>
      obtain ⟨tokens, derived⟩ := (read_iff lines).mp read
      exact absurd ⟨tokens, lines, derived⟩ underivable
    | error e =>
      obtain ⟨tokens, lines, -, -, read'⟩ | ⟨e', read', misplaced⟩ := parse_cases source
      · exact absurd (read.symm.trans read') (by simp)
      · obtain rfl := Except.error.inj (read.symm.trans read')
        exact ⟨e, by rw [assemble, read], misplaced.isSyntax, misplaced⟩

theorem heads_newline (rest : Bytes) : Lexeme.newline.Heads rest :=
  heads_iff_next?.mpr (Token.next?_newline rest)

theorem exists_blank_lines {n : Nat} (some' : n ≠ 0) : ∃ tokens lines,
    Tokenized (List.replicate n Bytes.newline) tokens ∧ SourceForm tokens lines ∧ lines.length = n := by
  have lexes : Lexes (List.replicate n Bytes.newline) (List.replicate n .newline) [] := by
    clear some'
    induction n with
    | zero => exact .done []
    | succ n ih => exact .step (heads_newline _) ih
  have closed : closeLast (List.replicate n Bytes.newline) = List.replicate n Bytes.newline := by
    rw [closeLast, if_pos (by simp [List.getLast?_replicate, some'])]
  have lined : ∀ tokens : List Token, (∀ t ∈ tokens, t.kind = .newline) →
      ∃ lines, SourceForm tokens lines ∧ lines.length = tokens.length := by
    intro tokens all
    induction tokens with
    | nil => exact ⟨[], .nil, rfl⟩
    | cons t tokens ih =>
      obtain ⟨ends, others⟩ := List.forall_mem_cons.mp all
      obtain ⟨lines, form, number⟩ := ih others
      exact ⟨_ :: lines, @SourceForm.line [] _ _ _ _ (@LineForm.intro [] [] none (by simp) .nil) ends form,
        congrArg (· + 1) number⟩
  have kinds : ∀ t ∈ tokensAt {} (List.replicate n .newline), t.kind = .newline := by
    intro t mem
    have lexed : t.lexeme ∈ (tokensAt {} (List.replicate n .newline)).map Token.lexeme :=
      List.mem_map_of_mem mem
    rw [map_lexeme_tokensAt] at lexed
    exact congrArg Lexeme.kind (List.eq_of_mem_replicate lexed)
  have kept : (tokensAt {} (List.replicate n .newline)).filter (fun t => !t.isLayout) =
      tokensAt {} (List.replicate n .newline) := by
    rw [List.filter_eq_self]
    intro t mem
    simp [Token.isLayout, kinds t mem]
  obtain ⟨lines, form, number⟩ := lined _ kinds
  refine ⟨_, lines, ⟨_, closed.symm ▸ lexes, kept.symm⟩, form, ?_⟩
  have length := congrArg List.length (map_lexeme_tokensAt {} (List.replicate n .newline))
  rw [List.length_map, List.length_replicate] at length
  exact number.trans length

/-- Too many lines are not read, whatever they are. -/
theorem blank_lines_refused : ∃ tokens lines,
    Tokenized (List.replicate 1000001 Bytes.newline) tokens ∧ SourceForm tokens lines ∧
      ∀ lines', parse (List.replicate 1000001 Bytes.newline) ≠ .ok lines' := by
  obtain ⟨tokens, lines, tokenized, form, number⟩ := exists_blank_lines (n := 1000001) (by decide)
  refine ⟨tokens, lines, tokenized, form, fun lines' read => ?_⟩
  obtain ⟨tokens', tokenized', form'⟩ := exists_form read
  obtain rfl := tokenized.unique tokenized'
  obtain rfl := Except.ok.inj (form'.read.symm.trans form.read)
  have sparse := ((form.parse_iff tokenized).mp read).number
  rw [number] at sparse
  exact absurd sparse (by decide)

end WordMachine.Assembly
