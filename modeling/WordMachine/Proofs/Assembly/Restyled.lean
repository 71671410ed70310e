import WordMachine.Proofs.Assembly.Restyling
import WordMachine.Proofs.Location

/-! Sources that differ in style come to the same. Their tokens are read into lines that are alike, or
the readers of both are stopped for the same reason; lines that are alike have the same course, so the same
is done at the same addresses, and what is said of it differs in places and quoted texts only. -/

namespace WordMachine.Assembly

open Text

/-- A cause without the texts that it quotes from the source. -/
def Cause.unquoted : Cause → Cause
  | noToken _ => noToken []
  | unexpectedToken _ expectsNewline => unexpectedToken [] expectsNewline
  | reservedLabel _ => reservedLabel []
  | redeclaredLabel _ => redeclaredLabel []
  | unknownLabel _ => unknownLabel []
  | unknownIdentifier _ => unknownIdentifier []
  | cause => cause

inductive Matched {ε α β : Type} (cause : ε → Cause) (related : α → β → Prop) : Except ε α → Except ε β → Prop
  | ok {a : α} {b : β} (same : related a b) : Matched cause related (.ok a) (.ok b)
  | error {e e' : ε} (same : (cause e').unquoted = (cause e).unquoted) : Matched cause related (.error e) (.error e')

namespace Matched

variable {ε α β γ δ : Type} {cause : ε → Cause}

theorem map {related : α → β → Prop} {related' : γ → δ → Prop} {r : Except ε α} {r' : Except ε β} {f : α → γ}
    {g : β → δ} (matched : Matched cause related r r') (kept : ∀ a b, related a b → related' (f a) (g b)) :
    Matched cause related' (r.map f) (r'.map g) := by
  cases matched with
  | ok same => exact .ok (kept _ _ same)
  | error same => exact .error same

theorem toOption {r r' : Except ε α} (matched : Matched cause Eq r r') : r'.toOption = r.toOption := by
  cases matched with
  | ok same => rw [same]
  | error same => rfl

end Matched

theorem eq_of_toLower_digits {t u : Bytes} (digits : ∀ b ∈ t, Bytes.isDigit b = true)
    (same : Bytes.toLower u = Bytes.toLower t) : u = t := by
  have all : ∀ n : Fin 256, Bytes.isDigit (Bytes.lower (.ofFin n)) = true →
      Bytes.lower (.ofFin n) = UInt8.ofFin n := by decide +kernel
  induction t generalizing u with
  | nil => exact List.map_eq_nil_iff.mp same
  | cons b t ih =>
    obtain ⟨c, u, rfl, first, rest⟩ := List.map_eq_cons_iff.mp same
    have digit : Bytes.isDigit (Bytes.lower b) = true := by
      rw [ofWords_isDigit.lower]
      exact digits b List.mem_cons_self
    have plain : Bytes.lower b = b := all b.toFin digit
    have plain' : Bytes.lower c = c := all c.toFin (first ▸ digit)
    rw [ih (fun d mem => digits d (List.mem_cons_of_mem _ mem)) rest, ← plain, ← plain', first]

theorem register_recased {t u : Bytes} (register : isRegisterName t = true)
    (same : Bytes.toLower u = Bytes.toLower t) : isRegisterName u = true ∧ registerValue u = registerValue t := by
  have marks : ∀ n : Fin 256, Bytes.lower (.ofFin n) = Bytes.ascii 'r' →
      UInt8.ofFin n = Bytes.ascii 'r' ∨ UInt8.ofFin n = Bytes.ascii 'R' := by decide +kernel
  obtain ⟨b, digits, rfl, mark, filled, all⟩ : ∃ b digits, t = b :: digits ∧
      Bytes.lower b = Bytes.ascii 'r' ∧ digits ≠ [] ∧ ∀ c ∈ digits, Bytes.isDigit c = true := by
    rcases t with _ | ⟨b, _ | ⟨c, digits⟩⟩
    · simp [isRegisterName] at register
    · simp [isRegisterName] at register
    · simp only [isRegisterName, Bool.and_eq_true, Bool.or_eq_true, decide_eq_true_eq, List.all_eq_true] at register
      refine ⟨b, c :: digits, rfl, ?_, by simp, register.2⟩
      obtain rfl | rfl := register.1 <;> decide
  obtain ⟨c, digits', rfl, first, rest⟩ := List.map_eq_cons_iff.mp same
  obtain rfl := eq_of_toLower_digits all rest
  have value : ∀ b, b = Bytes.ascii 'r' ∨ b = Bytes.ascii 'R' →
      Bytes.dropMark (Bytes.ascii 'R') (Bytes.dropMark (Bytes.ascii 'r') (b :: digits')) = digits' := by
    obtain ⟨d, more, rfl⟩ := List.exists_cons_of_ne_nil filled
    have other : d ≠ Bytes.ascii 'R' := by
      rintro rfl
      exact absurd (all _ List.mem_cons_self) (by decide)
    rintro b (rfl | rfl)
    · simp [Bytes.dropMark, other]
    · simp [Bytes.dropMark, Bytes.ascii]
  have letter := marks b.toFin mark
  have letter' := marks c.toFin (first.trans mark)
  refine ⟨Location.isRegisterName_cons letter' filled all, ?_⟩
  rw [registerValue, registerValue, Location.readRegister, Location.readRegister, value b letter, value c letter']

namespace Token.Recased

variable {spot : Spot} {t t' : Token}

theorem isOperand (same : t.Recased spot t') : t'.isOperand = t.isOperand := by
  simp [Token.isOperand, same.kind]

theorem toLower (same : t.Recased spot t') : Bytes.toLower t'.text = Bytes.toLower t.text :=
  toLower_recased same.text

theorem begun (other : spot ≠ .bare) (same : t.Recased spot t') : t.Recased .operand t' := by
  refine ⟨same.kind, ?_⟩
  have text := same.text
  cases kind : t.kind <;> simp_all [recased, caseless]

theorem operand (same : t.Recased .operand t') : operandKind t' = operandKind t ∧
    (t'.text = t.text ∨ operandKind t = .unknown ∨
      operandKind t = .register ∧ registerValue t'.text = registerValue t.text) := by
  have text := same.text
  simp only [recased, Bool.or_eq_true, decide_eq_true_eq, Bool.and_eq_true] at text
  obtain text | ⟨caseless', lower⟩ := text
  · exact ⟨by simp only [operandKind, same.kind, text], .inl text⟩
  · cases kind : t.kind with
    | name =>
      have register : isRegisterName t.text = true := by simpa [caseless, kind] using caseless'
      obtain ⟨register', value⟩ := register_recased register lower
      simp [operandKind, same.kind, kind, register, register', value]
    | directive | label => simp [operandKind, same.kind, kind]
    | comment | blank | newline | string | character | number | comma => simp [caseless, kind] at caseless'

end Token.Recased

structure Statement.Alike (s s' : Statement) : Prop where
  head : s.head.Recased .bare s'.head
  operands : List.Forall₂ (Token.Recased .operand) s.operands s'.operands

structure Token.Relabelled (t t' : Token) : Prop where
  label : t.kind = .label
  same : t.Recased .bare t'

structure Line.Alike (l l' : Line) : Prop where
  labels : List.Forall₂ Token.Relabelled l.labels l'.labels
  statement : Option.Rel Statement.Alike l.statement l'.statement

section Reading

open Line

variable {spot : Spot} {t u : Token} {tokens tokens' : List Token}

theorem next_of_isOperand (other : spot ≠ .bare) (operand : t.isOperand = true) :
    spot.next t.kind = .operand := by
  rw [isOperand_iff] at operand
  obtain kind | kind | kind | kind := operand <;> simp [Spot.next, kind, other]

theorem moreOperands_cons (operand : t.isOperand = true) :
    moreOperands (t :: tokens) = (moreOperands tokens).map (t :: ·) := by
  rw [moreOperands.eq_def]
  exact if_pos operand

theorem moreOperands_comma (comma : t.kind = .comma) (operand : u.isOperand = true) :
    moreOperands (t :: u :: tokens) = (moreOperands tokens).map (u :: ·) := by
  have other : t.isOperand = false := by simp [Token.isOperand, comma]
  simp [moreOperands, other, comma, operand]

theorem moreOperands_stuck (other : t.isOperand = false)
    (last : t.kind = .comma → ∀ u ∈ tokens.head?, u.isOperand = false) :
    moreOperands (t :: tokens) = .error (unexpected t true) := by
  by_cases comma : t.kind = .comma
  · cases tokens with
    | nil => simp [moreOperands, other, comma]
    | cons u tokens => simp [moreOperands, other, comma, last comma u rfl]
  · rw [moreOperands.eq_def]
    simp [other, comma]

/-- A reader of operands does not miss a comma between two of them. -/
theorem moreOperands_alike (alike : Alike .operand tokens tokens') :
    Matched Error.cause (List.Forall₂ (Token.Recased .operand)) (moreOperands tokens) (moreOperands tokens') := by
  fun_induction moreOperands tokens generalizing tokens' with
  | case1 =>
    cases alike
    exact .ok .nil
  | case2 t rest operand ih =>
    cases alike with
    | keep same more =>
      rw [next_of_isOperand (by decide) operand] at more
      rw [moreOperands_cons (same.isOperand.trans operand)]
      exact (ih more).map fun _ _ others => .cons same others
    | drop comma => simp [Token.isOperand, comma] at operand
  | case3 t other comma u rest operand ih =>
    cases alike with
    | @keep _ _ t' _ _ same more =>
      rw [comma] at more
      cases more with
      | keep same' more =>
        rw [next_of_isOperand (by decide) operand] at more
        rw [moreOperands_comma (same.kind.trans comma) (same'.isOperand.trans operand)]
        exact (ih more).map fun _ _ others => .cons (same'.begun (by decide)) others
    | drop _ _ more =>
      cases more with
      | keep same more =>
        rw [next_of_isOperand (by decide) operand] at more
        rw [moreOperands_cons (same.isOperand.trans operand)]
        exact (ih more).map fun _ _ others => .cons (same.begun (by decide)) others
  | case4 t other comma u rest last =>
    cases alike with
    | keep same more =>
      rw [comma] at more
      cases more with
      | keep same' more =>
        have last' := same'.isOperand.trans (by simpa using last)
        rw [moreOperands_stuck (same.isOperand.trans (by simpa using other)) fun _ v first => by
          rwa [← Option.mem_some.mp first]]
        exact .error rfl
    | drop _ operand => exact absurd operand last
  | case5 t other comma =>
    cases alike with
    | keep same more =>
      rw [comma] at more
      cases more
      rw [moreOperands_stuck (same.isOperand.trans (by simpa using other)) (by simp)]
      exact .error rfl
  | case6 t rest other uncommaed =>
    cases alike with
    | keep same more =>
      rw [moreOperands_stuck (same.isOperand.trans (by simpa using other)) fun comma =>
        absurd (same.kind.symm.trans comma) uncommaed]
      exact .error rfl
    | drop comma => exact absurd comma uncommaed

theorem readOperands_alike (alike : Alike .headed tokens tokens') :
    Matched Error.cause (List.Forall₂ (Token.Recased .operand)) (readOperands tokens) (readOperands tokens') := by
  cases alike with
  | nil => exact .ok .nil
  | @keep _ t t' rest rest' same more =>
    rw [readOperands, readOperands, same.isOperand]
    split
    · next operand =>
      rw [next_of_isOperand (by decide) operand] at more
      exact (moreOperands_alike more).map fun _ _ others => .cons (same.begun (by decide)) others
    · exact .error rfl

theorem readStatement_alike {labels labels' : List Token} (empty : labels'.isEmpty = labels.isEmpty)
    (alike : Alike .bare tokens tokens') :
    Matched Error.cause (Option.Rel Statement.Alike) (readStatement labels tokens) (readStatement labels' tokens') := by
  cases alike with
  | nil => exact .ok .none
  | @keep _ t t' rest rest' same more =>
    rw [readStatement, readStatement, same.kind, empty]
    split
    · next named =>
      have headed : Spot.next .bare t.kind = .headed := by
        obtain kind | kind : t.kind = .directive ∨ t.kind = .name := by simpa using named
        all_goals rw [kind]; rfl
      rw [headed] at more
      exact (readOperands_alike more).map fun _ _ others => .some ⟨same, others⟩
    · exact .error rfl

theorem Alike.labels {labels rest : List Token} (all : ∀ t ∈ labels, t.kind = .label)
    (alike : Alike .bare (labels ++ rest) tokens') : ∃ labels' rest', tokens' = labels' ++ rest' ∧
      (∀ t ∈ labels', t.kind = .label) ∧ List.Forall₂ Token.Relabelled labels labels' ∧
        Alike .bare rest rest' := by
  induction labels generalizing tokens' with
  | nil => exact ⟨[], tokens', rfl, by simp, .nil, alike⟩
  | cons t labels ih =>
    obtain ⟨first, others⟩ := List.forall_mem_cons.mp all
    cases alike with
    | keep same more =>
      rw [first] at more
      obtain ⟨labels', rest', rfl, all', others', remaining⟩ := ih others more
      exact ⟨_ :: labels', rest', rfl, List.forall_mem_cons.mpr ⟨same.kind.trans first, all'⟩,
        .cons ⟨first, same⟩ others', remaining⟩

theorem Alike.head_kind (alike : Alike .bare tokens tokens') :
    tokens'.head?.map Token.kind = tokens.head?.map Token.kind := by
  cases alike with
  | nil => rfl
  | keep same more => exact congrArg some same.kind

theorem ofTokens_alike (alike : Alike .bare tokens tokens') :
    Matched Error.cause Line.Alike (ofTokens tokens) (ofTokens tokens') := by
  obtain ⟨labels, rest, rfl, all, unlabelled⟩ := exists_labels tokens
  obtain ⟨labels', rest', rfl, all', same, more⟩ := alike.labels all
  have unlabelled' : ∀ t ∈ rest'.head?, t.kind ≠ .label := by
    intro t' first label
    have kinds := more.head_kind
    rw [first, Option.map_some, label] at kinds
    obtain ⟨t, first', kind⟩ := Option.map_eq_some_iff.mp kinds.symm
    exact unlabelled t first' kind
  have empty : labels'.isEmpty = labels.isEmpty := by cases same <;> rfl
  rw [ofTokens_labels all unlabelled, ofTokens_labels all' unlabelled']
  exact (readStatement_alike empty more).map fun _ _ stated => ⟨same, stated⟩

theorem Alike.line {line more : List Token} {newline : Token} (ends : newline.kind = .newline)
    (alike : Alike spot (line ++ newline :: more) tokens') : ∃ line' newline' more',
      tokens' = line' ++ newline' :: more' ∧ newline'.kind = .newline ∧ Alike spot line line' ∧
        Alike .bare more more' := by
  induction line generalizing spot tokens' with
  | nil =>
    cases alike with
    | @keep _ _ t' _ rest' same rest =>
      rw [ends] at rest
      exact ⟨[], t', rest', rfl, same.kind.trans ends, .nil spot, rest⟩
    | drop comma => exact absurd (ends.symm.trans comma) (by decide)
  | cons t line ih =>
    rw [List.cons_append] at alike
    generalize others : line ++ newline :: more = rest at alike ih
    cases alike with
    | @keep _ _ t' _ rest' same following =>
      obtain ⟨line', newline', more', rfl, ends', alike, remaining⟩ := ih following
      exact ⟨t' :: line', newline', more', rfl, ends', .keep same alike, remaining⟩
    | @drop _ o _ _ comma operand following =>
      obtain ⟨line', newline', more', rfl, ends', alike, remaining⟩ := ih following
      cases line with
      | nil =>
        obtain rfl : newline = o := (List.cons_eq_cons.mp others).1
        simp [Token.isOperand, ends] at operand
      | cons p line =>
        obtain rfl : p = o := (List.cons_eq_cons.mp others).1
        exact ⟨line', newline', more', rfl, ends', .drop comma operand alike, remaining⟩

theorem Alike.inline (alike : Alike spot tokens tokens') (inside : ∀ t ∈ tokens, t.kind ≠ .newline) :
    ∀ t ∈ tokens', t.kind ≠ .newline := by
  induction alike with
  | nil => simp
  | @keep _ t t' _ _ same more ih =>
    obtain ⟨first, others⟩ := List.forall_mem_cons.mp inside
    exact List.forall_mem_cons.mpr ⟨same.kind ▸ first, ih others⟩
  | drop comma operand more ih => exact ih (List.forall_mem_cons.mp inside).2

theorem Alike.splitLines (ended : Ended tokens) (alike : Alike .bare tokens tokens') :
    List.Forall₂ (Alike .bare) (splitLines tokens) (splitLines tokens') := by
  induction size : tokens.length using Nat.strongRecOn generalizing tokens tokens' with
  | _ n shorter =>
    by_cases empty : tokens = []
    · subst empty
      cases alike
      exact .nil
    · obtain ⟨line, newline, more, rfl, inside, ends, ended'⟩ := exists_line ended empty
      obtain ⟨line', newline', more', rfl, ends', alike', rest⟩ := alike.line ends
      have less : more.length < n := by
        rw [← size, List.length_append, List.length_cons]
        omega
      rw [splitLines_line inside ends, splitLines_line (alike'.inline inside) ends']
      exact .cons alike' (shorter _ less ended' rest rfl)

theorem mapM_alike {lines lines' : List (List Token)} (alike : List.Forall₂ (Alike .bare) lines lines') :
    Matched Error.cause (List.Forall₂ Line.Alike) (lines.mapM ofTokens) (lines'.mapM ofTokens) := by
  induction alike with
  | nil => exact .ok .nil
  | @cons tokens tokens' lines lines' first others ih =>
    rw [List.mapM_cons, List.mapM_cons]
    have read := ofTokens_alike first
    generalize ofTokens tokens = r, ofTokens tokens' = r' at read
    cases read with
    | error same => exact .error same
    | @ok l l' same =>
      generalize lines.mapM ofTokens = rest, lines'.mapM ofTokens = rest' at ih
      cases ih with
      | error same => exact .error same
      | ok others => exact .ok (.cons same others)

theorem Alike.close (same : t.Recased spot u) : Alike spot [t, closing] [u, closing] := by
  have mark : closing.Recased (spot.next t.kind) closing := ⟨rfl, by simp [recased]⟩
  exact .keep same (.keep mark (.nil _))

/-- Tokens that are alike bring the same repetition to its limit, and are alike up to there. -/
theorem Alike.overrun {c : Tally} (open' : c.full? = none) (alike : Alike spot tokens tokens') :
    c.overrun? tokens = none ∧ c.overrun? tokens' = none ∨
      ∃ r front rest front' rest', tokens = front ++ rest ∧ tokens' = front' ++ rest' ∧ c.Fills front r ∧
        c.Fills front' r ∧ Alike spot (front ++ [closing]) (front' ++ [closing]) := by
  induction alike generalizing c with
  | nil => exact .inl ⟨rfl, rfl⟩
  | @keep spot t t' tokens tokens' same more ih =>
    have added : c.add t' = c.add t := by rw [Tally.add, Tally.add, same.kind]
    cases full : (c.add t).full? with
    | some r =>
      exact .inr ⟨r, [t], tokens, [t'], tokens', rfl, rfl, .last full, .last (added ▸ full), .close same⟩
    | none =>
      have full' : (c.add t').full? = none := added ▸ full
      obtain ⟨met, met'⟩ | ⟨r, front, rest, front', rest', rfl, rfl, fills, fills', closed⟩ := ih full
      · exact .inl ⟨Tally.overrun?_cons.mpr ⟨full, met⟩, Tally.overrun?_cons.mpr ⟨full', added ▸ met'⟩⟩
      · exact .inr ⟨r, t :: front, rest, t' :: front', rest', rfl, rfl, .more full fills,
          .more full' (added ▸ fills'), .keep same closed⟩
  | @drop p o tokens tokens' comma operand more ih =>
    have added : c.add p = c := by rw [Tally.add, comma]
    have full : (c.add p).full? = none := added.symm ▸ open'
    obtain ⟨met, met'⟩ | ⟨r, front, rest, front', rest', split, rfl, fills, fills', closed⟩ := ih open'
    · exact .inl ⟨Tally.overrun?_cons.mpr ⟨full, added.symm ▸ met⟩, met'⟩
    · obtain ⟨first, front, rfl⟩ := List.exists_cons_of_ne_nil fills.ne_nil
      obtain ⟨rfl, rfl⟩ := List.cons_eq_cons.mp split
      exact .inr ⟨r, p :: o :: front, rest, front', rest', rfl, rfl, .more full (added.symm ▸ fills), fills',
        .drop comma operand closed⟩

theorem readLines_alike (ended : Ended tokens) (alike : Alike .bare tokens tokens') :
    Matched Error.cause (List.Forall₂ Line.Alike) (readLines tokens) (readLines tokens') :=
  mapM_alike (alike.splitLines ended)

theorem parseTokens_alike (ended : Ended tokens) (alike : Alike .bare tokens tokens') :
    Matched Error.cause (List.Forall₂ Line.Alike) (parseTokens tokens) (parseTokens tokens') := by
  obtain ⟨met, met'⟩ | ⟨r, front, rest, front', rest', rfl, rfl, fills, fills', closed⟩ :=
    alike.overrun (c := {}) rfl
  · rw [parseTokens, parseTokens, met, met']
    exact readLines_alike ended alike
  · have read := readLines_alike (by simp [Ended, closing]) closed
    rw [fills.parseTokens_eq, fills'.parseTokens_eq]
    generalize readLines (front ++ [closing]) = r, readLines (front' ++ [closing]) = r' at read
    cases read with
    | error same => exact .error same
    | ok same => exact .error rfl

theorem map_lexeme_filter (p : Position) (lexemes : List Lexeme) :
    ((tokensAt p lexemes).filter fun t => !t.isLayout).map Token.lexeme = words lexemes := by
  conv_rhs => rw [words, ← map_lexeme_tokensAt p lexemes, List.filter_map]
  rfl

theorem Restyled.parse {source source' : Bytes} (restyled : Restyled source source') :
    Matched Error.cause (List.Forall₂ Line.Alike) (parse source) (parse source') := by
  obtain ⟨lexes, leftover, style, text⟩ := restyled
  obtain ⟨lexemes', lexes', -, alike⟩ := lexes.restyled leftover style
  rw [← text] at lexes'
  cases leftover with
  | nil =>
    have tokenized : Tokenized source _ := ⟨_, lexes, rfl⟩
    have tokenized' : Tokenized source' _ := ⟨_, lexes', rfl⟩
    have same := alike _ _ (map_lexeme_filter {} _) (map_lexeme_filter {} _)
    rw [tokenized.parse_eq, tokenized'.parse_eq]
    exact parseTokens_alike tokenized.ended same
  | stuck first second =>
    rw [WordMachine.Assembly.parse, WordMachine.Assembly.parse, lexes.scan_stuck first, lexes'.scan_stuck second]
    exact .error rfl

end Reading

/-- Cells that are filled with the same, for a word that is the same where it is a label. -/
structure Cell.Alike (cell cell' : Cell) : Prop where
  filling : cell'.filling = cell.filling
  label : cell.filling = .label → cell'.holder.text = cell.holder.text

inductive Act.Alike : Act → Act → Prop
  | refuse {t t' : Token} {cause cause' : Cause} (same : cause'.unquoted = cause.unquoted) :
      Act.Alike (.refuse t cause) (.refuse t' cause')
  | fill {cell cell' : Cell} (same : cell.Alike cell') : Act.Alike (.fill cell) (.fill cell')
  | declare {t t' : Token} (same : t.Relabelled t') : Act.Alike (.declare t) (.declare t')
  | record (start start' : Position) : Act.Alike (.record start) (.record start')

def Placed {α : Type} (alike : α → α → Prop) (entry entry' : Nat × α) : Prop :=
  entry'.1 = entry.1 ∧ alike entry.2 entry'.2

theorem operandFilling_recased {t t' : Token} (same : t.Recased .operand t') (limit : Nat) :
    Cell.Alike ⟨t, operandFilling limit t⟩ ⟨t', operandFilling limit t'⟩ := by
  suffices operandFilling limit t' = operandFilling limit t ∧
      (operandFilling limit t = .label → t'.text = t.text) from ⟨this.1, this.2⟩
  obtain ⟨kind, text | unknown | ⟨register, value⟩⟩ := same.operand
  · simp only [operandFilling, kind, text, true_and, implies_true]
  · simp [operandFilling, kind, unknown]
  · simp [operandFilling, kind, register, value]

theorem roleFilling_recased {t t' : Token} (same : t.Recased .operand t') (role : Role) :
    Cell.Alike ⟨t, roleFilling role t⟩ ⟨t', roleFilling role t'⟩ := by
  unfold roleFilling
  rw [same.operand.1]
  split
  · exact ⟨rfl, fun label => Filling.noConfusion label⟩
  · exact operandFilling_recased same literalLimit

theorem roles_alike {operands operands' : List Token}
    (same : List.Forall₂ (Token.Recased .operand) operands operands') (roles : List Role) :
    List.Forall₂ Cell.Alike ((roles.zip operands).map fun e => ⟨e.2, roleFilling e.1 e.2⟩)
      ((roles.zip operands').map fun e => ⟨e.2, roleFilling e.1 e.2⟩) := by
  induction same generalizing roles with
  | nil => simp
  | cons first others ih =>
    cases roles with
    | nil => exact .nil
    | cons role roles => exact .cons (roleFilling_recased first role) (ih roles)

theorem words_alike (t t' : Token) (words : List UInt16) :
    List.Forall₂ Cell.Alike (words.map fun w => ⟨t, .value (.ok w)⟩) (words.map fun w => ⟨t', .value (.ok w)⟩) := by
  rw [List.forall₂_map_left_iff, List.forall₂_map_right_iff]
  exact List.forall₂_same.mpr fun w _ => ⟨rfl, fun label => Filling.noConfusion label⟩

theorem ofName?_recased {spot : Spot} {t t' : Token} (same : t.Recased spot t') :
    Directive.ofName? t'.text = Directive.ofName? t.text := by
  rw [Directive.ofName?, Directive.ofName?, same.toLower]

namespace Statement.Alike

variable {s s' : Statement}

theorem movesLabels (alike : s.Alike s') : Draft.movesLabels s' = Draft.movesLabels s := by
  rw [Draft.movesLabels, Draft.movesLabels, alike.head.kind, ofName?_recased alike.head]

theorem opcode? (alike : s.Alike s') : s'.opcode? = s.opcode? := by
  rw [Statement.opcode?, Statement.opcode?, alike.head.toLower]

theorem sole {α : Type} (alike : s.Alike s') {kind : OperandKind} (caseful : kind = .literal ∨ kind = .string)
    (read : Bytes → Except Cause α) : Matched Prod.snd Eq (s.sole kind read) (s'.sole kind read) := by
  have operands := alike.operands
  unfold Statement.sole
  generalize s.operands = ts, s'.operands = ts' at operands
  rcases operands with _ | ⟨first, _ | ⟨second, others⟩⟩
  · exact .error rfl
  · obtain ⟨same, text⟩ := first.operand
    simp only [same]
    split
    · next is =>
      have kept := text.resolve_right fun changed => by
        obtain unknown | ⟨register, -⟩ := changed
        · obtain rfl | rfl := caseful <;> simp [is] at unknown
        · obtain rfl | rfl := caseful <;> simp [is] at register
      rw [kept]
      cases read _ with
      | ok a => exact .ok rfl
      | error cause => exact .error rfl
    · exact .error rfl
  · refine .error ?_
    simp only [List.length_cons, others.length_eq]

theorem origin? (alike : s.Alike s') : s'.origin? = s.origin? := by
  rw [Statement.origin?, Statement.origin?, alike.movesLabels,
    (alike.sole (.inl rfl) (literalValue literalLimit)).toOption]

theorem plan (alike : s.Alike s') : Matched Prod.snd (List.Forall₂ Cell.Alike) s.plan s'.plan := by
  have own := words_alike s.head s'.head
  have number := alike.sole (.inl rfl) (literalValue literalLimit)
  have string := alike.sole (.inr rfl) stringValue
  have count := alike.operands.length_eq
  unfold Statement.plan
  rw [alike.head.kind, ofName?_recased alike.head, alike.opcode?]
  by_cases kind : s.head.kind = .directive
  · simp only [kind, if_true]
    cases Directive.ofName? s.head.text with
    | none => exact .error rfl
    | some which =>
      cases which with
      | orig => exact number.map fun _ _ _ => .nil
      | blkw => exact number.map fun n _ same => same ▸ own (List.replicate n.toNat 0)
      | word =>
        have empty : s'.operands.isEmpty = s.operands.isEmpty := by
          rw [Bool.eq_iff_iff, List.isEmpty_iff_length_eq_zero, List.isEmpty_iff_length_eq_zero, count]
        simp only [empty]
        split
        · exact .error rfl
        · refine .ok (List.rel_map ?_ alike.operands)
          exact fun t t' same => operandFilling_recased same rawLimit
      | string => exact string.map fun chars _ same => same ▸ own chars
      | print => exact string.map fun chars _ same => same ▸ own (chars.flatMap fun c => [Opcode.out.code, c])
  · simp only [kind, if_false]
    cases s.opcode? with
    | none => exact .error rfl
    | some op =>
      simp only [← count]
      split
      · exact .error rfl
      · exact .ok (List.rel_append (own [op.code]) (roles_alike alike.operands op.roles))

end Statement.Alike

namespace Line.Alike

variable {l l' : Line}

theorem entry (alike : l.Alike l') (addr : Nat) : l'.entry addr = l.entry addr := by
  have statement := alike.statement
  rw [Line.entry, Line.entry]
  generalize l.statement = s, l'.statement = s' at statement
  cases statement with
  | none => rfl
  | some same => rw [Option.bind_some, Option.bind_some, same.origin?]

theorem length_cells (alike : l.Alike l') : l'.cells.length = l.cells.length := by
  have statement := alike.statement
  rw [Line.cells, Line.cells]
  generalize l.statement = s, l'.statement = s' at statement
  cases statement with
  | none => rfl
  | @some s s' same =>
    have plan := same.plan
    rw [Option.bind_some, Option.bind_some]
    generalize s.plan = r, s'.plan = r' at plan
    cases plan with
    | ok cells => exact cells.length_eq.symm
    | error same => rfl

end Line.Alike

theorem course_alike {lines lines' : List Line} (alike : List.Forall₂ Line.Alike lines lines') (addr : Nat) :
    List.Forall₂ (Placed Line.Alike) (course addr lines) (course addr lines') := by
  induction alike generalizing addr with
  | nil => exact .nil
  | cons same others ih =>
    rw [course, course, same.entry, same.length_cells]
    exact .cons ⟨rfl, same⟩ (ih _)

theorem statement_script_alike {s s' : Statement} (alike : s.Alike s') (base : Nat) :
    List.Forall₂ (Placed Act.Alike) (s.script base) (s'.script base) := by
  have plan := alike.plan
  unfold Statement.script
  generalize s.plan = r, s'.plan = r' at plan
  cases plan with
  | error same => exact .cons ⟨rfl, .refuse same⟩ .nil
  | ok cells =>
    simp only
    induction cells generalizing base with
    | nil => exact .nil
    | cons same others ih => exact .cons ⟨rfl, .fill same⟩ (ih (base + 1))

theorem line_script_alike {l l' : Line} (alike : l.Alike l') (base : Nat) :
    List.Forall₂ (Placed Act.Alike) (l.script base) (l'.script base) := by
  have labels : List.Forall₂ (Placed Act.Alike) (l.labels.map fun t => (base, Act.declare t))
      (l'.labels.map fun t => (base, Act.declare t)) :=
    List.rel_map (fun _ _ same => ⟨rfl, .declare same⟩) alike.labels
  have statement := alike.statement
  unfold Line.script
  generalize l.statement = s, l'.statement = s' at statement
  cases statement with
  | none => exact labels
  | some same =>
    have acts := statement_script_alike same base
    simp only [same.movesLabels]
    split
    · exact List.rel_append acts labels
    · exact List.rel_append labels (.cons ⟨rfl, .record _ _⟩ acts)

theorem script_alike {placed placed' : List (Nat × Line)}
    (alike : List.Forall₂ (Placed Line.Alike) placed placed') :
    List.Forall₂ (Placed Act.Alike) (script placed) (script placed') := by
  refine List.rel_flatMap alike ?_
  rintro ⟨base, l⟩ ⟨base', l'⟩ ⟨here, same⟩
  obtain rfl : base' = base := here
  exact line_script_alike same base'

/-- Drafts that differ in places, in quoted texts and in what is noted of symbols. -/
structure Draft.Alike (d d' : Draft) : Prop where
  memory : d'.memory = d.memory
  size : d'.size = d.size
  addr : d'.addr = d.addr
  full : d'.full = d.full
  labels : d'.labels = d.labels
  fixups : List.Forall₂ (fun f f' => f'.addr = f.addr ∧ f'.name = f.name) d.fixups d'.fixups
  errors : d'.errors.map (·.cause.unquoted) = d.errors.map (·.cause.unquoted)

namespace Draft.Alike

variable {d d' : Draft}

theorem moveTo (alike : d.Alike d') (addr : Nat) : (d.moveTo addr).Alike (d'.moveTo addr) :=
  { alike with addr := rfl }

theorem fail (alike : d.Alike d') {cause cause' : Cause} (same : cause'.unquoted = cause.unquoted)
    (cursor cursor' : Cursor) : (d.fail cursor cause).Alike (d'.fail cursor' cause') :=
  { alike with errors := by simp [Draft.fail, same, alike.errors] }

theorem emit (alike : d.Alike d') (word : UInt16) (cursor cursor' : Cursor) :
    (d.emit word cursor).Alike (d'.emit word cursor') := by
  unfold Draft.emit
  rw [alike.addr, alike.full, alike.memory, alike.size]
  split
  · exact { alike with memory := rfl, size := rfl, addr := rfl, full := rfl }
  · split
    · exact alike
    · exact { alike.fail rfl cursor cursor' with full := rfl }

theorem await (alike : d.Alike d') {addr : Nat} {name name' : Bytes} (same : name' = name)
    {cursor cursor' : Cursor} : (d.await ⟨addr, name, cursor⟩).Alike (d'.await ⟨addr, name', cursor'⟩) :=
  { alike with fixups := .cons ⟨rfl, same⟩ alike.fixups }

theorem fill (alike : d.Alike d') {cell cell' : Cell} (same : cell.Alike cell') :
    (d.fill cell).Alike (d'.fill cell') := by
  obtain ⟨t, filling⟩ := cell
  obtain ⟨t', filling'⟩ := cell'
  obtain rfl : filling' = filling := same.filling
  cases filling' with
  | value read =>
    cases read with
    | ok word => exact alike.emit word _ _
    | error cause => exact (alike.fail rfl _ _).emit 0 _ _
  | label =>
    rw [fill_label, fill_label, alike.addr]
    split
    · exact (alike.await (same.label rfl)).emit 0 _ _
    · exact alike.emit 0 _ _

end Draft.Alike

theorem toLower_trimSuffix (t : Bytes) :
    Bytes.toLower (Bytes.trimSuffix t ":") = Bytes.trimSuffix (Bytes.toLower t) ":" := by
  have all : ∀ n : Fin 256, Bytes.lower (.ofFin n) = Bytes.ascii ':' ↔ UInt8.ofFin n = Bytes.ascii ':' := by
    decide +kernel
  obtain rfl | ⟨front, b, rfl⟩ := t.eq_nil_or_concat
  · rfl
  · have mark : Bytes.lower b = Bytes.ascii ':' ↔ b = Bytes.ascii ':' := all b.toFin
    rw [List.concat_eq_append, trimSuffix_colon, Bytes.toLower, Bytes.toLower, List.map_append, List.map_singleton,
      trimSuffix_colon]
    simp only [mark]
    split
    · rfl
    · simp

theorem labelName_recased {t t' : Token} (same : t.Relabelled t') :
    labelName t' = labelName t ∨ isRegisterName (labelName t) = true ∧ isRegisterName (labelName t') = true := by
  have text := same.same.text
  simp only [recased, caseless, same.label, Bool.or_eq_true, decide_eq_true_eq, Bool.and_eq_true] at text
  obtain text | ⟨register, lower⟩ := text
  · exact .inl (by rw [labelName, labelName, text])
  · refine .inr ⟨register, (register_recased register ?_).1⟩
    rw [labelName, toLower_trimSuffix, toLower_trimSuffix, lower]

namespace Draft.Alike

variable {d d' : Draft}

theorem declare (alike : d.Alike d') {t t' : Token} (same : t.Relabelled t') :
    (d.declare t).Alike (d'.declare t') := by
  have name := labelName_recased same
  unfold Draft.declare
  simp only [labelName] at name
  obtain name | ⟨register, register'⟩ := name
  · simp only [name, alike.labels, alike.addr]
    split
    · exact alike.fail rfl _ _
    · split
      · exact alike.fail rfl _ _
      · split
        · exact alike.fail rfl _ _
        · exact { alike with addr := rfl, labels := rfl }
  · simp only [register, register', if_true]
    exact alike.fail (by rfl) _ _

theorem recordLine (alike : d.Alike d') (start start' : Position) :
    (d.recordLine start).Alike (d'.recordLine start') := by
  unfold Draft.recordLine
  rw [alike.addr]
  split
  · exact { alike with addr := rfl }
  · exact alike

theorem perform (alike : d.Alike d') {entry entry' : Nat × Act} (same : Placed Act.Alike entry entry') :
    (d.perform entry).Alike (d'.perform entry') := by
  obtain ⟨addr, act⟩ := entry
  obtain ⟨addr', act'⟩ := entry'
  obtain ⟨rfl, same⟩ : addr' = addr ∧ act.Alike act' := same
  have moved := alike.moveTo addr'
  unfold Draft.perform
  cases same with
  | refuse same => exact moved.fail same _ _
  | fill same => exact moved.fill same
  | declare same => exact moved.declare same
  | record start start' => exact moved.recordLine start start'

theorem foldl_perform (alike : d.Alike d') {entries entries' : List (Nat × Act)}
    (same : List.Forall₂ (Placed Act.Alike) entries entries') :
    (entries.foldl Draft.perform d).Alike (entries'.foldl Draft.perform d') :=
  List.rel_foldl (fun _ _ alike _ _ same => alike.perform same) alike same

theorem fix (alike : d.Alike d') {f f' : Fixup} (same : f'.addr = f.addr ∧ f'.name = f.name) :
    (d.fix f).Alike (d'.fix f') := by
  unfold Draft.fix
  rw [alike.labels, same.1, same.2, alike.memory]
  split
  · exact { alike with memory := rfl, labels := rfl }
  · exact alike.fail rfl _ _

theorem finish (alike : d.Alike d') : d.finish.Alike d'.finish :=
  List.rel_foldl (fun _ _ alike _ _ same => alike.fix same) alike (List.forall₂_reverse_iff.mpr alike.fixups)

end Draft.Alike

/-- Layout and case do not matter. A source in another style, with other blanks between its tokens, with
other comments or none, with blanks for commas between operands and with directives, mnemonics and names of
registers in another case, assembles to the same words, or to errors of the same kinds in the same order,
whether symbols are asked for or not. -/
theorem assemble_restyled {source source' : Bytes} (restyled : Restyled source source')
    (table table' : Option SymbolTable) :
    (assemble source' table').outcome.mapError (List.map fun e => e.cause.unquoted) =
      (assemble source table).outcome.mapError (List.map fun e => e.cause.unquoted) := by
  have parsed := restyled.parse
  generalize read : parse source = r, read' : parse source' = r' at parsed
  cases parsed with
  | error same =>
    simp only [assemble, read, read']
    exact congrArg (fun cause => Except.error [cause]) same
  | @ok lines lines' same =>
    have start : Draft.Alike { table } { table := table' } := ⟨rfl, rfl, rfl, rfl, rfl, .nil, rfl⟩
    have alike := (start.foldl_perform (script_alike (course_alike same 0))).finish
    rw [assemble_script read, assemble_script read', drafted, drafted]
    generalize (List.foldl Draft.perform { table } _).finish = d,
      (List.foldl Draft.perform { table := table' } _).finish = d' at alike
    have none' : d'.errors.isEmpty = d.errors.isEmpty := by
      have lengths := congrArg List.length alike.errors
      rw [List.length_map, List.length_map] at lengths
      rw [Bool.eq_iff_iff, List.isEmpty_iff_length_eq_zero, List.isEmpty_iff_length_eq_zero, lengths]
    rw [none', alike.memory, alike.size]
    split
    · rfl
    · refine congrArg Except.error ?_
      rw [List.map_reverse, List.map_reverse, alike.errors]

theorem Lexes.of_scan {t : Bytes} {tokens : List Token} (scanned : Token.scan t = .ok tokens) :
    Lexes t (tokens.map Token.lexeme) [] := by
  obtain ⟨lexemes, rest, lexes, rfl | unlexed⟩ := lexes_total t
  · obtain rfl := Except.ok.inj (scanned.symm.trans lexes.scan_eq)
    rwa [map_lexeme_tokensAt]
  · exact absurd (scanned.symm.trans (lexes.scan_stuck unlexed)) (by simp)

def ragged : Bytes :=
  Bytes.ofString "r3: .Word ';', 0x1F ,Lost;it's\n\tADD r1 r2,\t65536 ; \"x"

def terse : List Bytes :=
  ["R3:", " ", ".WORD", "\t", "';'", " ", " ", "0x1F", "\r", " ", "Lost", "", "\n", " ", "add", " ", "R1", " ",
    "r2", " ", "\t\t", "65536", " ", "; none", "\n"].map Bytes.ofString

theorem assemble_restyled_terse :
    Restyled ragged terse.flatten ∧
      (assemble ragged none).outcome.mapError (List.map fun e => e.cause.unquoted) =
        .error [.reservedLabel [], .oversizedLiteral 0x7FFF 65536, .unknownLabel []] ∧
      (assemble terse.flatten (some {})).outcome.mapError (List.map fun e => e.cause.unquoted) =
        .error [.reservedLabel [], .oversizedLiteral 0x7FFF 65536, .unknownLabel []] := by
  obtain ⟨tokens, scanned⟩ : ∃ tokens, Token.scan (closeLast ragged) = .ok tokens :=
    exists_ok_of_toOption (by decide +kernel)
  have style : (Token.scan (closeLast ragged)).toOption.map (fun tokens =>
      restyles .bare (tokens.map Token.lexeme) terse) = some true := by
    decide +kernel
  rw [scanned] at style
  have restyled : Restyled ragged terse.flatten :=
    .intro (Lexes.of_scan scanned) .nil (Option.some.inj style) (by decide +kernel)
  have outcome : (assemble ragged none).outcome.mapError (List.map fun e => e.cause.unquoted) =
      .error [.reservedLabel [], .oversizedLiteral 0x7FFF 65536, .unknownLabel []] := by
    decide +kernel
  exact ⟨restyled, outcome, (assemble_restyled restyled none (some {})).trans outcome⟩

end WordMachine.Assembly
