import WordMachine.Proofs.Assembly.Layout
import WordMachine.Proofs.Success
import Mathlib.Data.List.Forall2

/-! What a draft writes, piece by piece. A sound statement is a list of pieces, each a word or a
reference to a label, and drafting it is placing them one after the other. Anything else leaves
an error, and no later step takes an error back. -/

namespace WordMachine.Assembly

/-- What goes into one cell. -/
inductive Piece where
  | word (value : UInt16) (cursor : Cursor)
  | reference (t : Token)
  deriving DecidableEq, Repr

namespace Piece

/-- What stands in the cell until labels are filled in. -/
def provisional : Piece → UInt16
  | word value _ => value
  | reference _ => 0

def isReference : Piece → Bool
  | word _ _ => false
  | reference _ => true

def word? (labels : List (Bytes × Nat)) : Piece → Option UInt16
  | word value _ => some value
  | reference t => (labels.lookup t.text).map Nat.toUInt16

end Piece

def operandPiece? (limit : Nat) (t : Token) : Option Piece :=
  match operandKind t with
  | .literal => (literalValue limit t.text).toOption.map (.word · (.ofToken t))
  | .character => (characterValue t.text).toOption.map (.word · (.ofToken t))
  | .register => (registerValue t.text).toOption.map (.word · (.ofToken t))
  | .label => some (.reference t)
  | .string | .unknown => none

def rolePiece? (role : Role) (t : Token) : Option Piece :=
  if role = .dest && operandKind t ≠ .register then none else operandPiece? literalLimit t

inductive Statement.Lays (s : Statement) : List Piece → Prop
  | instruction {op : Opcode} {pieces : List Piece} (named : s.head.kind ≠ .directive)
      (known : s.opcode? = some op) (count : s.operands.length = op.arity)
      (operands : List.Forall₂ (fun (entry : Role × Token) p => rolePiece? entry.1 entry.2 = some p)
        (op.roles.zip s.operands) pieces) :
      Lays s (.word op.code (.ofToken s.head) :: pieces)
  | word {pieces : List Piece} (directive : s.head.kind = .directive)
      (named : Directive.ofName? s.head.text = some .word) (some' : s.operands ≠ [])
      (operands : List.Forall₂ (fun t p => operandPiece? rawLimit t = some p) s.operands pieces) :
      Lays s pieces
  | blkw {n : UInt16} (directive : s.head.kind = .directive)
      (named : Directive.ofName? s.head.text = some .blkw) (number : Draft.soleNumber s = .ok n) :
      Lays s ((List.replicate n.toNat 0).map (.word · (.ofToken s.head)))
  | string {chars : List UInt16} (directive : s.head.kind = .directive)
      (named : Directive.ofName? s.head.text = some .string)
      (characters : Draft.soleString s = .ok chars) :
      Lays s (chars.map (.word · (.ofToken s.head)))
  | print {chars : List UInt16} (directive : s.head.kind = .directive)
      (named : Directive.ofName? s.head.text = some .print)
      (characters : Draft.soleString s = .ok chars) :
      Lays s ((chars.flatMap fun c => [Opcode.out.code, c]).map (.word · (.ofToken s.head)))

theorem soleOperand_ok {s : Statement} {kind : OperandKind} {t : Token}
    (sole : Draft.soleOperand s kind = .ok t) : s.operands = [t] ∧ operandKind t = kind := by
  unfold Draft.soleOperand at sole
  split at sole
  · next u only =>
    split at sole
    · next same =>
      obtain rfl := Except.ok.inj sole
      exact ⟨only, same⟩
    · simp at sole
  · simp at sole

theorem soleNumber_ok {s : Statement} {n : UInt16} (number : Draft.soleNumber s = .ok n) :
    s.number = n.toNat := by
  obtain ⟨t, sole, value⟩ := ok_of_bind number
  rw [Statement.number, (soleOperand_ok sole).1]
  simp [ok_of_mapError value, Except.toOption]

theorem soleString_ok {s : Statement} {chars : List UInt16}
    (characters : Draft.soleString s = .ok chars) : s.characters = chars := by
  obtain ⟨t, sole, value⟩ := ok_of_bind characters
  rw [Statement.characters, (soleOperand_ok sole).1]
  simp [ok_of_mapError value, Except.toOption]

theorem word?_of_operandPiece? {limit : Nat} {t : Token} {p : Piece}
    (piece : operandPiece? limit t = some p) (labels : List (Bytes × Nat)) :
    p.word? labels = operandWord? labels limit t := by
  cases kind : operandKind t with
  | literal =>
    simp only [operandPiece?, kind] at piece
    obtain ⟨w, value, rfl⟩ := Option.map_eq_some_iff.mp piece
    simp only [operandWord?, kind, value, Piece.word?]
  | character =>
    simp only [operandPiece?, kind] at piece
    obtain ⟨w, value, rfl⟩ := Option.map_eq_some_iff.mp piece
    simp only [operandWord?, kind, value, Piece.word?]
  | register =>
    simp only [operandPiece?, kind] at piece
    obtain ⟨w, value, rfl⟩ := Option.map_eq_some_iff.mp piece
    simp only [operandWord?, kind, Piece.word?]
    rw [registerValue] at value
    cases read : Location.readRegister t.text with
    | ok r =>
      rw [read] at value
      exact value.symm
    | error e => simp [read, Except.toOption] at value
  | label =>
    simp only [operandPiece?, kind] at piece
    obtain rfl := Option.some.inj piece
    simp only [operandWord?, kind, Piece.word?]
  | string | unknown => simp [operandPiece?, kind] at piece

theorem operandPiece?_of_rolePiece? {role : Role} {t : Token} {p : Piece}
    (piece : rolePiece? role t = some p) :
    operandPiece? literalLimit t = some p ∧ (role = .dest → operandKind t = .register) := by
  unfold rolePiece? at piece
  split at piece
  · simp at piece
  · next sound => exact ⟨piece, by simpa using sound⟩

theorem map_of_forall₂ {α β : Type} {piece? : α → Option Piece} {view : Piece → β} {seen : α → β}
    {list : List α} {pieces : List Piece} (agree : ∀ {a p}, piece? a = some p → view p = seen a)
    (all : List.Forall₂ (fun a p => piece? a = some p) list pieces) :
    pieces.map view = list.map seen := by
  induction all with
  | nil => rfl
  | cons piece _ ih => rw [List.map_cons, List.map_cons, agree piece, ih]

namespace Statement.Lays

variable {s : Statement} {pieces : List Piece}

theorem words_eq (lays : s.Lays pieces) (labels : List (Bytes × Nat)) :
    s.words labels = pieces.map (Piece.word? labels) := by
  cases lays with
  | @instruction op pieces named known count operands =>
    have zipped : (op.roles.zip s.operands).map Prod.snd = s.operands :=
      List.map_snd_zip (Nat.le_of_eq count)
    have all : pieces.map (Piece.word? labels) =
        ((op.roles.zip s.operands).map Prod.snd).map (operandWord? labels literalLimit) := by
      rw [List.map_map]
      exact map_of_forall₂
        (fun piece => word?_of_operandPiece? (operandPiece?_of_rolePiece? piece).1 labels) operands
    rw [words, if_neg named, known, List.map_cons, all, zipped]
    rfl
  | word directive named some' operands =>
    rw [words, if_pos directive, named]
    exact (map_of_forall₂ (fun piece => word?_of_operandPiece? piece labels) operands).symm
  | blkw directive named number =>
    rw [words, if_pos directive, named, soleNumber_ok number, List.map_map, List.map_replicate]
    rfl
  | string directive named characters =>
    rw [words, if_pos directive, named, soleString_ok characters, List.map_map]
    rfl
  | print directive named characters =>
    rw [words, if_pos directive, named, soleString_ok characters, List.map_map, List.map_flatMap]
    rfl

theorem length_eq (lays : s.Lays pieces) : pieces.length = s.size := by
  cases lays with
  | @instruction op pieces named known count operands =>
    have roles := operands.length_eq
    rw [List.length_zip, count, Opcode.arity, Nat.min_self] at roles
    rw [size, if_neg named, known, List.length_cons, ← roles, Nat.add_comm]
    rfl
  | word directive named some' operands =>
    rw [size, if_pos directive, named, operands.length_eq]
  | blkw directive named number =>
    rw [size, if_pos directive, named, soleNumber_ok number, List.length_map, List.length_replicate]
  | string directive named characters =>
    rw [size, if_pos directive, named, soleString_ok characters, List.length_map]
  | print directive named characters =>
    rw [size, if_pos directive, named, soleString_ok characters, List.length_map, List.length_flatMap]
    simp [Nat.mul_comm]

end Statement.Lays

namespace Draft

def place (d : Draft) : Piece → Draft
  | .word value cursor => d.emit value cursor
  | .reference t => d.emitReference t

theorem fail_spoils (d : Draft) (cursor : Cursor) (cause : Cause) : (d.fail cursor cause).errors ≠ [] := by
  simp [fail]

theorem emit_spoiled {d : Draft} (spoiled : d.errors ≠ []) (value : UInt16) (cursor : Cursor) :
    (d.emit value cursor).errors ≠ [] := by
  unfold emit
  split
  · exact spoiled
  · split
    · exact spoiled
    · exact d.fail_spoils cursor .oversizedBinary

theorem emitValue_spoiled {d : Draft} (spoiled : d.errors ≠ []) (value : Except Cause UInt16)
    (cursor : Cursor) : (d.emitValue value cursor).errors ≠ [] := by
  unfold emitValue
  split
  · exact emit_spoiled spoiled _ cursor
  · exact emit_spoiled (d.fail_spoils cursor _) 0 cursor

theorem emitValue_error (d : Draft) (cause : Cause) (cursor : Cursor) :
    (d.emitValue (.error cause) cursor).errors ≠ [] :=
  emit_spoiled (d.fail_spoils cursor cause) 0 cursor

theorem emitReference_spoiled {d : Draft} (spoiled : d.errors ≠ []) (t : Token) :
    (d.emitReference t).errors ≠ [] := by
  simp only [emitReference]
  split
  · refine emit_spoiled ?_ 0 _
    exact spoiled
  · exact emit_spoiled spoiled 0 _

theorem place_spoiled {d : Draft} (spoiled : d.errors ≠ []) (p : Piece) : (d.place p).errors ≠ [] := by
  cases p with
  | word value cursor => exact emit_spoiled spoiled value cursor
  | reference t => exact emitReference_spoiled spoiled t

theorem emitOperand_spoiled {d : Draft} (spoiled : d.errors ≠ []) (limit : Nat) (t : Token) :
    (d.emitOperand limit t).errors ≠ [] := by
  simp only [emitOperand]
  split
  · exact emitValue_spoiled spoiled _ _
  · exact emitValue_spoiled spoiled _ _
  · exact emitValue_spoiled spoiled _ _
  · exact emitReference_spoiled spoiled t
  · exact emitValue_spoiled spoiled _ _

theorem emitInRole_spoiled {d : Draft} (spoiled : d.errors ≠ []) (role : Role) (t : Token) :
    (d.emitInRole role t).errors ≠ [] := by
  simp only [emitInRole]
  split
  · exact emitValue_spoiled spoiled _ _
  · exact emitOperand_spoiled spoiled _ t

theorem emitValue_cases (value : Except Cause UInt16) (cursor : Cursor) :
    (∃ w, value.toOption = some w ∧ ∀ d : Draft, d.emitValue value cursor = d.place (.word w cursor)) ∨
      value.toOption = none ∧ ∀ d : Draft, (d.emitValue value cursor).errors ≠ [] := by
  cases value with
  | ok w => exact .inl ⟨w, rfl, fun d => rfl⟩
  | error cause => exact .inr ⟨rfl, fun d => d.emitValue_error cause cursor⟩

theorem emitOperand_cases (limit : Nat) (t : Token) :
    (∃ p, operandPiece? limit t = some p ∧ ∀ d : Draft, d.emitOperand limit t = d.place p) ∨
      operandPiece? limit t = none ∧ ∀ d : Draft, (d.emitOperand limit t).errors ≠ [] := by
  have valued : ∀ value : Except Cause UInt16,
      operandPiece? limit t = value.toOption.map (.word · (.ofToken t)) →
      (∀ d : Draft, d.emitOperand limit t = d.emitValue value (.ofToken t)) →
      (∃ p, operandPiece? limit t = some p ∧ ∀ d : Draft, d.emitOperand limit t = d.place p) ∨
        operandPiece? limit t = none ∧ ∀ d : Draft, (d.emitOperand limit t).errors ≠ [] := by
    intro value piece drafted
    obtain ⟨w, sound, placed⟩ | ⟨unsound, spoils⟩ := emitValue_cases value (.ofToken t)
    · exact .inl ⟨.word w (.ofToken t), by rw [piece, sound]; rfl, fun d => (drafted d).trans (placed d)⟩
    · exact .inr ⟨by rw [piece, unsound]; rfl, fun d => drafted d ▸ spoils d⟩
  cases kind : operandKind t with
  | literal => exact valued (literalValue limit t.text) (by simp [operandPiece?, kind]) (by simp [emitOperand, kind])
  | character => exact valued (characterValue t.text) (by simp [operandPiece?, kind]) (by simp [emitOperand, kind])
  | register => exact valued (registerValue t.text) (by simp [operandPiece?, kind]) (by simp [emitOperand, kind])
  | label =>
    refine .inl ⟨.reference t, by simp [operandPiece?, kind], fun d => ?_⟩
    simp [emitOperand, kind, place]
  | string | unknown =>
    refine .inr ⟨by simp [operandPiece?, kind], fun d => ?_⟩
    simp only [emitOperand, kind]
    exact d.emitValue_error _ _

theorem emitInRole_cases (role : Role) (t : Token) :
    (∃ p, rolePiece? role t = some p ∧ ∀ d : Draft, d.emitInRole role t = d.place p) ∨
      rolePiece? role t = none ∧ ∀ d : Draft, (d.emitInRole role t).errors ≠ [] := by
  simp only [rolePiece?, emitInRole]
  split
  · exact .inr ⟨rfl, fun d => d.emitValue_error _ _⟩
  · exact emitOperand_cases literalLimit t

section Folds

variable {α : Type} {draft : Draft → α → Draft} {piece? : α → Option Piece}

theorem foldl_placed
    (cases' : ∀ a, (∃ p, piece? a = some p ∧ ∀ d, draft d a = d.place p) ∨
      piece? a = none ∧ ∀ d, (draft d a).errors ≠ [])
    {list : List α} {pieces : List Piece} (all : List.Forall₂ (fun a p => piece? a = some p) list pieces)
    (d : Draft) : list.foldl draft d = pieces.foldl place d := by
  induction all generalizing d with
  | nil => rfl
  | @cons a p _ _ piece _ ih =>
    obtain ⟨q, same, placed⟩ | ⟨missing, -⟩ := cases' a
    · obtain rfl : p = q := Option.some.inj (piece.symm.trans same)
      rw [List.foldl_cons, List.foldl_cons, placed, ih]
    · simp [missing] at piece

theorem foldl_cases (spoiled : ∀ {d : Draft}, d.errors ≠ [] → ∀ a, (draft d a).errors ≠ [])
    (cases' : ∀ a, (∃ p, piece? a = some p ∧ ∀ d, draft d a = d.place p) ∨
      piece? a = none ∧ ∀ d, (draft d a).errors ≠ [])
    (list : List α) :
    (∃ pieces, List.Forall₂ (fun a p => piece? a = some p) list pieces) ∨
      ∀ d, (list.foldl draft d).errors ≠ [] := by
  have stays : ∀ (list : List α) (d : Draft), d.errors ≠ [] → (list.foldl draft d).errors ≠ [] := by
    intro list
    induction list with
    | nil => exact fun d bad => bad
    | cons a more ih => exact fun d bad => ih _ (spoiled bad a)
  induction list with
  | nil => exact .inl ⟨[], .nil⟩
  | cons a more ih =>
    obtain ⟨p, piece, -⟩ | ⟨-, spoils⟩ := cases' a
    · obtain ⟨pieces, all⟩ | spoils := ih
      · exact .inl ⟨p :: pieces, .cons piece all⟩
      · exact .inr fun d => spoils _
    · exact .inr fun d => stays more _ (spoils d)

end Folds

theorem emitAll_eq (d : Draft) (words : List UInt16) (cursor : Cursor) :
    d.emitAll words cursor = (words.map (.word · cursor)).foldl place d := by
  rw [emitAll, List.foldl_map]
  rfl

theorem movesLabels_of_name {s : Statement} {name : Directive}
    (named : Directive.ofName? s.head.text = some name) (other : name ≠ .orig) : movesLabels s = false := by
  simp [movesLabels, named, other]

theorem statement_eq {s : Statement} {pieces : List Piece} (lays : s.Lays pieces) :
    movesLabels s = false ∧ ∀ d : Draft, d.statement s = pieces.foldl place d := by
  cases lays with
  | @instruction op pieces named known count operands =>
    refine ⟨by simp [movesLabels, named], fun d => ?_⟩
    have looked : Opcode.ofMnemonic? (Bytes.toLower s.head.text) = some op := known
    simp only [statement, if_neg named, instruction, looked, count, ne_eq, not_true_eq_false, if_false]
    exact foldl_placed (fun entry : Role × Token => emitInRole_cases entry.1 entry.2) operands _
  | word directive named some' operands =>
    refine ⟨movesLabels_of_name named (by decide), fun d => ?_⟩
    have filled : s.operands.isEmpty = false := by simpa using some'
    simp only [statement, if_pos directive, Draft.directive, named, filled, Bool.false_eq_true, if_false]
    exact foldl_placed (emitOperand_cases rawLimit) operands d
  | blkw directive named number =>
    refine ⟨movesLabels_of_name named (by decide), fun d => ?_⟩
    simp only [statement, if_pos directive, Draft.directive, named, number, emitAll_eq]
  | string directive named characters =>
    refine ⟨movesLabels_of_name named (by decide), fun d => ?_⟩
    simp only [statement, if_pos directive, Draft.directive, named, characters, emitAll_eq]
  | print directive named characters =>
    refine ⟨movesLabels_of_name named (by decide), fun d => ?_⟩
    simp only [statement, if_pos directive, Draft.directive, named, characters, emitAll_eq]

theorem directive_cases {s : Statement} (kind : s.head.kind = .directive)
    (stays : movesLabels s = false) :
    (∃ pieces, s.Lays pieces) ∨ ∀ d : Draft, (d.directive s).errors ≠ [] := by
  simp only [directive]
  cases named : Directive.ofName? s.head.text with
  | none => exact .inr fun d => d.fail_spoils _ _
  | some name =>
    cases name with
    | orig => simp [movesLabels, kind, named] at stays
    | word =>
      by_cases empty : s.operands = []
      · exact .inr fun d => by simpa [empty] using d.fail_spoils _ _
      · have some' : s.operands.isEmpty = false := by simpa using empty
        simp only [some', Bool.false_eq_true, if_false]
        obtain ⟨pieces, operands⟩ | spoils := foldl_cases
          (fun spoiled => emitOperand_spoiled spoiled rawLimit) (emitOperand_cases rawLimit) s.operands
        · exact .inl ⟨pieces, .word kind named empty operands⟩
        · exact .inr spoils
    | blkw =>
      cases number : soleNumber s with
      | error e => exact .inr fun d => d.fail_spoils _ _
      | ok n => exact .inl ⟨_, .blkw kind named number⟩
    | string =>
      cases characters : soleString s with
      | error e => exact .inr fun d => d.fail_spoils _ _
      | ok chars => exact .inl ⟨_, .string kind named characters⟩
    | print =>
      cases characters : soleString s with
      | error e => exact .inr fun d => d.fail_spoils _ _
      | ok chars => exact .inl ⟨_, .print kind named characters⟩

theorem instruction_cases {s : Statement} (named : s.head.kind ≠ .directive) :
    (∃ pieces, s.Lays pieces) ∨ ∀ d : Draft, (d.instruction s).errors ≠ [] := by
  simp only [instruction]
  cases known : s.opcode? with
  | none =>
    rw [Statement.opcode?] at known
    exact .inr fun d => by simpa only [known] using d.fail_spoils _ _
  | some op =>
    have looked : Opcode.ofMnemonic? (Bytes.toLower s.head.text) = some op := known
    simp only [looked]
    by_cases count : s.operands.length = op.arity
    · simp only [count, ne_eq, not_true_eq_false, if_false]
      obtain ⟨pieces, operands⟩ | spoils := foldl_cases
        (fun spoiled entry => emitInRole_spoiled spoiled entry.1 entry.2)
        (fun entry : Role × Token => emitInRole_cases entry.1 entry.2) (op.roles.zip s.operands)
      · exact .inl ⟨_, .instruction named known count operands⟩
      · exact .inr fun d => spoils _
    · simp only [ne_eq, count, not_false_eq_true, if_true]
      exact .inr fun d => d.fail_spoils _ _

/-- A statement other than `.orig` has pieces, or leaves an error. -/
theorem statement_cases {s : Statement} (stays : movesLabels s = false) :
    (∃ pieces, s.Lays pieces) ∨ ∀ d : Draft, (d.statement s).errors ≠ [] := by
  by_cases kind : s.head.kind = .directive
  · simpa only [statement, if_pos kind] using directive_cases kind stays
  · simpa only [statement, if_neg kind] using instruction_cases kind

end Draft

end WordMachine.Assembly
