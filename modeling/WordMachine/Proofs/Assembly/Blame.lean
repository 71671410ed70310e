import WordMachine.Proofs.Assembly.Cursors

/-! What errors are about. Each error of a draft comes of one act, in the light of the acts before it, and
each act is done for one token; so every error that is none of syntax concerns a token of the source, and
its cursor marks the text of that token. References are judged when all of the labels are known. -/

namespace WordMachine.Assembly

open Text

/-- Names that are declared with success: one that is not reserved, by its first declaration that has an
address. -/
def Known (declared : List (Nat × Token)) (name : Bytes) : Prop :=
  isRegisterName name = false ∧ ∃ e ∈ declared, labelName e.2 = name ∧ e.1 < memorySize

inductive Token.Unreadable (t : Token) : Cause → Prop
  | literal {limit : Nat} {cause : Cause} (kind : operandKind t = .literal)
      (refused : literalValue limit t.text = .error cause) : Unreadable t cause
  | character {cause : Cause} (kind : operandKind t = .character)
      (refused : characterValue t.text = .error cause) : Unreadable t cause
  | string {cause : Cause} (kind : operandKind t = .string)
      (refused : stringValue t.text = .error cause) : Unreadable t cause
  | register {cause : Cause} (kind : operandKind t = .register)
      (refused : registerValue t.text = .error cause) : Unreadable t cause

theorem Token.Unreadable.cause {t : Token} {cause : Cause} (unreadable : t.Unreadable cause) :
    cause = .invalidLiteral ∨ cause = .invalidString ∨ cause = .invalidRegister ∨
      ∃ limit received, cause = .oversizedLiteral limit received := by
  cases unreadable with
  | literal kind refused =>
    simp only [literalValue] at refused
    split at refused
    · split at refused
      · exact .inr (.inr (.inr ⟨_, _, (Except.error.inj refused).symm⟩))
      · simp at refused
    · exact .inr (.inr (.inr ⟨_, _, (Except.error.inj refused).symm⟩))
    · exact .inl (Except.error.inj refused).symm
  | character kind refused =>
    simp only [characterValue] at refused
    split at refused
    · split at refused
      · exact .inr (.inr (.inr ⟨_, _, (Except.error.inj refused).symm⟩))
      · simp at refused
    · exact .inl (Except.error.inj refused).symm
  | string kind refused =>
    simp only [stringValue] at refused
    split at refused
    · exact .inr (.inl (Except.error.inj refused).symm)
    · split at refused
      · exact .inr (.inl (Except.error.inj refused).symm)
      · simp at refused
  | register kind refused =>
    simp only [registerValue] at refused
    split at refused
    · simp at refused
    · exact .inr (.inr (.inl (Except.error.inj refused).symm))

namespace Statement

/-- How many operands a statement asks for; a directive takes one, or one at least. -/
def asks (s : Statement) : Nat :=
  if s.head.kind = .directive then 1 else (s.opcode?.map Opcode.arity).getD 0

/-- What is wrong with a statement by itself, and with which of its tokens. -/
inductive Faulty (s : Statement) : Cause → Token → Prop
  | identifier (unknown : if s.head.kind = .directive then Directive.ofName? s.head.text = none
      else s.opcode? = none) : Faulty s (.unknownIdentifier s.head.text) s.head
  | count (other : s.operands.length ≠ s.asks) :
      Faulty s (.argumentCount s.asks s.operands.length) s.head
  | kind {required : List OperandKind} {t : Token} (operand : t ∈ s.operands)
      (other : operandKind t ∉ required) : Faulty s (.invalidOperand required (operandKind t)) t
  | value {cause : Cause} {t : Token} (operand : t ∈ s.operands) (refused : t.Unreadable cause) :
      Faulty s cause t

variable {s : Statement}

theorem Faulty.mem {cause : Cause} {t : Token} (faulty : s.Faulty cause t) : t ∈ s.head :: s.operands := by
  cases faulty with
  | identifier | count => exact List.mem_cons_self
  | kind operand | value operand => exact List.mem_cons_of_mem _ operand

theorem operandFilling_faulty {limit : Nat} {t : Token} {cause : Cause} (operand : t ∈ s.operands)
    (filling : operandFilling limit t = .value (.error cause)) : s.Faulty cause t := by
  unfold operandFilling at filling
  split at filling
  · next kind => exact .value operand (.literal kind (Filling.value.inj filling))
  · next kind => exact .value operand (.character kind (Filling.value.inj filling))
  · next kind => exact .value operand (.register kind (Filling.value.inj filling))
  · simp at filling
  · next other literal character register label =>
    obtain rfl := Except.error.inj (Filling.value.inj filling)
    refine .kind operand ?_
    simp only [List.mem_cons, List.not_mem_nil, or_false, not_or]
    exact ⟨register, literal, character, label⟩

theorem operandFilling_label {limit : Nat} {t : Token} (filling : operandFilling limit t = .label) :
    operandKind t = .label := by
  unfold operandFilling at filling
  split at filling <;> simp_all

theorem roleFilling_faulty {role : Role} {t : Token} {cause : Cause} (operand : t ∈ s.operands)
    (filling : roleFilling role t = .value (.error cause)) : s.Faulty cause t := by
  unfold roleFilling at filling
  split at filling
  · next other =>
    obtain rfl := Except.error.inj (Filling.value.inj filling)
    exact .kind operand (by simp at other; simp [other])
  · exact operandFilling_faulty operand filling

theorem roleFilling_label {role : Role} {t : Token} (filling : roleFilling role t = .label) :
    operandKind t = .label := by
  unfold roleFilling at filling
  split at filling
  · simp at filling
  · exact operandFilling_label filling

theorem sole_faulty {α : Type} {kind : OperandKind} {read : Bytes → Except Cause α} {t : Token} {cause : Cause}
    (directive : s.head.kind = .directive)
    (unreadable : ∀ {t cause}, operandKind t = kind → read t.text = .error cause → t.Unreadable cause)
    (refused : s.sole kind read = .error (t, cause)) : s.Faulty cause t := by
  have asks : s.asks = 1 := if_pos directive
  unfold sole at refused
  split at refused
  · next u only =>
    have operand : u ∈ s.operands := by simp [only]
    split at refused
    · next same =>
      cases value : read u.text with
      | ok a => simp [value, Except.mapError] at refused
      | error c =>
        rw [value] at refused
        obtain ⟨rfl, rfl⟩ := Prod.mk.inj (Except.error.inj refused)
        exact .value operand (unreadable same value)
    · next other =>
      obtain ⟨rfl, rfl⟩ := Prod.mk.inj (Except.error.inj refused)
      exact .kind operand (by simpa using other)
  · next others =>
    obtain ⟨rfl, rfl⟩ := Prod.mk.inj (Except.error.inj refused)
    rw [← asks]
    refine .count ?_
    rw [asks]
    intro one
    obtain ⟨u, only⟩ := List.length_eq_one_iff.mp one
    exact others u only

theorem plan_faulty {t : Token} {cause : Cause} (refused : s.plan = .error (t, cause)) : s.Faulty cause t := by
  have number : ∀ {t cause}, operandKind t = .literal → literalValue literalLimit t.text = .error cause →
      t.Unreadable cause := fun kind refused => .literal kind refused
  have string : ∀ {t cause}, operandKind t = .string → stringValue t.text = .error cause →
      t.Unreadable cause := fun kind refused => .string kind refused
  by_cases directive : s.head.kind = .directive
  · simp only [plan, directive, if_true] at refused
    split at refused
    · next unknown =>
      obtain ⟨rfl, rfl⟩ := Prod.mk.inj (Except.error.inj refused)
      exact .identifier (by rw [if_pos directive]; exact unknown)
    · exact sole_faulty directive number (error_of_map refused)
    · exact sole_faulty directive number (error_of_map refused)
    · split at refused
      · next empty =>
        have length : s.operands.length = 0 := by simpa using empty
        have asks : s.asks = 1 := if_pos directive
        obtain ⟨rfl, rfl⟩ := Prod.mk.inj (Except.error.inj refused)
        have missing : s.Faulty (.argumentCount s.asks s.operands.length) s.head := .count (by omega)
        rwa [asks, length] at missing
      · simp at refused
    · exact sole_faulty directive string (error_of_map refused)
    · exact sole_faulty directive string (error_of_map refused)
  · simp only [plan, directive, if_false] at refused
    split at refused
    · next unknown =>
      obtain ⟨rfl, rfl⟩ := Prod.mk.inj (Except.error.inj refused)
      exact .identifier (by rw [if_neg directive]; exact unknown)
    · next op known =>
      have asks : s.asks = op.arity := by simp [Statement.asks, directive, known]
      split at refused
      · next other =>
        obtain ⟨rfl, rfl⟩ := Prod.mk.inj (Except.error.inj refused)
        rw [← asks]
        exact .count (asks ▸ other)
      · simp at refused

/-- What a cell has to do with a statement: a value that is refused is the fault of its holder, and what
awaits a label is an identifier. -/
structure Owns (s : Statement) (cell : Cell) : Prop where
  holder : cell.holder ∈ s.head :: s.operands
  faulty : ∀ cause, cell.filling = .value (.error cause) → s.Faulty cause cell.holder
  label : cell.filling = .label → cell.holder ∈ s.operands ∧ operandKind cell.holder = .label

theorem owns_words {words : List UInt16} {cell : Cell}
    (mem : cell ∈ words.map (fun w => (⟨s.head, .value (.ok w)⟩ : Cell))) : s.Owns cell := by
  obtain ⟨w, -, rfl⟩ := List.mem_map.mp mem
  exact ⟨List.mem_cons_self, fun cause refused => by simp at refused, fun label => Filling.noConfusion label⟩

theorem owns_operand {t : Token} (operand : t ∈ s.operands) (limit : Nat) :
    s.Owns ⟨t, operandFilling limit t⟩ :=
  ⟨List.mem_cons_of_mem _ operand, fun _ => operandFilling_faulty operand,
    fun label => ⟨operand, operandFilling_label label⟩⟩

theorem owns_role {t : Token} (operand : t ∈ s.operands) (role : Role) : s.Owns ⟨t, roleFilling role t⟩ :=
  ⟨List.mem_cons_of_mem _ operand, fun _ => roleFilling_faulty operand,
    fun label => ⟨operand, roleFilling_label label⟩⟩

theorem plan_owns {cells : List Cell} (planned : s.plan = .ok cells) {cell : Cell} (mem : cell ∈ cells) :
    s.Owns cell := by
  simp only [plan] at planned
  split at planned
  · split at planned
    · simp at planned
    · obtain ⟨w, -, rfl⟩ := ok_of_map planned
      simp at mem
    · obtain ⟨w, -, rfl⟩ := ok_of_map planned
      exact owns_words mem
    · split at planned
      · simp at planned
      · obtain rfl := Except.ok.inj planned
        obtain ⟨t, operand, rfl⟩ := List.mem_map.mp mem
        exact owns_operand operand rawLimit
    · obtain ⟨w, -, rfl⟩ := ok_of_map planned
      exact owns_words mem
    · obtain ⟨w, -, rfl⟩ := ok_of_map planned
      exact owns_words mem
  · split at planned
    · simp at planned
    · split at planned
      · simp at planned
      · obtain rfl := Except.ok.inj planned
        obtain named | others := List.mem_append.mp mem
        · exact owns_words named
        · obtain ⟨e, zipped, rfl⟩ := List.mem_map.mp others
          exact owns_role (List.of_mem_zip zipped).2 e.1

end Statement

/-- The error that an act leaves, after the acts in front of it. -/
inductive Fault (front : List (Nat × Act)) : Nat × Act → Error → Prop
  | refused {addr : Nat} {t : Token} {cause : Cause} : Fault front (addr, .refuse t cause) ⟨.ofToken t, cause⟩
  | value {addr : Nat} {t : Token} {cause : Cause} :
      Fault front (addr, .fill ⟨t, .value (.error cause)⟩) ⟨.ofToken t, cause⟩
  | cell {addr : Nat} {cell : Cell} (outside : memorySize ≤ addr) :
      Fault front (addr, .fill cell) ⟨.ofToken cell.holder, .oversizedBinary⟩
  | reserved {addr : Nat} {t : Token} (register : isRegisterName (labelName t) = true) :
      Fault front (addr, .declare t) ⟨.of t.position (labelName t).length, .reservedLabel (labelName t)⟩
  | redeclared {addr : Nat} {t : Token} (known : Known (front.filterMap Act.declared?) (labelName t)) :
      Fault front (addr, .declare t) ⟨.of t.position (labelName t).length, .redeclaredLabel (labelName t)⟩
  | label {addr : Nat} {t : Token} (outside : memorySize ≤ addr) :
      Fault front (addr, .declare t) ⟨.of t.position (labelName t).length, .oversizedBinary⟩

def awaited? : Nat × Act → Option Fixup
  | (addr, .fill ⟨t, .label⟩) => if addr < memorySize then some ⟨addr, t.text, .ofToken t⟩ else none
  | _ => none

theorem known_concat {declared : List (Nat × Token)} {e : Nat × Token} {name : Bytes} :
    Known (declared ++ [e]) name ↔
      Known declared name ∨ isRegisterName name = false ∧ labelName e.2 = name ∧ e.1 < memorySize := by
  simp only [Known, List.mem_append, List.mem_singleton, or_and_right, exists_or, exists_eq_left, and_or_left]

namespace Draft

structure Recounts (d : Draft) (entries : List (Nat × Act)) : Prop where
  labels : ∀ name, (d.labels.lookup name).isSome ↔ Known (entries.filterMap Act.declared?) name
  fixups : d.fixups.reverse = entries.filterMap awaited?
  errors : ∀ e ∈ d.errors, ∃ front x back, entries = front ++ x :: back ∧ Fault front x e

theorem emit_fixups (d : Draft) (word : UInt16) (cursor : Cursor) :
    (d.emit word cursor).fixups = d.fixups ∧ ∀ e ∈ (d.emit word cursor).errors,
      e ∈ d.errors ∨ memorySize ≤ d.addr ∧ e = ⟨cursor, .oversizedBinary⟩ := by
  unfold emit
  split
  · exact ⟨rfl, fun e mem => .inl mem⟩
  · next outside =>
    split
    · exact ⟨rfl, fun e mem => .inl mem⟩
    · refine ⟨rfl, fun e mem => ?_⟩
      obtain rfl | before := List.mem_cons.mp mem
      · exact .inr ⟨Nat.le_of_not_lt outside, rfl⟩
      · exact .inl before

theorem fill_fixups (d : Draft) (front : List (Nat × Act)) (cell : Cell) :
    (d.fill cell).fixups.reverse = d.fixups.reverse ++ (awaited? (d.addr, .fill cell)).toList ∧
      ∀ e ∈ (d.fill cell).errors, e ∈ d.errors ∨ Fault front (d.addr, .fill cell) e := by
  obtain ⟨t, filling⟩ := cell
  have overflow : ∀ e, memorySize ≤ d.addr ∧ e = ⟨.ofToken t, .oversizedBinary⟩ →
      Fault front (d.addr, .fill ⟨t, filling⟩) e := by
    rintro e ⟨outside, rfl⟩
    exact .cell outside
  cases filling with
  | value read =>
    cases read with
    | ok w =>
      obtain ⟨fixups, errors⟩ := emit_fixups d w (.ofToken t)
      have filled : d.fill ⟨t, .value (.ok w)⟩ = d.emit w (.ofToken t) := rfl
      rw [filled]
      exact ⟨by rw [fixups]; simp [awaited?], fun e mem => (errors e mem).imp_right (overflow e)⟩
    | error cause =>
      obtain ⟨fixups, errors⟩ := emit_fixups (d.fail (.ofToken t) cause) 0 (.ofToken t)
      have filled : d.fill ⟨t, .value (.error cause)⟩ = (d.fail (.ofToken t) cause).emit 0 (.ofToken t) := rfl
      rw [filled]
      refine ⟨by rw [fixups]; simp [awaited?, fail], fun e mem => ?_⟩
      obtain before | full := errors e mem
      · obtain rfl | before := List.mem_cons.mp before
        · exact .inr .value
        · exact .inl before
      · exact .inr (overflow e full)
  | label =>
    by_cases inside : d.addr < memorySize
    · obtain ⟨fixups, errors⟩ := emit_fixups (d.await ⟨d.addr, t.text, .ofToken t⟩) 0 (.ofToken t)
      rw [fill_label, if_pos inside]
      exact ⟨by rw [fixups]; simp [awaited?, await, inside], fun e mem => (errors e mem).imp_right (overflow e)⟩
    · obtain ⟨fixups, errors⟩ := emit_fixups d 0 (.ofToken t)
      rw [fill_label, if_neg inside]
      exact ⟨by rw [fixups]; simp [awaited?, inside], fun e mem => (errors e mem).imp_right (overflow e)⟩

theorem Recounts.step {d d' : Draft} {entries : List (Nat × Act)} (recounts : d.Recounts entries)
    {x : Nat × Act}
    (labels : ∀ name, (d'.labels.lookup name).isSome ↔ Known ((entries ++ [x]).filterMap Act.declared?) name)
    (fixups : d'.fixups.reverse = d.fixups.reverse ++ (awaited? x).toList)
    (errors : ∀ e ∈ d'.errors, e ∈ d.errors ∨ Fault entries x e) : d'.Recounts (entries ++ [x]) := by
  refine ⟨labels, ?_, fun e mem => ?_⟩
  · rw [fixups, recounts.fixups, List.filterMap_append]
    cases awaited : awaited? x <;> simp [awaited]
  · obtain before | now := errors e mem
    · obtain ⟨front, y, back, rfl, fault⟩ := recounts.errors e before
      exact ⟨front, y, back ++ [x], by simp, fault⟩
    · exact ⟨entries, x, [], rfl, now⟩

theorem filterMap_declared_concat {entries : List (Nat × Act)} {x : Nat × Act} (other : Act.declared? x = none) :
    (entries ++ [x]).filterMap Act.declared? = entries.filterMap Act.declared? := by
  simp [List.filterMap_append, other]

theorem declare_recounts {d : Draft} {entries : List (Nat × Act)} (recounts : d.Recounts entries) (t : Token) :
    (d.declare t).Recounts (entries ++ [(d.addr, .declare t)]) := by
  have declared : (entries ++ [(d.addr, Act.declare t)]).filterMap Act.declared? =
      entries.filterMap Act.declared? ++ [(d.addr, t)] := by
    rw [List.filterMap_append]
    rfl
  have refused : ∀ cause, Fault entries (d.addr, .declare t) ⟨.of t.position (labelName t).length, cause⟩ →
      (isRegisterName (labelName t) = false → d.addr < memorySize →
        Known (entries.filterMap Act.declared?) (labelName t)) →
      (d.fail (.of t.position (labelName t).length) cause).Recounts (entries ++ [(d.addr, .declare t)]) := by
    intro cause fault known
    refine recounts.step (fun name => ?_) (List.append_nil _).symm fun e mem => ?_
    · rw [declared, known_concat]
      refine (recounts.labels name).trans ⟨.inl, ?_⟩
      rintro (before | ⟨free, rfl, inside⟩)
      · exact before
      · exact known free inside
    · obtain rfl | before := List.mem_cons.mp mem
      · exact .inr fault
      · exact .inl before
  simp only [declare]
  split
  · next register =>
    exact refused _ (.reserved register) fun free => absurd register (by simp [labelName] at free; simp [free])
  · next free =>
    split
    · next found =>
      have known := (recounts.labels (labelName t)).mp found
      exact refused _ (.redeclared known) fun _ _ => known
    · next missing =>
      split
      · next outside => exact refused _ (.label outside) fun _ inside => absurd inside (Nat.not_lt.mpr outside)
      · next inside =>
        refine recounts.step (fun name => ?_) (List.append_nil _).symm fun e mem => .inl mem
        rw [declared, known_concat, ← recounts.labels, List.lookup_cons]
        by_cases same : name = labelName t
        · have free' : isRegisterName (labelName t) = false := by simpa [labelName] using free
          have inside' : d.addr < memorySize := Nat.lt_of_not_le inside
          simp only [same, free', inside', and_self, or_true, iff_true]
          have self : (labelName t == Bytes.trimSuffix t.text ":") = true := beq_self_eq_true _
          rw [self]
          rfl
        · have other : (name == Bytes.trimSuffix t.text ":") = false := beq_false_of_ne same
          simp [other, Ne.symm same]

theorem perform_recounts {d : Draft} {entries : List (Nat × Act)} (recounts : d.Recounts entries)
    (x : Nat × Act) : (d.perform x).Recounts (entries ++ [x]) := by
  obtain ⟨addr, act⟩ := x
  have moved : (d.moveTo addr).Recounts entries := ⟨recounts.labels, recounts.fixups, recounts.errors⟩
  cases act with
  | refuse t cause =>
    refine moved.step (fun name => ?_) (List.append_nil _).symm fun e mem => ?_
    · rw [filterMap_declared_concat rfl]
      exact recounts.labels name
    · obtain rfl | before := List.mem_cons.mp mem
      · exact .inr .refused
      · exact .inl before
  | fill cell =>
    obtain ⟨fixups, errors⟩ := fill_fixups (d.moveTo addr) entries cell
    refine moved.step (fun name => ?_) fixups errors
    rw [filterMap_declared_concat rfl, perform, act, (fill_keeps _ cell).2]
    exact recounts.labels name
  | declare t => exact declare_recounts moved t
  | record start =>
    have kept : (d.perform (addr, .record start)).labels = d.labels ∧
        (d.perform (addr, .record start)).fixups = d.fixups ∧
        (d.perform (addr, .record start)).errors = d.errors := by
      simp only [perform, act, recordLine]
      split <;> exact ⟨rfl, rfl, rfl⟩
    obtain ⟨labels, fixups, errors⟩ := kept
    refine moved.step (fun name => ?_) ?_ fun e mem => .inl (errors ▸ mem)
    · rw [filterMap_declared_concat rfl, labels]
      exact recounts.labels name
    · rw [fixups]
      exact (List.append_nil _).symm

theorem drafted_recounts (table : Option SymbolTable) (entries : List (Nat × Act)) :
    (drafted table entries).Recounts entries := by
  induction entries using List.reverseRecOn with
  | nil => exact ⟨by simp [drafted, Known], rfl, by simp [drafted]⟩
  | append_singleton entries x ih =>
    rw [drafted_concat]
    exact perform_recounts ih x

theorem mem_finish_errors {d : Draft} {e : Error} :
    e ∈ d.finish.errors ↔ e ∈ d.errors ∨
      ∃ f ∈ d.fixups, d.labels.lookup f.name = none ∧ e = ⟨f.cursor, .unknownLabel f.name⟩ := by
  have folded : ∀ fixups : List Fixup,
      (fixups.foldr (fun f e => fix e f) d).labels = d.labels ∧
        (e ∈ (fixups.foldr (fun f e => fix e f) d).errors ↔ e ∈ d.errors ∨
          ∃ f ∈ fixups, d.labels.lookup f.name = none ∧ e = ⟨f.cursor, .unknownLabel f.name⟩) := by
    intro fixups
    induction fixups with
    | nil => simp
    | cons f fixups ih =>
      obtain ⟨labels, errors⟩ := ih
      rw [List.foldr_cons]
      generalize fixups.foldr (fun f e => fix e f) d = d' at labels errors
      rw [List.exists_mem_cons_iff]
      cases known : d.labels.lookup f.name with
      | some addr =>
        simp only [fix, labels, known, errors, reduceCtorEq, false_and, false_or, and_self]
      | none =>
        simp only [fix, labels, known, fail, errors, List.mem_cons, true_and]
        exact or_left_comm
  rw [finish_eq_foldr]
  exact (folded d.fixups).2

end Draft

/-- What an error is about: a token of a line, and that token's text or, of a label, its name. -/
inductive Concerns (lines : List Line) : Cause → Token → Bytes → Prop
  | statement {l : Line} {s : Statement} {cause : Cause} {t : Token} (listed : l ∈ lines)
      (stated : l.statement = some s) (faulty : s.Faulty cause t) : Concerns lines cause t t.text
  | cell {k : Nat} {cell : Cell} (listed : (k, cell) ∈ cellsOf (course 0 lines)) (outside : memorySize ≤ k) :
      Concerns lines .oversizedBinary cell.holder cell.holder.text
  | reference {l : Line} {s : Statement} {k : Nat} {t : Token} (listed : l ∈ lines)
      (stated : l.statement = some s) (operand : t ∈ s.operands) (identifier : operandKind t = .label)
      (emitted : (k, ⟨t, .label⟩) ∈ cellsOf (course 0 lines)) (inside : k < memorySize)
      (unknown : ¬Known (declarations (course 0 lines)) t.text) : Concerns lines (.unknownLabel t.text) t t.text
  | reserved {addr : Nat} {t : Token} (listed : (addr, t) ∈ declarations (course 0 lines))
      (register : isRegisterName (labelName t) = true) :
      Concerns lines (.reservedLabel (labelName t)) t (labelName t)
  | redeclared {front back : List (Nat × Token)} {addr : Nat} {t : Token}
      (order : declarations (course 0 lines) = front ++ (addr, t) :: back) (known : Known front (labelName t)) :
      Concerns lines (.redeclaredLabel (labelName t)) t (labelName t)
  | label {addr : Nat} {t : Token} (listed : (addr, t) ∈ declarations (course 0 lines))
      (outside : memorySize ≤ addr) : Concerns lines .oversizedBinary t (labelName t)

theorem exists_line_of_cell {lines : List Line} {k : Nat} {cell : Cell}
    (listed : (k, cell) ∈ cellsOf (course 0 lines)) :
    ∃ l ∈ lines, ∃ s cells, l.statement = some s ∧ s.plan = .ok cells ∧ cell ∈ cells := by
  obtain ⟨⟨base, l⟩, placed, inside⟩ := List.mem_flatMap.mp listed
  obtain ⟨⟨cell', k'⟩, zipped, same⟩ := List.mem_map.mp inside
  obtain ⟨rfl, rfl⟩ := Prod.mk.inj same
  have mem : cell' ∈ l.cells := List.fst_mem_of_mem_zipIdx zipped
  have listed' : l ∈ lines := by
    rw [← map_snd_course 0 lines]
    exact List.mem_map_of_mem placed
  unfold Line.cells at mem
  cases stated : l.statement with
  | none => simp [stated] at mem
  | some s =>
    cases planned : s.plan with
    | error e => simp [stated, planned, Except.toOption] at mem
    | ok cells => exact ⟨l, listed', s, cells, stated, planned, by simpa [stated, planned, Except.toOption] using mem⟩

theorem exists_line_of_declaration {lines : List Line} {addr : Nat} {t : Token}
    (listed : (addr, t) ∈ declarations (course 0 lines)) : ∃ l ∈ lines, t ∈ l.labels := by
  obtain ⟨⟨base, l⟩, placed, inside⟩ := List.mem_flatMap.mp listed
  obtain ⟨u, label, same⟩ := List.mem_map.mp inside
  obtain ⟨rfl, rfl⟩ := Prod.mk.inj same
  refine ⟨l, ?_, label⟩
  rw [← map_snd_course 0 lines]
  exact List.mem_map_of_mem placed

theorem Line.mem_tokens_of_statement {l : Line} {s : Statement} {t : Token} (stated : l.statement = some s)
    (mem : t ∈ s.head :: s.operands) : t ∈ l.tokens := by
  rw [Line.tokens, stated]
  exact List.mem_append_right _ (by simpa using mem)

/-- What an error is about is a token of a line, or a label without its colon. -/
theorem Concerns.token {lines : List Line} {cause : Cause} {t : Token} {text : Bytes}
    (concerns : Concerns lines cause t text) :
    ∃ l ∈ lines, t ∈ l.tokens ∧ (text = t.text ∨ t ∈ l.labels ∧ text = labelName t) := by
  have labelled : ∀ {addr : Nat} {t : Token}, (addr, t) ∈ declarations (course 0 lines) →
      ∃ l ∈ lines, t ∈ l.tokens ∧ (labelName t = t.text ∨ t ∈ l.labels ∧ labelName t = labelName t) := by
    intro addr t listed
    obtain ⟨l, listed', label⟩ := exists_line_of_declaration listed
    exact ⟨l, listed', List.mem_append_left _ label, .inr ⟨label, rfl⟩⟩
  cases concerns with
  | statement listed stated faulty =>
    exact ⟨_, listed, Line.mem_tokens_of_statement stated faulty.mem, .inl rfl⟩
  | cell listed outside =>
    obtain ⟨l, listed', s, cells, stated, planned, mem⟩ := exists_line_of_cell listed
    exact ⟨l, listed', Line.mem_tokens_of_statement stated (Statement.plan_owns planned mem).holder, .inl rfl⟩
  | reference listed stated operand =>
    exact ⟨_, listed, Line.mem_tokens_of_statement stated (List.mem_cons_of_mem _ operand), .inl rfl⟩
  | reserved listed => exact labelled listed
  | redeclared order => exact labelled (order ▸ List.mem_append_right _ List.mem_cons_self)
  | label listed => exact labelled listed

theorem mem_script_fill {placed : List (Nat × Line)} {addr : Nat} {cell : Cell} :
    (addr, .fill cell) ∈ script placed ↔ ∃ k, (k, cell) ∈ cellsOf placed ∧ min k memorySize = addr := by
  have viewed : (addr, Act.fill cell) ∈ script placed ↔ (addr, cell) ∈ (script placed).filterMap Act.filled? := by
    rw [List.mem_filterMap]
    constructor
    · intro mem
      exact ⟨_, mem, rfl⟩
    · rintro ⟨⟨addr', act⟩, mem, same⟩
      cases act with
      | fill cell' =>
        obtain ⟨rfl, rfl⟩ := Prod.mk.inj (Option.some.inj same)
        exact mem
      | refuse | declare | record => simp [Act.filled?] at same
  rw [viewed, script_filled, List.mem_map]
  constructor
  · rintro ⟨⟨k, cell'⟩, listed, same⟩
    obtain ⟨rfl, rfl⟩ := Prod.mk.inj same
    exact ⟨k, listed, rfl⟩
  · rintro ⟨k, listed, rfl⟩
    exact ⟨_, listed, rfl⟩

theorem Fault.concerns {lines : List Line} {front back : List (Nat × Act)} {x : Nat × Act} {e : Error}
    (whole : script (course 0 lines) = front ++ x :: back) (fault : Fault front x e) :
    ∃ t text, Concerns lines e.cause t text ∧ e.cursor = .of t.position text.length := by
  have mem : x ∈ script (course 0 lines) := by rw [whole]; simp
  have order : ∀ addr t, x = (addr, .declare t) →
      declarations (course 0 lines) =
        front.filterMap Act.declared? ++ (addr, t) :: back.filterMap Act.declared? := by
    rintro addr t rfl
    rw [← script_declared, whole, List.filterMap_append]
    rfl
  have declared : ∀ addr t, x = (addr, .declare t) → (addr, t) ∈ declarations (course 0 lines) :=
    fun addr t same => order addr t same ▸ List.mem_append_right _ List.mem_cons_self
  cases fault with
  | refused =>
    obtain ⟨l, listed, s, stated, refused⟩ := mem_script_refuse mem
    rw [map_snd_course] at listed
    exact ⟨_, _, .statement listed stated (Statement.plan_faulty refused), rfl⟩
  | value =>
    obtain ⟨k, listed, -⟩ := mem_script_fill.mp mem
    obtain ⟨l, listed', s, cells, stated, planned, inside⟩ := exists_line_of_cell listed
    exact ⟨_, _, .statement listed' stated ((Statement.plan_owns planned inside).faulty _ rfl), rfl⟩
  | cell outside =>
    obtain ⟨k, listed, rfl⟩ := mem_script_fill.mp mem
    exact ⟨_, _, .cell listed (by omega), rfl⟩
  | reserved register => exact ⟨_, _, .reserved (declared _ _ rfl) register, rfl⟩
  | redeclared known => exact ⟨_, _, .redeclared (order _ _ rfl) known, rfl⟩
  | label outside => exact ⟨_, _, .label (declared _ _ rfl) outside, rfl⟩

theorem mem_awaited {lines : List Line} {f : Fixup} :
    f ∈ (script (course 0 lines)).filterMap awaited? ↔
      ∃ k t, (k, ⟨t, .label⟩) ∈ cellsOf (course 0 lines) ∧ k < memorySize ∧ f = ⟨k, t.text, .ofToken t⟩ := by
  rw [List.mem_filterMap]
  constructor
  · rintro ⟨⟨addr, act⟩, mem, awaited⟩
    unfold awaited? at awaited
    split at awaited
    · next addr' t same =>
      obtain ⟨rfl, rfl⟩ := Prod.mk.inj same
      obtain ⟨inside, rfl⟩ := Option.ite_some_none_eq_some.mp awaited
      obtain ⟨k, listed, same⟩ := mem_script_fill.mp mem
      obtain rfl : k = addr := by omega
      exact ⟨k, t, listed, inside, rfl⟩
    · simp at awaited
  · rintro ⟨k, t, listed, inside, rfl⟩
    refine ⟨(k, .fill ⟨t, .label⟩), mem_script_fill.mpr ⟨k, listed, Nat.min_eq_left (Nat.le_of_lt inside)⟩, ?_⟩
    simp [awaited?, inside]

section Assembled

variable {source : Bytes} {table : Option SymbolTable} {lines : List Line}

theorem assemble_errors (parsed : parse source = .ok lines) (e : Error) :
    (∃ errors, (assemble source table).outcome = .error errors ∧ e ∈ errors) ↔
      e ∈ (drafted table (script (course 0 lines))).finish.errors := by
  rw [assemble_script parsed]
  generalize (drafted table (script (course 0 lines))).finish = d
  cases clean : d.errors with
  | nil => simp
  | cons first more => simp [or_comm]

theorem lookup_drafted {name : Bytes} :
    (drafted table (script (course 0 lines))).labels.lookup name = none ↔
      ¬Known (declarations (course 0 lines)) name := by
  rw [← script_declared, ← (Draft.drafted_recounts table (script (course 0 lines))).labels,
    Option.not_isSome_iff_eq_none]

theorem mem_drafted_fixups {f : Fixup} :
    f ∈ (drafted table (script (course 0 lines))).fixups ↔
      ∃ k t, (k, ⟨t, .label⟩) ∈ cellsOf (course 0 lines) ∧ k < memorySize ∧ f = ⟨k, t.text, .ofToken t⟩ := by
  rw [← List.mem_reverse, (Draft.drafted_recounts table (script (course 0 lines))).fixups, mem_awaited]

theorem assemble_concerns (parsed : parse source = .ok lines) {errors : List Error}
    (rejected : (assemble source table).outcome = .error errors) {e : Error} (mem : e ∈ errors) :
    ∃ t text, Concerns lines e.cause t text ∧ e.cursor = .of t.position text.length := by
  obtain here | ⟨f, listed, unknown, rfl⟩ :=
    Draft.mem_finish_errors.mp ((assemble_errors parsed e).mp ⟨errors, rejected, mem⟩)
  · obtain ⟨front, x, back, whole, fault⟩ := (Draft.drafted_recounts table _).errors e here
    exact fault.concerns whole
  · obtain ⟨k, t, emitted, inside, rfl⟩ := mem_drafted_fixups.mp listed
    obtain ⟨l, listed, s, cells, stated, planned, cell⟩ := exists_line_of_cell emitted
    obtain ⟨operand, identifier⟩ := (Statement.plan_owns planned cell).label rfl
    exact ⟨t, t.text, .reference listed stated operand identifier emitted inside (lookup_drafted.mp unknown), rfl⟩

/-- What an error is about stands in the source. -/
theorem Concerns.marks (parsed : parse source = .ok lines) {cause : Cause} {t : Token} {text : Bytes}
    (concerns : Concerns lines cause t text) : (Cursor.of t.position text.length).Marks source text := by
  obtain ⟨l, listed, mem, which⟩ := concerns.token
  obtain ⟨before, rest, within⟩ := line_token_within parsed listed mem
  obtain rfl | ⟨label, rfl⟩ := which
  · exact within.marks
  · obtain ⟨⟨b, more, name, -⟩, colon⟩ := line_label_name parsed listed label
    exact within.marks_label colon (by simp [name])

end Assembled

theorem Concerns.of_unknownLabel {lines : List Line} {name : Bytes} {t : Token} {text : Bytes}
    (concerns : Concerns lines (.unknownLabel name) t text) :
    text = t.text ∧ t.text = name ∧ operandKind t = .label ∧
      (∃ l ∈ lines, ∃ s, l.statement = some s ∧ t ∈ s.operands) ∧
      (∃ k, (k, ⟨t, .label⟩) ∈ cellsOf (course 0 lines) ∧ k < memorySize) ∧
      ¬Known (declarations (course 0 lines)) name := by
  cases concerns with
  | statement listed stated faulty =>
    cases faulty with
    | value operand refused =>
      obtain none' | none' | none' | ⟨limit, received, none'⟩ := refused.cause <;> simp at none'
  | reference listed stated operand identifier emitted inside unknown =>
    exact ⟨rfl, rfl, identifier, ⟨_, listed, _, stated, operand⟩, ⟨_, emitted, inside⟩, unknown⟩

/-- Every error of a source that is none of syntax is about a token of it, and its cursor marks that token,
or the name of a label without the colon. Labels are not known exactly at the references to a name that
no line declares with success. -/
theorem assemble_blames (source : Bytes) (table : Option SymbolTable) :
    (∀ errors, (assemble source table).outcome = .error errors → ∀ e ∈ errors, e.cause.isSyntax = false →
      ∃ lines t text, parse source = .ok lines ∧ Concerns lines e.cause t text ∧
        e.cursor.byte = t.position.offset ∧ e.cursor.Marks source text) ∧
    ∀ lines, parse source = .ok lines → ∀ cursor name,
      (∃ errors, (assemble source table).outcome = .error errors ∧ ⟨cursor, .unknownLabel name⟩ ∈ errors) ↔
        ∃ k t, (k, ⟨t, .label⟩) ∈ cellsOf (course 0 lines) ∧ k < memorySize ∧ operandKind t = .label ∧
          (∃ l ∈ lines, ∃ s, l.statement = some s ∧ t ∈ s.operands) ∧ cursor = .ofToken t ∧ t.text = name ∧
          ¬Known (declarations (course 0 lines)) name := by
  constructor
  · intro errors rejected e mem meaning
    obtain ⟨tokens, lines, -, -, parsed⟩ | ⟨e', unread, misplaced⟩ := parse_cases source
    · obtain ⟨t, text, concerns, cursor⟩ := assemble_concerns parsed rejected mem
      refine ⟨lines, t, text, parsed, concerns, by rw [cursor]; rfl, ?_⟩
      rw [cursor]
      exact concerns.marks parsed
    · rw [assemble, unread] at rejected
      obtain rfl := Except.error.inj rejected
      obtain rfl := List.mem_singleton.mp mem
      exact absurd misplaced.isSyntax (by simp [meaning])
  · intro lines parsed cursor name
    constructor
    · rintro ⟨errors, rejected, mem⟩
      obtain ⟨t, text, concerns, same⟩ := assemble_concerns parsed rejected mem
      obtain ⟨rfl, named, identifier, operand, ⟨k, emitted, inside⟩, unknown⟩ := concerns.of_unknownLabel
      exact ⟨k, t, emitted, inside, identifier, operand, same, named, unknown⟩
    · rintro ⟨k, t, emitted, inside, -, -, rfl, rfl, unknown⟩
      refine (assemble_errors parsed _).mpr (Draft.mem_finish_errors.mpr (.inr ?_))
      exact ⟨_, mem_drafted_fixups.mpr ⟨k, t, emitted, inside, rfl⟩, lookup_drafted.mpr unknown, rfl⟩

def tangled : Bytes := Bytes.ofString ".word '\u00e9' 99999 lost\nx:\nx: foo\n"

theorem assemble_blames_tangled :
    ∃ errors lines, (assemble tangled none).outcome = .error errors ∧ parse tangled = .ok lines ∧
      errors.map Error.cause = [.oversizedLiteral 65535 99999, .redeclaredLabel (Bytes.ofString "x"),
        .unknownIdentifier (Bytes.ofString "foo"), .unknownLabel (Bytes.ofString "lost")] ∧
      (∀ e ∈ errors, ∃ t text, Concerns lines e.cause t text ∧ e.cursor.byte = t.position.offset ∧
        e.cursor.Marks tangled text) ∧
      ∃ k t, (k, ⟨t, .label⟩) ∈ cellsOf (course 0 lines) ∧ t.text = Bytes.ofString "lost" ∧
        ¬Known (declarations (course 0 lines)) (Bytes.ofString "lost") := by
  obtain ⟨blames, unknown⟩ := assemble_blames tangled none
  obtain ⟨lines, parsed⟩ : ∃ lines, parse tangled = .ok lines := exists_ok_of_toOption (by decide +kernel)
  have facts : (match (assemble tangled none).outcome with
      | .ok _ => none
      | .error errors => some errors) = some
        [⟨⟨1, 11, 11, 5⟩, .oversizedLiteral 65535 99999⟩,
          ⟨⟨3, 1, 25, 1⟩, .redeclaredLabel (Bytes.ofString "x")⟩,
          ⟨⟨3, 4, 28, 3⟩, .unknownIdentifier (Bytes.ofString "foo")⟩,
          ⟨⟨1, 17, 17, 4⟩, .unknownLabel (Bytes.ofString "lost")⟩] := by
    decide +kernel
  split at facts
  · simp at facts
  · next errors rejected =>
    obtain rfl := Option.some.inj facts
    refine ⟨_, lines, rejected, parsed, rfl, fun e mem => ?_, ?_⟩
    · have meaning : e.cause.isSyntax = false := by
        simp only [List.mem_cons, List.not_mem_nil, or_false] at mem
        obtain rfl | rfl | rfl | rfl := mem <;> rfl
      obtain ⟨lines', t, text, parsed', rest⟩ := blames _ rejected e mem meaning
      obtain rfl := Except.ok.inj (parsed.symm.trans parsed')
      exact ⟨t, text, rest⟩
    · obtain ⟨k, t, emitted, -, -, -, -, named, missing⟩ :=
        (unknown lines parsed ⟨1, 17, 17, 4⟩ (Bytes.ofString "lost")).mp ⟨_, rejected, by simp⟩
      exact ⟨k, t, emitted, named, missing⟩

end WordMachine.Assembly
