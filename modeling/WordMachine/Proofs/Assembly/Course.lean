import WordMachine.Proofs.Assembly.Labels

/-! The course of a draft, through any lines that have been read. A statement is refused as a whole or
fills cells, one after the other, and what goes into a cell may be refused in its turn; either way it is
known where the next line goes on. So the lines give a script, a list of acts with the address of each,
and drafting them is to perform it. Nothing is assumed of the lines: the layout of a source without
errors is the case in which no act leaves any. -/

namespace WordMachine.Assembly

inductive Filling where
  | value (read : Except Cause UInt16)
  | label

structure Cell where
  holder : Token
  filling : Filling

def operandFilling (limit : Nat) (t : Token) : Filling :=
  match operandKind t with
  | .literal => .value (literalValue limit t.text)
  | .character => .value (characterValue t.text)
  | .register => .value (registerValue t.text)
  | .label => .label
  | kind => .value (.error (.invalidOperand [.register, .literal, .character, .label] kind))

def roleFilling (role : Role) (t : Token) : Filling :=
  if role = .dest && operandKind t ≠ .register then
    .value (.error (.invalidOperand [.register] (operandKind t)))
  else operandFilling literalLimit t

namespace Statement

def sole {α : Type} (s : Statement) (kind : OperandKind) (read : Bytes → Except Cause α) :
    Except (Token × Cause) α :=
  match s.operands with
  | [t] =>
    if operandKind t = kind then (read t.text).mapError (t, ·)
    else .error (t, .invalidOperand [kind] (operandKind t))
  | operands => .error (s.head, .argumentCount 1 operands.length)

def origin? (s : Statement) : Option Nat :=
  if Draft.movesLabels s then
    (s.sole .literal (literalValue literalLimit)).toOption.map UInt16.toNat
  else none

/-- The cells that a statement fills, unless all of it is refused for one of its tokens. -/
def plan (s : Statement) : Except (Token × Cause) (List Cell) :=
  let own (words : List UInt16) : List Cell := words.map fun w => ⟨s.head, .value (.ok w)⟩
  if s.head.kind = .directive then
    match Directive.ofName? s.head.text with
    | none => .error (s.head, .unknownIdentifier s.head.text)
    | some .orig => (s.sole .literal (literalValue literalLimit)).map fun _ => []
    | some .blkw =>
      (s.sole .literal (literalValue literalLimit)).map fun n => own (List.replicate n.toNat 0)
    | some .word =>
      if s.operands.isEmpty then .error (s.head, .argumentCount 1 0)
      else .ok (s.operands.map fun t => ⟨t, operandFilling rawLimit t⟩)
    | some .string => (s.sole .string stringValue).map own
    | some .print =>
      (s.sole .string stringValue).map fun chars => own (chars.flatMap fun c => [Opcode.out.code, c])
  else
    match s.opcode? with
    | none => .error (s.head, .unknownIdentifier s.head.text)
    | some op =>
      if s.operands.length ≠ op.arity then .error (s.head, .argumentCount op.arity s.operands.length)
      else .ok (own [op.code] ++ (op.roles.zip s.operands).map fun (role, t) => ⟨t, roleFilling role t⟩)

end Statement

namespace Line

def entry (addr : Nat) (l : Line) : Nat := (l.statement.bind Statement.origin?).getD addr

def cells (l : Line) : List Cell := (l.statement.bind fun s => s.plan.toOption).getD []

/-- Whether a statement begins at the address of a line, rather than move it. -/
def begins (l : Line) : Bool := l.statement.any fun s => !Draft.movesLabels s

end Line

def course : (addr : Nat) → List Line → List (Nat × Line)
  | _, [] => []
  | addr, l :: more =>
    (l.entry addr, l) :: course (min (l.entry addr + l.cells.length) memorySize) more

/-- What a draft does at an address. -/
inductive Act where
  | refuse (t : Token) (cause : Cause)
  | fill (cell : Cell)
  | declare (t : Token)
  | record (start : Position)

def Statement.script (base : Nat) (s : Statement) : List (Nat × Act) :=
  match s.plan with
  | .error (t, cause) => [(base, .refuse t cause)]
  | .ok cells => (cells.zipIdx base).map fun (cell, k) => (min k memorySize, .fill cell)

def Line.script (base : Nat) (l : Line) : List (Nat × Act) :=
  let labels := l.labels.map fun t => (base, Act.declare t)
  match l.statement with
  | none => labels
  | some s =>
    if Draft.movesLabels s then s.script base ++ labels
    else labels ++ (base, .record l.start) :: s.script base

def script (placed : List (Nat × Line)) : List (Nat × Act) :=
  placed.flatMap fun (base, l) => l.script base

namespace Statement

variable {s : Statement}

theorem sole_eq_ok {α : Type} {kind : OperandKind} {read : Bytes → Except Cause α} {a : α}
    (sole : s.sole kind read = .ok a) : ∃ t, s.operands = [t] ∧ operandKind t = kind ∧ read t.text = .ok a := by
  unfold Statement.sole at sole
  split at sole
  · next t only =>
    split at sole
    · next same => exact ⟨t, only, same, ok_of_mapError sole⟩
    · simp at sole
  · simp at sole

theorem plan_moves (moves : Draft.movesLabels s = true) :
    s.plan = (s.sole .literal (literalValue literalLimit)).map fun _ => [] := by
  obtain ⟨kind, name⟩ := Draft.movesLabels_iff.mp moves
  simp only [plan, kind, name, if_true]

theorem origin?_refused {e : Token × Cause} (refused : s.plan = .error e) : s.origin? = none := by
  unfold origin?
  split
  · next moves =>
    rw [plan_moves moves] at refused
    rw [error_of_map refused]
    rfl
  · rfl

theorem origin?_le {n : Nat} (origin : s.origin? = some n) : n ≤ memorySize := by
  unfold Statement.origin? at origin
  split at origin
  · obtain ⟨w, number, rfl⟩ := Option.map_eq_some_iff.mp origin
    obtain ⟨t, -, -, value⟩ := sole_eq_ok (ok_of_toOption number)
    exact Nat.le_trans (literalValue_le value) (by decide)
  · simp at origin

theorem origin?_getD_le {addr : Nat} (inside : addr ≤ memorySize) : s.origin?.getD addr ≤ memorySize := by
  cases origin : s.origin? with
  | none => exact inside
  | some n => exact origin?_le origin

theorem cells_moves (moves : Draft.movesLabels s = true) : s.plan.toOption.getD [] = [] := by
  rw [plan_moves moves]
  cases s.sole .literal (literalValue literalLimit) <;> rfl

end Statement

theorem script_cons (base : Nat) (l : Line) (placed : List (Nat × Line)) :
    script ((base, l) :: placed) = l.script base ++ script placed := rfl

theorem map_snd_course (addr : Nat) (lines : List Line) : (course addr lines).map Prod.snd = lines := by
  induction lines generalizing addr with
  | nil => rfl
  | cons l lines ih => rw [course, List.map_cons, ih]

namespace Draft

def moveTo (d : Draft) (addr : Nat) : Draft := { d with addr }

def fill (d : Draft) (cell : Cell) : Draft :=
  match cell.filling with
  | .value read => d.emitValue read (.ofToken cell.holder)
  | .label => d.emitReference cell.holder

def follow (d : Draft) (s : Statement) : Draft :=
  match s.plan with
  | .error (t, cause) => d.fail (.ofToken t) cause
  | .ok cells => cells.foldl fill (d.moveTo (s.origin?.getD d.addr))

def act (d : Draft) : Act → Draft
  | .refuse t cause => d.fail (.ofToken t) cause
  | .fill cell => d.fill cell
  | .declare t => d.declare t
  | .record start => d.recordLine start

def perform (d : Draft) (entry : Nat × Act) : Draft := (d.moveTo entry.1).act entry.2

variable {d : Draft}

theorem emitOperand_fill (limit : Nat) (d : Draft) (t : Token) :
    d.emitOperand limit t = d.fill ⟨t, operandFilling limit t⟩ := by
  unfold emitOperand fill operandFilling
  cases operandKind t <;> rfl

theorem emitInRole_fill (d : Draft) (role : Role) (t : Token) :
    d.emitInRole role t = d.fill ⟨t, roleFilling role t⟩ := by
  unfold emitInRole roleFilling
  split
  · rfl
  · exact d.emitOperand_fill literalLimit t

theorem emitAll_fill (d : Draft) (words : List UInt16) (t : Token) :
    d.emitAll words (.ofToken t) = (words.map fun w => ⟨t, .value (.ok w)⟩ : List Cell).foldl fill d := by
  rw [emitAll, List.foldl_map]
  rfl

theorem soleOperand_bind {α : Type} (s : Statement) (kind : OperandKind) (read : Bytes → Except Cause α) :
    (do let t ← soleOperand s kind
        (read t.text).mapError fun cause => (⟨.ofToken t, cause⟩ : Error)) =
      (s.sole kind read).mapError fun (t, cause) => ⟨.ofToken t, cause⟩ := by
  unfold soleOperand Statement.sole
  cases s.operands with
  | nil => rfl
  | cons t more =>
    cases more with
    | cons u more => rfl
    | nil =>
      by_cases same : operandKind t = kind
      · simp only [same, if_true, bind, Except.bind]
        cases read t.text <;> rfl
      · simp only [same, if_false]
        rfl

theorem statement_eq_follow (d : Draft) (s : Statement) : d.statement s = d.follow s := by
  have number := soleOperand_bind s .literal (literalValue literalLimit)
  have string := soleOperand_bind s .string stringValue
  by_cases kind : s.head.kind = .directive
  · rw [statement, if_pos kind, directive]
    cases name : Directive.ofName? s.head.text with
    | none => simp [follow, Statement.plan, kind, name]
    | some which =>
      have stays : which ≠ .orig → s.origin? = none := fun other => by
        simp [Statement.origin?, movesLabels, name, other]
      cases which with
      | orig =>
        have moves : s.origin? = (s.sole .literal (literalValue literalLimit)).toOption.map UInt16.toNat := by
          simp [Statement.origin?, movesLabels, kind, name]
        simp only [soleNumber, number, follow, Statement.plan, kind, name, moves, if_true]
        cases s.sole .literal (literalValue literalLimit) <;> rfl
      | blkw =>
        simp only [soleNumber, number, follow, Statement.plan, kind, name, stays (by decide), if_true]
        cases s.sole .literal (literalValue literalLimit) with
        | error e => rfl
        | ok n => exact d.emitAll_fill _ s.head
      | word =>
        simp only [follow, Statement.plan, kind, name, stays (by decide), if_true]
        split
        · rfl
        · simp only [List.foldl_map]
          exact List.foldl_ext _ _ _ fun d t _ => emitOperand_fill rawLimit d t
      | string =>
        simp only [soleString, string, follow, Statement.plan, kind, name, stays (by decide), if_true]
        cases s.sole .string stringValue with
        | error e => rfl
        | ok chars => exact d.emitAll_fill _ s.head
      | print =>
        simp only [soleString, string, follow, Statement.plan, kind, name, stays (by decide), if_true]
        cases s.sole .string stringValue with
        | error e => rfl
        | ok chars => exact d.emitAll_fill _ s.head
  · have stays : s.origin? = none := by simp [Statement.origin?, movesLabels, kind]
    rw [statement, if_neg kind, instruction, follow, Statement.plan, if_neg kind, Statement.opcode?, stays]
    cases Opcode.ofMnemonic? (Bytes.toLower s.head.text) with
    | none => rfl
    | some op =>
      simp only
      split
      · rfl
      · simp only [List.map_singleton, List.singleton_append, List.foldl_cons, List.foldl_map]
        exact List.foldl_ext _ _ _ fun d entry _ => emitInRole_fill d entry.1 entry.2

def await (d : Draft) (f : Fixup) : Draft := { d with fixups := f :: d.fixups }

theorem fill_label (d : Draft) (t : Token) :
    d.fill ⟨t, .label⟩ =
      if d.addr < memorySize then (d.await ⟨d.addr, t.text, .ofToken t⟩).emit 0 (.ofToken t)
      else d.emit 0 (.ofToken t) := rfl

theorem emit_addr (d : Draft) (word : UInt16) (cursor : Cursor) :
    (d.emit word cursor).addr = if d.addr < memorySize then d.addr + 1 else d.addr := by
  unfold emit
  split
  · rfl
  · split <;> rfl

theorem fill_addr (d : Draft) (cell : Cell) :
    (d.fill cell).addr = if d.addr < memorySize then d.addr + 1 else d.addr := by
  unfold fill
  cases cell.filling with
  | value read => cases read <;> exact emit_addr _ _ _
  | label =>
    simp only [emitReference]
    split <;> simp only [emit_addr] <;> simp [*]

theorem fill_keeps (d : Draft) (cell : Cell) :
    (d.fill cell).table = d.table ∧ (d.fill cell).labels = d.labels := by
  unfold fill
  cases cell.filling with
  | value read => cases read <;> exact emit_keeps _ _ _
  | label => exact d.place_keeps (.reference cell.holder)

theorem declare_addr (d : Draft) (t : Token) : (d.declare t).addr = d.addr := by
  simp only [declare]
  split
  · rfl
  · split
    · rfl
    · split <;> rfl

theorem foldl_declare_addr (d : Draft) (labels : List Token) : (labels.foldl declare d).addr = d.addr := by
  induction labels generalizing d with
  | nil => rfl
  | cons t labels ih => rw [List.foldl_cons, ih, declare_addr]

theorem recordLine_addr (d : Draft) (start : Position) : (d.recordLine start).addr = d.addr := by
  unfold recordLine
  split <;> rfl

theorem foldl_perform_moveTo (d : Draft) (addr next : Nat) (entries : List (Nat × Act)) :
    (entries.foldl perform (d.moveTo addr)).moveTo next = (entries.foldl perform d).moveTo next := by
  cases entries <;> rfl

theorem foldl_declare_eq (d : Draft) (labels : List Token) :
    labels.foldl declare d = (labels.map fun t => (d.addr, Act.declare t)).foldl perform d := by
  induction labels generalizing d with
  | nil => rfl
  | cons t labels ih =>
    rw [List.map_cons, List.foldl_cons, List.foldl_cons, ih, declare_addr]
    rfl

theorem foldl_fill_eq {base : Nat} (here : d.addr = min base memorySize) (cells : List Cell) :
    cells.foldl fill d =
        ((cells.zipIdx base).map fun (cell, k) => (min k memorySize, Act.fill cell)).foldl perform d ∧
      (cells.foldl fill d).addr = min (base + cells.length) memorySize := by
  induction cells generalizing d base with
  | nil => exact ⟨rfl, here⟩
  | cons cell cells ih =>
    have next : (d.fill cell).addr = min (base + 1) memorySize := by
      rw [fill_addr, here]
      split <;> omega
    obtain ⟨same, addr⟩ := ih next
    have first : d.perform (min base memorySize, .fill cell) = d.fill cell := by
      rw [← here]
      rfl
    refine ⟨?_, ?_⟩
    · rw [List.zipIdx_cons, List.map_cons, List.foldl_cons, List.foldl_cons, first, same]
    · rw [List.foldl_cons, addr, List.length_cons, Nat.add_assoc, Nat.add_comm 1]

/-- A statement performs its script, and goes on behind its cells. -/
theorem statement_script (inside : d.addr ≤ memorySize) (s : Statement) :
    d.statement s = ((s.script (s.origin?.getD d.addr)).foldl perform d).moveTo
      (min (s.origin?.getD d.addr + (s.plan.toOption.getD []).length) memorySize) := by
  have base := Statement.origin?_getD_le inside (s := s)
  rw [statement_eq_follow, follow, Statement.script]
  cases plan : s.plan with
  | error e =>
    obtain ⟨t, cause⟩ := e
    simp [Statement.origin?_refused plan, Except.toOption, perform, moveTo, act, fail, inside]
  | ok cells =>
    have here : (d.moveTo (s.origin?.getD d.addr)).addr = min (s.origin?.getD d.addr) memorySize := by
      rw [Nat.min_eq_left base]
      rfl
    obtain ⟨same, addr⟩ := foldl_fill_eq here cells
    rw [← foldl_perform_moveTo d (s.origin?.getD d.addr), ← same]
    simp only [Except.toOption, Option.getD_some, ← addr]
    rfl

/-- A line performs its script, and goes on behind its cells. -/
theorem line_script (inside : d.addr ≤ memorySize) (l : Line) :
    d.line l = ((l.script (l.entry d.addr)).foldl perform d).moveTo
      (min (l.entry d.addr + l.cells.length) memorySize) := by
  rw [line, Line.script]
  cases stated : l.statement with
  | none =>
    have addr := foldl_declare_addr d l.labels
    simp only [Line.entry, Line.cells, stated, Option.bind_none, Option.getD_none, List.length_nil, Nat.add_zero,
      Nat.min_eq_left inside, ← foldl_declare_eq]
    rw [← addr]
    rfl
  | some s =>
    simp only [Line.entry, Line.cells, stated, Option.bind_some]
    by_cases moves : movesLabels s = true
    · have kind := (movesLabels_iff.mp moves).1
      have directive : d.directive s = d.statement s := by rw [statement, if_pos kind]
      have drafted := statement_script inside s
      rw [Statement.cells_moves moves, List.length_nil, Nat.add_zero,
        Nat.min_eq_left (Statement.origin?_getD_le inside)] at drafted
      have labels := foldl_declare_eq (d.statement s) l.labels
      have addr := foldl_declare_addr (d.statement s) l.labels
      have here : (d.statement s).addr = s.origin?.getD d.addr := by
        rw [drafted]
        rfl
      simp only [moves, if_true, directive, Statement.cells_moves moves, List.length_nil, Nat.add_zero,
        Nat.min_eq_left (Statement.origin?_getD_le inside), List.foldl_append]
      rw [here] at labels addr
      rw [← foldl_perform_moveTo _ (s.origin?.getD d.addr), ← drafted, ← labels, ← addr]
      rfl
    · have stays : s.origin? = none := by rw [Statement.origin?, if_neg moves]
      simp only [moves, Bool.false_eq_true, if_false, stays, Option.getD_none, List.foldl_append, List.foldl_cons,
        ← foldl_declare_eq]
      have addr : ((l.labels.foldl declare d).recordLine l.start).addr = d.addr := by
        rw [recordLine_addr, foldl_declare_addr]
      have recorded : (l.labels.foldl declare d).perform (d.addr, .record l.start) =
          (l.labels.foldl declare d).recordLine l.start := by
        rw [← foldl_declare_addr d l.labels]
        rfl
      have stated := statement_script (d := (l.labels.foldl declare d).recordLine l.start) (addr ▸ inside) s
      rw [addr, stays] at stated
      rw [recorded]
      exact stated

theorem foldl_line_script (inside : d.addr ≤ memorySize) (lines : List Line) :
    ∃ next, lines.foldl line d = ((script (course d.addr lines)).foldl perform d).moveTo next := by
  induction lines generalizing d with
  | nil => exact ⟨d.addr, rfl⟩
  | cons l lines ih =>
    have first := line_script inside l
    have addr : (d.line l).addr = min (l.entry d.addr + l.cells.length) memorySize := by
      rw [first]
      rfl
    obtain ⟨next, rest⟩ := ih (d := d.line l) (addr ▸ Nat.min_le_right _ _)
    refine ⟨next, ?_⟩
    rw [List.foldl_cons, rest, addr, first, foldl_perform_moveTo, course, script_cons, List.foldl_append]

theorem finish_moveTo (d : Draft) (addr : Nat) : (d.moveTo addr).finish = d.finish.moveTo addr := by
  rw [finish_eq_foldr, finish_eq_foldr]
  have fixups : (d.moveTo addr).fixups = d.fixups := rfl
  rw [fixups]
  generalize d.fixups = list
  induction list with
  | nil => rfl
  | cons f list ih =>
    rw [List.foldr_cons, List.foldr_cons, ih]
    generalize list.foldr (fun f e => fix e f) d = e
    unfold fix
    have labels : (e.moveTo addr).labels = e.labels := rfl
    rw [labels]
    split <;> rfl

end Draft

def drafted (table : Option SymbolTable) (entries : List (Nat × Act)) : Draft :=
  entries.foldl Draft.perform { table }

theorem drafted_concat (table : Option SymbolTable) (entries : List (Nat × Act)) (entry : Nat × Act) :
    drafted table (entries ++ [entry]) = (drafted table entries).perform entry := by
  rw [drafted, List.foldl_append]
  rfl

theorem assemble_script {source : Bytes} {lines : List Line} (parsed : parse source = .ok lines)
    (table : Option SymbolTable) :
    let d := (drafted table (script (course 0 lines))).finish
    assemble source table =
      if d.errors.isEmpty then ⟨.ok (d.memory.toList.take d.size), d.table⟩
      else ⟨.error d.errors.reverse, d.table⟩ := by
  obtain ⟨next, same⟩ := Draft.foldl_line_script (d := { table }) (Nat.zero_le _) lines
  have finished := congrArg Draft.finish same
  rw [Draft.finish_moveTo] at finished
  simp only [assemble, parsed, finished]
  rfl

def declarations (placed : List (Nat × Line)) : List (Nat × Token) :=
  placed.flatMap fun (base, l) => l.labels.map fun t => (base, t)

def cellsOf (placed : List (Nat × Line)) : List (Nat × Cell) :=
  placed.flatMap fun (base, l) => (l.cells.zipIdx base).map fun (cell, k) => (k, cell)

def records (placed : List (Nat × Line)) : List (Nat × Position) :=
  placed.filterMap fun (base, l) => if l.begins then some (base, l.start) else none

/-- The statements of lines that are refused as a whole, each for one of its tokens. -/
def Refused (lines : List Line) (t : Token) (cause : Cause) : Prop :=
  ∃ l ∈ lines, ∃ s, l.statement = some s ∧ s.plan = .error (t, cause)

namespace Act

def declared? : Nat × Act → Option (Nat × Token)
  | (addr, declare t) => some (addr, t)
  | _ => none

def filled? : Nat × Act → Option (Nat × Cell)
  | (addr, fill cell) => some (addr, cell)
  | _ => none

def recorded? : Nat × Act → Option (Nat × Position)
  | (addr, record start) => some (addr, start)
  | _ => none

end Act

section Views

open Act

theorem filterMap_statement_script (base : Nat) (s : Statement) :
    (s.script base).filterMap declared? = [] ∧ (s.script base).filterMap recorded? = [] ∧
      (s.script base).filterMap filled? =
        ((s.plan.toOption.getD []).zipIdx base).map fun (cell, k) => (min k memorySize, cell) := by
  unfold Statement.script
  cases s.plan with
  | error e => exact ⟨rfl, rfl, rfl⟩
  | ok cells =>
    refine ⟨?_, ?_, ?_⟩ <;>
      simp [List.filterMap_map, Function.comp_def, declared?, recorded?, filled?, Except.toOption]

theorem filterMap_line_script (base : Nat) (l : Line) :
    (l.script base).filterMap declared? = l.labels.map (fun t => (base, t)) ∧
      (l.script base).filterMap recorded? = (if l.begins then [(base, l.start)] else []) ∧
      (l.script base).filterMap filled? =
        (l.cells.zipIdx base).map fun (cell, k) => (min k memorySize, cell) := by
  have labels : (l.labels.map fun t => (base, declare t)).filterMap declared? = l.labels.map (fun t => (base, t)) ∧
      (l.labels.map fun t => (base, declare t)).filterMap recorded? = [] ∧
      (l.labels.map fun t => (base, declare t)).filterMap filled? = [] := by
    refine ⟨?_, ?_, ?_⟩ <;> simp [List.filterMap_map, Function.comp_def, declared?, recorded?, filled?]
  obtain ⟨declared, recorded, filled⟩ := labels
  unfold Line.script
  cases stated : l.statement with
  | none => simp [declared, recorded, filled, Line.begins, Line.cells, stated]
  | some s =>
    obtain ⟨declared', recorded', filled'⟩ := filterMap_statement_script base s
    simp only [Line.begins, Line.cells, stated, Option.any_some, Option.bind_some]
    split
    · next moves => simp [declared, recorded, filled, declared', recorded', filled', moves]
    · next stays =>
      simp only [stays, List.filterMap_append, List.filterMap_cons, declared, recorded, filled, declared',
        recorded', filled']
      exact ⟨List.append_nil _, rfl, rfl⟩

theorem filterMap_script {α : Type} {view : Nat × Act → Option α} {seen : Nat → Line → List α}
    (each : ∀ base (l : Line), (l.script base).filterMap view = seen base l) (placed : List (Nat × Line)) :
    (script placed).filterMap view = placed.flatMap fun (base, l) => seen base l := by
  induction placed with
  | nil => rfl
  | cons e placed ih => rw [script_cons, List.filterMap_append, ih, each, List.flatMap_cons]

theorem script_declared (placed : List (Nat × Line)) :
    (script placed).filterMap declared? = declarations placed :=
  filterMap_script (fun base l => (filterMap_line_script base l).1) placed

theorem script_recorded (placed : List (Nat × Line)) :
    (script placed).filterMap recorded? = records placed := by
  rw [filterMap_script (fun base l => (filterMap_line_script base l).2.1), records]
  induction placed with
  | nil => rfl
  | cons e placed ih =>
    obtain ⟨base, l⟩ := e
    rw [List.flatMap_cons, List.filterMap_cons, ih]
    cases begins : l.begins <;> simp [begins]

theorem script_filled (placed : List (Nat × Line)) :
    (script placed).filterMap filled? = (cellsOf placed).map fun (k, cell) => (min k memorySize, cell) := by
  rw [filterMap_script (fun base l => (filterMap_line_script base l).2.2), cellsOf, List.map_flatMap]
  simp [Function.comp_def]

theorem mem_script_refuse {placed : List (Nat × Line)} {k : Nat} {t : Token} {cause : Cause}
    (mem : (k, Act.refuse t cause) ∈ script placed) : Refused (placed.map Prod.snd) t cause := by
  obtain ⟨⟨base, l⟩, listed, inside⟩ := List.mem_flatMap.mp mem
  have refused : ∃ s, l.statement = some s ∧ (k, Act.refuse t cause) ∈ s.script base := by
    simp only [Line.script] at inside
    split at inside
    · simp at inside
    · next s stated =>
      refine ⟨s, stated, ?_⟩
      split at inside <;> simpa using inside
  obtain ⟨s, stated, inside⟩ := refused
  refine ⟨l, List.mem_map_of_mem listed, s, stated, ?_⟩
  unfold Statement.script at inside
  split at inside
  · next u c plan =>
    obtain ⟨-, rfl, rfl⟩ : k = base ∧ t = u ∧ cause = c := by simpa using inside
    exact plan
  · simp at inside

end Views

end WordMachine.Assembly
