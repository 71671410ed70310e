import WordMachine.Assembly.Line
import WordMachine.Assembly.Literal
import WordMachine.Instruction
import WordMachine.SymbolTable

/-!
From source to memory words. Statements are laid out in order; references to labels are
filled in when all of them are known, after every other word. Errors do not stop the work,
so that all of them are reported.
-/

namespace WordMachine.Assembly

open Text

structure Fixup where
  addr : Nat
  name : Bytes
  cursor : Cursor
  deriving DecidableEq, Repr

/-- Work in progress. `size` is one past the highest address written; fixups and errors have
the latest first. -/
structure Draft where
  memory : Vector UInt16 memorySize := Vector.replicate memorySize 0
  size : Nat := 0
  addr : Nat := 0
  full : Bool := false
  labels : List (Bytes × UInt16) := []
  fixups : List Fixup := []
  table : Option SymbolTable := none
  errors : List Error := []

inductive Directive where
  | orig | word | blkw | string | print
  deriving DecidableEq, Repr

def Directive.ofName? (name : Bytes) : Option Directive :=
  [("orig", orig), ("word", word), ("blkw", blkw), ("string", string), ("print", print)].findSome?
    fun (s, d) => if Bytes.toLower name = Bytes.ofString ("." ++ s) then some d else none

namespace Draft

def fail (d : Draft) (cursor : Cursor) (cause : Cause) : Draft :=
  { d with errors := ⟨cursor, cause⟩ :: d.errors }

def emit (d : Draft) (word : UInt16) (cursor : Cursor) : Draft :=
  if d.addr < memorySize then
    { d with
      memory := d.memory.setIfInBounds d.addr word
      addr := d.addr + 1
      size := max d.size (d.addr + 1) }
  else if d.full then d
  else { d.fail cursor .oversizedBinary with full := true }

def emitAll (d : Draft) (words : List UInt16) (cursor : Cursor) : Draft :=
  words.foldl (fun d w => d.emit w cursor) d

def emitValue (d : Draft) (value : Except Cause UInt16) (cursor : Cursor) : Draft :=
  match value with
  | .ok word => d.emit word cursor
  | .error cause => (d.fail cursor cause).emit 0 cursor

def emitReference (d : Draft) (t : Token) : Draft :=
  let cursor := Cursor.ofToken t
  if d.addr < memorySize then
    { d with fixups := ⟨d.addr, t.text, cursor⟩ :: d.fixups }.emit 0 cursor
  else d.emit 0 cursor

def emitOperand (limit : Nat) (d : Draft) (t : Token) : Draft :=
  let cursor := Cursor.ofToken t
  match operandKind t with
  | .literal => d.emitValue (literalValue limit t.text) cursor
  | .character => d.emitValue (characterValue t.text) cursor
  | .register => d.emitValue (registerValue t.text) cursor
  | .label => d.emitReference t
  | kind => d.emitValue (.error (.invalidOperand [.register, .literal, .character, .label] kind)) cursor

/-- An operand of an instruction in its role: a destination only ever names a register. -/
def emitInRole (d : Draft) (role : Role) (t : Token) : Draft :=
  if role = .dest && operandKind t ≠ .register then
    d.emitValue (.error (.invalidOperand [.register] (operandKind t))) (.ofToken t)
  else d.emitOperand literalLimit t

def declare (d : Draft) (t : Token) : Draft :=
  let name := Bytes.trimSuffix t.text ":"
  let cursor := Cursor.of t.position name.length
  if isRegisterName name then d.fail cursor (.reservedLabel name)
  else if (d.labels.lookup name).isSome then d.fail cursor (.redeclaredLabel name)
  else if memorySize ≤ d.addr then d.fail cursor .oversizedBinary
  else
    { d with
      labels := (name, d.addr.toUInt16) :: d.labels
      table := d.table.map (·.addLabel d.addr.toUInt16 name) }

def instruction (d : Draft) (s : Statement) : Draft :=
  let cursor := Cursor.ofToken s.head
  match Opcode.ofMnemonic? (Bytes.toLower s.head.text) with
  | none => d.fail cursor (.unknownIdentifier s.head.text)
  | some op =>
    if s.operands.length ≠ op.arity then d.fail cursor (.argumentCount op.arity s.operands.length)
    else (op.roles.zip s.operands).foldl (fun d (role, t) => d.emitInRole role t) (d.emit op.code cursor)

def soleOperand (s : Statement) (kind : OperandKind) : Except Error Token :=
  match s.operands with
  | [t] =>
    if operandKind t = kind then .ok t
    else .error ⟨.ofToken t, .invalidOperand [kind] (operandKind t)⟩
  | operands => .error ⟨.ofToken s.head, .argumentCount 1 operands.length⟩

def soleNumber (s : Statement) : Except Error UInt16 := do
  let t ← soleOperand s .literal
  (literalValue literalLimit t.text).mapError fun cause => ⟨.ofToken t, cause⟩

def soleString (s : Statement) : Except Error (List UInt16) := do
  let t ← soleOperand s .string
  (stringValue t.text).mapError fun cause => ⟨.ofToken t, cause⟩

def failWith (d : Draft) (e : Error) : Draft := d.fail e.cursor e.cause

def directive (d : Draft) (s : Statement) : Draft :=
  let cursor := Cursor.ofToken s.head
  match Directive.ofName? s.head.text with
  | none => d.fail cursor (.unknownIdentifier s.head.text)
  | some .orig =>
    match soleNumber s with
    | .ok n => { d with addr := n.toNat }
    | .error e => d.failWith e
  | some .blkw =>
    match soleNumber s with
    | .ok n => d.emitAll (List.replicate n.toNat 0) cursor
    | .error e => d.failWith e
  | some .word =>
    if s.operands.isEmpty then d.fail cursor (.argumentCount 1 0)
    else s.operands.foldl (emitOperand rawLimit) d
  | some .string =>
    match soleString s with
    | .ok chars => d.emitAll chars cursor
    | .error e => d.failWith e
  | some .print =>
    match soleString s with
    | .ok chars => d.emitAll (chars.flatMap fun c => [Opcode.out.code, c]) cursor
    | .error e => d.failWith e

def statement (d : Draft) (s : Statement) : Draft :=
  if s.head.kind = .directive then d.directive s else d.instruction s

/-- Whether a statement moves the address, and with it the labels of its own line. -/
def movesLabels (s : Statement) : Bool :=
  s.head.kind = .directive && Directive.ofName? s.head.text = some .orig

def recordLine (d : Draft) (start : Position) : Draft :=
  if d.addr < memorySize then
    { d with table := d.table.map (·.addSymbol d.addr.toUInt16 (Cursor.of start 1).lineByte) }
  else d

def line (d : Draft) (l : Line) : Draft :=
  match l.statement with
  | none => l.labels.foldl declare d
  | some s =>
    if movesLabels s then l.labels.foldl declare (d.directive s)
    else ((l.labels.foldl declare d).recordLine l.start).statement s

def fix (d : Draft) (f : Fixup) : Draft :=
  match d.labels.lookup f.name with
  | some addr => { d with memory := d.memory.setIfInBounds f.addr addr }
  | none => d.fail f.cursor (.unknownLabel f.name)

def finish (d : Draft) : Draft := d.fixups.reverse.foldl fix d

end Draft

structure Assembled where
  outcome : Except (List Error) (List UInt16)
  table : Option SymbolTable

/-- Assembles a source. Labels and line offsets are added to `table`, if there is one. -/
def assemble (source : Bytes) (table : Option SymbolTable) : Assembled :=
  match parse source with
  | .error e => ⟨.error [e], table⟩
  | .ok lines =>
    let d := (lines.foldl Draft.line { table }).finish
    if d.errors.isEmpty then ⟨.ok (d.memory.toList.take d.size), d.table⟩
    else ⟨.error d.errors.reverse, d.table⟩

end WordMachine.Assembly
