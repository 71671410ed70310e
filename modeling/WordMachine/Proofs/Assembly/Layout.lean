import WordMachine.Assembly.Assemble

/-! Where the words of a source go, in two passes. The first gives every line its address: a
statement takes as many cells as its operation or directive says, and `.orig` moves the address,
for the labels of its own line as well. The second reads the operands, a label being the address
of the line on which it stands. Both are meant for sources without errors; what they say of an
ill-formed statement is of no account. -/

namespace WordMachine.Assembly

namespace Statement

def number (s : Statement) : Nat :=
  match s.operands with
  | [t] => ((literalValue literalLimit t.text).toOption.getD 0).toNat
  | _ => 0

def characters (s : Statement) : List UInt16 :=
  match s.operands with
  | [t] => (stringValue t.text).toOption.getD []
  | _ => []

def opcode? (s : Statement) : Option Opcode := Opcode.ofMnemonic? (Bytes.toLower s.head.text)

def size (s : Statement) : Nat :=
  if s.head.kind = .directive then
    match Directive.ofName? s.head.text with
    | some .word => s.operands.length
    | some .blkw => s.number
    | some .string => s.characters.length
    | some .print => 2 * s.characters.length
    | some .orig | none => 0
  else match s.opcode? with
    | some op => 1 + op.arity
    | none => 0

end Statement

namespace Line

def base (addr : Nat) (l : Line) : Nat :=
  match l.statement with
  | some s => if Draft.movesLabels s then s.number else addr
  | none => addr

def size (l : Line) : Nat :=
  match l.statement with
  | some s => s.size
  | none => 0

end Line

def layout : (addr : Nat) → List Line → List (Nat × Line)
  | _, [] => []
  | addr, l :: more => (l.base addr, l) :: layout (l.base addr + l.size) more

def labelName (t : Token) : Bytes := Bytes.trimSuffix t.text ":"

/-- The labels of lines, each with the address it is declared at. -/
def labelsOf (placed : List (Nat × Line)) : List (Bytes × Nat) :=
  placed.flatMap fun (base, l) => l.labels.map fun t => (labelName t, base)

/-- The addresses that lines emit to, one for each word. -/
def addressesOf (placed : List (Nat × Line)) : List Nat :=
  placed.flatMap fun (base, l) => List.range' base l.size

def operandWord? (labels : List (Bytes × Nat)) (limit : Nat) (t : Token) : Option UInt16 :=
  match operandKind t with
  | .literal => (literalValue limit t.text).toOption
  | .character => (characterValue t.text).toOption
  | .register => (Location.readRegister t.text).toOption.map Register.raw
  | .label => (labels.lookup t.text).map Nat.toUInt16
  | .string | .unknown => none

/-- The words that a statement stands for, one for each of its cells. -/
def Statement.words (labels : List (Bytes × Nat)) (s : Statement) : List (Option UInt16) :=
  if s.head.kind = .directive then
    match Directive.ofName? s.head.text with
    | some .word => s.operands.map (operandWord? labels rawLimit)
    | some .blkw => List.replicate s.number (some 0)
    | some .string => s.characters.map some
    | some .print => s.characters.flatMap fun c => [some Opcode.out.code, some c]
    | some .orig | none => []
  else match s.opcode? with
    | some op => some op.code :: s.operands.map (operandWord? labels literalLimit)
    | none => []

end WordMachine.Assembly
