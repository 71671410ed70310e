import WordMachine.Text.Bytes
import WordMachine.Word
import WordMachine.Text.Quoted

/-!
The 22 operations, numbered in the order they are listed here, each with its name and
the role of every operand.
-/

namespace WordMachine

/-- A destination names a register; a value is a word or a register to read. -/
inductive Role where
  | dest
  | value
  deriving DecidableEq, Repr

inductive Opcode where
  | halt | set | push | pop | eq | gt | jmp | jt | jf | add | mult | mod
  | and | or | not | rmem | wmem | call | ret | out | in | noop
  deriving DecidableEq, Repr

namespace Opcode

def all : List Opcode :=
  [halt, set, push, pop, eq, gt, jmp, jt, jf, add, mult, mod,
    and, or, not, rmem, wmem, call, ret, out, .in, noop]

def code : Opcode → UInt16
  | halt => 0 | set => 1 | push => 2 | pop => 3 | eq => 4 | gt => 5 | jmp => 6 | jt => 7
  | jf => 8 | add => 9 | mult => 10 | mod => 11 | and => 12 | or => 13 | not => 14
  | rmem => 15 | wmem => 16 | call => 17 | ret => 18 | out => 19 | .in => 20 | noop => 21

def ofCode? (code : UInt16) : Option Opcode := all[code.toNat]?

def mnemonic : Opcode → String
  | halt => "halt" | set => "set" | push => "push" | pop => "pop" | eq => "eq" | gt => "gt"
  | jmp => "jmp" | jt => "jt" | jf => "jf" | add => "add" | mult => "mult" | mod => "mod"
  | and => "and" | or => "or" | not => "not" | rmem => "rmem" | wmem => "wmem"
  | call => "call" | ret => "ret" | out => "out" | .in => "in" | noop => "noop"

def ofMnemonic? (name : Bytes) : Option Opcode := all.find? fun op => name == Bytes.ofString op.mnemonic

def roles : Opcode → List Role
  | halt | ret | noop => []
  | push | jmp | call | out => [.value]
  | pop | .in => [.dest]
  | set | not | rmem => [.dest, .value]
  | jt | jf | wmem => [.value, .value]
  | eq | gt | add | mult | mod | and | or => [.dest, .value, .value]

def arity (op : Opcode) : Nat := op.roles.length

theorem ofCode?_code (op : Opcode) : ofCode? op.code = some op := by
  cases op <;> rfl

theorem arity_le (op : Opcode) : op.arity ≤ 3 := by
  cases op <;> decide

end Opcode

/-!
A decoded instruction: where it stands, its operation, its operands as they stand in
memory and the values they had when it was decoded. For a destination the value is
the number of the register.
-/

structure Instruction where
  addr : UInt16
  opcode : Opcode
  count : UInt16
  raw : Vector UInt16 3
  values : Vector UInt16 3
  deriving DecidableEq, Repr

namespace Instruction

open Text

def blank (addr : UInt16) : Instruction :=
  ⟨addr, .halt, 0, Vector.replicate 3 0, Vector.replicate 3 0⟩

def first (i : Instruction) : UInt16 := i.values[0]

def second (i : Instruction) : UInt16 := i.values[1]

def third (i : Instruction) : UInt16 := i.values[2]

def firstRaw (i : Instruction) : UInt16 := i.raw[0]

def size (i : Instruction) : UInt16 := 1 + i.count

def dest? (i : Instruction) : Option UInt16 :=
  match i.opcode.roles with
  | .dest :: _ => some i.first
  | _ => none

def reads (i : Instruction) (r : Register) : Bool :=
  (i.opcode.roles.zip i.raw.toList).any fun (role, raw) => role = .value && raw = r.raw

def formatOperand (raw : UInt16) : Bytes :=
  match Operand.ofRaw raw with
  | .register r => Bytes.ascii 'r' :: Numeral.decimal r.val
  | _ => Numeral.decimal raw.toNat

/-- The byte that is shown for a word: its low form, or a question mark past one byte. -/
def outputByte (value : UInt16) : UInt8 := if value > 0xFF then Bytes.ascii '?' else value.toUInt8

def text (i : Instruction) : Bytes :=
  (i.raw.toList.take i.count.toNat).foldl (fun t raw => t ++ Bytes.space :: formatOperand raw)
    (Bytes.ofString i.opcode.mnemonic)

def formatValue (op : Opcode) (role : Role) (value : UInt16) : Bytes :=
  if role = .dest then Bytes.ascii 'r' :: Numeral.decimal value.toNat
  else if op = .out && value < 0x80 then Quoted.quoteCode value.toNat
  else Numeral.decimal value.toNat

/-- The instruction with its values in place of the registers they were read from. -/
def resolved (i : Instruction) : Bytes :=
  (i.opcode.roles.zip i.values.toList).foldl
    (fun t (role, value) => t ++ Bytes.space :: formatValue i.opcode role value)
    (Bytes.ofString i.opcode.mnemonic)

end Instruction

end WordMachine
