import WordMachine.Word
import Mathlib.Logic.Function.Basic
import Mathlib.Data.Fin.Basic

/-! The machine as it is explained to a programmer. Words are numbers modulo 32768, so sums
and products need no further care; input and output are lists of bytes. Only memory holds
raw 16-bit numbers, and one of them becomes a word by being resolved, as an operand or when
it is loaded into a register. A step is undefined when it fails, and then there is one
reason for it: the first that arises when the operation is read, then its operands in
order, and then the operation is carried out. -/

namespace WordMachine.Modular

abbrev Word := Fin 32768

inductive Failure where
  | halted
  | outOfBounds
  | invalidOperand
  | invalidOpcode
  | stackUnderflow
  | divisionByZero
  | inputExhausted
  deriving DecidableEq, Repr

inductive Instr where
  | halt
  | set (a : Register) (b : Word)
  | push (a : Word)
  | pop (a : Register)
  | eq (a : Register) (b c : Word)
  | gt (a : Register) (b c : Word)
  | jmp (a : Word)
  | jt (a b : Word)
  | jf (a b : Word)
  | add (a : Register) (b c : Word)
  | mult (a : Register) (b c : Word)
  | mod (a : Register) (b c : Word)
  | and (a : Register) (b c : Word)
  | or (a : Register) (b c : Word)
  | not (a : Register) (b : Word)
  | rmem (a : Register) (b : Word)
  | wmem (a b : Word)
  | call (a : Word)
  | ret
  | out (a : Word)
  | in (a : Register)
  | noop
  deriving DecidableEq, Repr

/-- The stack has its top first. The program counter may be one past the last cell. -/
structure Config where
  registers : Register → Word
  program : Nat
  stack : List Word
  memory : Word → UInt16
  halted : Bool
  input : List UInt8
  output : List UInt8

namespace Config

def cell (c : Config) (k : Nat) : Except Failure UInt16 :=
  if h : k < 32768 then .ok (c.memory ⟨k, h⟩) else .error .outOfBounds

/-- Numbers below 32768 are words, and the eight that follow stand for the registers. -/
def resolve (c : Config) (raw : UInt16) : Except Failure Word :=
  if h : raw.toNat < 32768 then .ok ⟨raw.toNat, h⟩
  else if h : raw.toNat - 32768 < 8 then .ok (c.registers ⟨raw.toNat - 32768, h⟩)
  else .error .invalidOperand

def value (c : Config) (k : Nat) : Except Failure Word := (c.cell k).bind c.resolve

def dest (c : Config) (k : Nat) : Except Failure Register :=
  (c.cell k).bind fun raw =>
    if h : 32768 ≤ raw.toNat ∧ raw.toNat - 32768 < 8 then .ok ⟨raw.toNat - 32768, h.2⟩
    else .error .invalidOperand

def instruction (c : Config) (p : Nat) (code : Nat) : Except Failure Instr := do
  match code with
  | 0 => return .halt
  | 1 => return .set (← c.dest (p + 1)) (← c.value (p + 2))
  | 2 => return .push (← c.value (p + 1))
  | 3 => return .pop (← c.dest (p + 1))
  | 4 => return .eq (← c.dest (p + 1)) (← c.value (p + 2)) (← c.value (p + 3))
  | 5 => return .gt (← c.dest (p + 1)) (← c.value (p + 2)) (← c.value (p + 3))
  | 6 => return .jmp (← c.value (p + 1))
  | 7 => return .jt (← c.value (p + 1)) (← c.value (p + 2))
  | 8 => return .jf (← c.value (p + 1)) (← c.value (p + 2))
  | 9 => return .add (← c.dest (p + 1)) (← c.value (p + 2)) (← c.value (p + 3))
  | 10 => return .mult (← c.dest (p + 1)) (← c.value (p + 2)) (← c.value (p + 3))
  | 11 => return .mod (← c.dest (p + 1)) (← c.value (p + 2)) (← c.value (p + 3))
  | 12 => return .and (← c.dest (p + 1)) (← c.value (p + 2)) (← c.value (p + 3))
  | 13 => return .or (← c.dest (p + 1)) (← c.value (p + 2)) (← c.value (p + 3))
  | 14 => return .not (← c.dest (p + 1)) (← c.value (p + 2))
  | 15 => return .rmem (← c.dest (p + 1)) (← c.value (p + 2))
  | 16 => return .wmem (← c.value (p + 1)) (← c.value (p + 2))
  | 17 => return .call (← c.value (p + 1))
  | 18 => return .ret
  | 19 => return .out (← c.value (p + 1))
  | 20 => return .in (← c.dest (p + 1))
  | 21 => return .noop
  | _ => throw .invalidOpcode

def decode (c : Config) : Except Failure Instr :=
  (c.cell c.program).bind fun code => c.instruction c.program code.toNat

def goto (c : Config) (p : Nat) : Config := { c with program := p }

def store (c : Config) (a : Register) (w : Word) : Config :=
  { c with registers := Function.update c.registers a w }

/-- The byte that is shown for a word, a question mark for one that is none. -/
def shownByte (w : Word) : UInt8 := if w.val < 256 then UInt8.ofNat w.val else 63

def exec (c : Config) (next : Nat) : Instr → Except Failure Config
  | .halt => .ok { c.goto next with halted := true }
  | .set a b => .ok ((c.store a b).goto next)
  | .push a => .ok { c.goto next with stack := a :: c.stack }
  | .pop a =>
    match c.stack with
    | top :: rest => .ok { (c.store a top).goto next with stack := rest }
    | [] => .error .stackUnderflow
  | .eq a b d => .ok ((c.store a (if b = d then 1 else 0)).goto next)
  | .gt a b d => .ok ((c.store a (if d < b then 1 else 0)).goto next)
  | .jmp a => .ok (c.goto a)
  | .jt a b => .ok (c.goto (if a = 0 then next else b))
  | .jf a b => .ok (c.goto (if a = 0 then b else next))
  | .add a b d => .ok ((c.store a (b + d)).goto next)
  | .mult a b d => .ok ((c.store a (b * d)).goto next)
  | .mod a b d => if d = 0 then .error .divisionByZero else .ok ((c.store a (b % d)).goto next)
  | .and a b d => .ok ((c.store a (b &&& d)).goto next)
  | .or a b d => .ok ((c.store a (b ||| d)).goto next)
  | .not a b => .ok ((c.store a (b ^^^ 32767)).goto next)
  | .rmem a b => (c.resolve (c.memory b)).map fun w => (c.store a w).goto next
  | .wmem a b => .ok { c.goto next with memory := Function.update c.memory a (UInt16.ofNat b) }
  | .call a =>
    if h : next < 32768 then .ok { c.goto a with stack := ⟨next, h⟩ :: c.stack }
    else .error .outOfBounds
  | .ret =>
    match c.stack with
    | top :: rest => .ok { c.goto top with stack := rest }
    | [] => .error .stackUnderflow
  | .out a => .ok { c.goto next with output := c.output ++ [shownByte a] }
  | .in a =>
    match c.input with
    | key :: rest =>
      .ok { (c.store a ⟨key.toNat, by have := key.toNat_lt; omega⟩).goto next with input := rest }
    | [] => .error .inputExhausted
  | .noop => .ok (c.goto next)

end Config

namespace Instr

def operands : Instr → List Nat
  | halt | ret | noop => []
  | push a | jmp a | call a | out a => [a.val]
  | pop a | .in a => [a.val]
  | set a b | not a b | rmem a b => [a.val, b.val]
  | jt a b | jf a b | wmem a b => [a.val, b.val]
  | eq a b c | gt a b c | add a b c | mult a b c | mod a b c | and a b c | or a b c =>
    [a.val, b.val, c.val]

def size (i : Instr) : Nat := 1 + i.operands.length

end Instr

def Config.step (c : Config) : Except Failure Config :=
  if c.halted then .error .halted
  else c.decode.bind fun i => c.exec (c.program + i.size) i

end WordMachine.Modular
