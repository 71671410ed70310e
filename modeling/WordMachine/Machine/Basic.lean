import WordMachine.Instruction
import WordMachine.Devices

/-!
The machine: its state, decoding, and the effect of one instruction. A step either
completes or fails; a failing step leaves the state as it was.
-/

namespace WordMachine

/-- Registers, program counter, stack with its top first, memory, and whether the
machine has come to its end. -/
structure State where
  registers : Vector UInt16 registerCount := Vector.replicate registerCount 0
  program : UInt16 := 0
  stack : List UInt16 := []
  memory : Vector UInt16 memorySize := Vector.replicate memorySize 0
  halted : Bool := false
  deriving DecidableEq

inductive StepError where
  | halted
  | fault (f : Fault)
  deriving DecidableEq, Repr

def StepError.message : StepError → Bytes
  | halted => "machine halted"
  | fault f => f.message

namespace State

def setMemory (s : State) (addr value : UInt16) : State :=
  { s with memory := s.memory.setIfInBounds addr.toNat value }

def fetch (s : State) (addr : UInt16) (cell : Nat) : Except Fault UInt16 :=
  if h : cell < memorySize then .ok s.memory[cell]
  else .error (.outOfBounds addr cell.toUInt32)

def resolve (s : State) (addr raw : UInt16) : Except Fault UInt16 :=
  match Operand.ofRaw raw with
  | .literal v => .ok v
  | .register r => .ok (s.registers.get r)
  | .meaningless => .error (.invalidOperand addr raw)

def operandValue (s : State) (addr : UInt16) (role : Role) (raw : UInt16) : Except Fault UInt16 :=
  match role with
  | .value => s.resolve addr raw
  | .dest =>
    match Operand.ofRaw raw with
    | .register r => .ok r.val.toUInt16
    | _ => .error (.invalidOperand addr raw)

/-- Fills in the operands from index `k` on; on failure what had been filled in before. -/
def decodeOperands (s : State) : List Role → (k : Nat) → Instruction → Except (Fault × Instruction) Instruction
  | [], _, i => .ok i
  | role :: more, k, i =>
    match s.fetch i.addr (i.addr.toNat + k + 1) with
    | .error f => .error (f, i)
    | .ok raw =>
      let i := { i with raw := i.raw.setIfInBounds k raw }
      match s.operandValue i.addr role raw with
      | .error f => .error (f, i)
      | .ok value =>
        s.decodeOperands more (k + 1) { i with values := i.values.setIfInBounds k value }

def decodePart (s : State) (addr : UInt16) : Except (Fault × Instruction) Instruction :=
  match s.fetch addr addr.toNat with
  | .error f => .error (f, .blank addr)
  | .ok code =>
    match Opcode.ofCode? code with
    | none => .error (.invalidOpcode addr code, .blank addr)
    | some op =>
      s.decodeOperands op.roles 0 { Instruction.blank addr with opcode := op, count := op.arity.toUInt16 }

def decode (s : State) (addr : UInt16) : Except Fault Instruction :=
  (s.decodePart addr).mapError Prod.fst

end State

structure Machine where
  state : State := {}
  devices : Devices := {}
  deriving DecidableEq

/-- What an attempt left behind: the machine after it, or the machine it failed in and why. -/
inductive Outcome (ε : Type) where
  | done (m : Machine)
  | failed (e : ε) (m : Machine)

namespace Outcome

def machine {ε : Type} : Outcome ε → Machine
  | done m => m
  | failed _ m => m

def mapError {ε δ : Type} (f : ε → δ) : Outcome ε → Outcome δ
  | done m => done m
  | failed e m => failed (f e) m

end Outcome

namespace Machine

def truth (b : Bool) : UInt16 := if b then 1 else 0

def mask (w : UInt16) : UInt16 := w &&& wordMax

def addMod (b c : UInt16) : UInt16 := ((b.toUInt32 + c.toUInt32) % 32768).toUInt16

def multMod (b c : UInt16) : UInt16 := ((b.toUInt32 * c.toUInt32) % 32768).toUInt16

end Machine

inductive StackChange where
  | keep
  | push (value : UInt16)
  | drop
  deriving DecidableEq, Repr

/-- Everything an instruction changes: the program counter, at most one register, at most
one memory cell and the top of the stack. -/
structure Effect where
  next : UInt16
  register : Option (UInt16 × UInt16) := none
  cell : Option (UInt16 × UInt16) := none
  stack : StackChange := .keep
  halts : Bool := false
  deriving DecidableEq, Repr

namespace State

def apply (s : State) (e : Effect) : State where
  registers := match e.register with
    | some (r, value) => s.registers.setIfInBounds r.toNat value
    | none => s.registers
  program := e.next
  stack := match e.stack with
    | .keep => s.stack
    | .push value => value :: s.stack
    | .drop => s.stack.tail
  memory := match e.cell with
    | some (addr, value) => s.memory.setIfInBounds addr.toNat value
    | none => s.memory
  halted := s.halted || e.halts

def effect (s : State) (i : Instruction) : Except Fault Effect :=
  let a := i.first
  let b := i.second
  let c := i.third
  let next := i.addr + i.size
  let store (value : UInt16) : Except Fault Effect := .ok { next, register := some (a, value) }
  match i.opcode with
  | .halt => .ok { next, halts := true }
  | .set => store b
  | .push => .ok { next, stack := .push a }
  | .pop =>
    match s.stack with
    | top :: _ => .ok { next, register := some (a, top), stack := .drop }
    | [] => .error (.stackUnderflow i.addr .pop)
  | .eq => store (Machine.truth (b = c))
  | .gt => store (Machine.truth (c < b))
  | .jmp => .ok { next := a }
  | .jt => .ok { next := if a = 0 then next else b }
  | .jf => .ok { next := if a = 0 then b else next }
  | .add => store (Machine.addMod b c)
  | .mult => store (Machine.multMod b c)
  | .mod => if c = 0 then .error (.divisionByZero i.addr) else store (b % c)
  | .and => store (Machine.mask (b &&& c))
  | .or => store (Machine.mask (b ||| c))
  | .not => store (Machine.mask (~~~b))
  | .rmem =>
    match s.fetch i.addr b.toNat with
    | .error f => .error f
    | .ok raw =>
      match s.resolve i.addr raw with
      | .error f => .error f
      | .ok value => store value
  | .wmem =>
    if a.toNat < memorySize then .ok { next, cell := some (a, b) }
    else .error (.outOfBounds i.addr a.toUInt32)
  | .call =>
    if next.toNat < memorySize then .ok { next := a, stack := .push next }
    else .error (.outOfBounds i.addr next.toUInt32)
  | .ret =>
    match s.stack with
    | top :: _ => .ok { next := top, stack := .drop }
    | [] => .error (.stackUnderflow i.addr .ret)
  | .out | .in | .noop => .ok { next }

end State

namespace Machine

def execute (m : Machine) (i : Instruction) : Outcome Fault :=
  let next := i.addr + i.size
  match i.opcode with
  | .out =>
    match m.devices.write (Instruction.outputByte i.first) with
    | (devices, none) => .done { m with state := m.state.apply { next }, devices }
    | (devices, some failure) => .failed (.device i.addr .display failure) { m with devices }
  | .in =>
    match m.devices.read with
    | .ok (key, devices) =>
      let register := some (i.first, key.toUInt16)
      .done { m with state := m.state.apply { next, register }, devices }
    | .error failure => .failed (.device i.addr .keyboard failure) m
  | _ =>
    match m.state.effect i with
    | .ok e => .done { m with state := m.state.apply e }
    | .error f => .failed f m

def executeNumbered (m : Machine) (code : UInt16) (i : Instruction) : Outcome Fault :=
  match Opcode.ofCode? code with
  | some op => m.execute { i with opcode := op }
  | none => .failed (.invalidOpcode i.addr code) m

def step (m : Machine) : Outcome StepError :=
  if m.state.halted then .failed .halted m
  else match m.state.decode m.state.program with
    | .error f => .failed (.fault f) m
    | .ok i => (m.execute i).mapError .fault

inductive Ending where
  | finished (m : Machine)
  | failed (e : StepError) (m : Machine)
  | unfinished (m : Machine)

/-- Steps until the machine halts or a step fails, at most `fuel` times. -/
def run : (fuel : Nat) → Machine → Ending
  | 0, m => if m.state.halted then .finished m else .unfinished m
  | fuel + 1, m =>
    if m.state.halted then .finished m
    else match m.step with
      | .done m => run fuel m
      | .failed e m => .failed e m

/-- Up to `count` steps: how many completed, and how the last attempt went. -/
def stepMany : (count : Nat) → (completed : Nat) → Machine → Nat × Outcome StepError
  | 0, completed, m => (completed, .done m)
  | count + 1, completed, m =>
    match m.step with
    | .done m => stepMany count (completed + 1) m
    | .failed e m => (completed, .failed e m)

def read (m : Machine) (addr : UInt16) : Except Fault UInt16 :=
  m.state.fetch m.state.program addr.toNat

def write (m : Machine) (addr value : UInt16) : Except Fault Machine :=
  if addr.toNat < memorySize then .ok { m with state := m.state.setMemory addr value }
  else .error (.outOfBounds m.state.program addr.toUInt32)

end Machine

end WordMachine
