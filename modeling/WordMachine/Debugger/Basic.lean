import WordMachine.Debugger.Event
import WordMachine.Machine.Snapshot
import WordMachine.SymbolTable
import WordMachine.Log
import WordMachine.Location

/-!
The debugger: a machine with breakpoints, symbols, a log and a trace. This module holds the
operations between runs.
-/

namespace WordMachine

open Text

inductive Mode where
  | stopped
  | running
  | halted
  | unknown
  deriving DecidableEq, Repr

def Mode.name : Mode → String
  | stopped => "stopped"
  | running => "running"
  | halted => "halted"
  | unknown => "<invalid>"

/-- A traced instruction, with its values at the time, and how many bytes the display had
shown by then, which places it among the program's output. -/
structure Traced where
  instruction : Instruction
  shown : Nat
  deriving DecidableEq, Repr

inductive DebugError where
  | running
  | noSuchBreakpoint (index : Int)
  | invalidOperand (what : String) (value : Int)
  | fault (f : Fault)
  | load (e : LoadError)
  deriving DecidableEq, Repr

/-- `resumeAt` is the address of the breakpoint that the last run stopped on; the next run
passes over it once. Traced instructions go to `trace`, if it is attached. -/
structure Debugger where
  machine : Machine := {}
  mode : Mode := .stopped
  breakpoints : List Breakpoint := []
  symbols : Option SymbolTable := none
  log : Log := {}
  trace : Option (Array Traced) := none
  tracing : Bool := false
  resumeAt : Option UInt16 := none

namespace Debugger

def program (d : Debugger) : UInt16 := d.machine.state.program

def record (d : Debugger) (level : LogLevel) (message : String) (fields : List (String × LogValue) := []) :
    Debugger :=
  { d with log := d.log.add ⟨level, message, fields⟩ }

def whenIdle {α : Type} (d : Debugger) (act : Except DebugError α) : Except DebugError α :=
  if d.mode = .running then .error .running else act

def outOfBounds (d : Debugger) (target : UInt32) : DebugError := .fault (.outOfBounds d.program target)

def loaded (d : Debugger) (m : Machine) : Debugger :=
  { d with machine := m, mode := .stopped, resumeAt := none }

def loadImage (d : Debugger) (bytes : Bytes) : Except DebugError Debugger :=
  d.whenIdle (match d.machine.loadImage bytes with
    | .error e => .error (.load (.image e))
    | .ok m => .ok ((d.loaded m).record .info "image loaded"))

def loadSnapshot (d : Debugger) (bytes : Bytes) : Except DebugError Debugger :=
  d.whenIdle (match d.machine.loadSaved bytes with
    | .error e => .error (.load e)
    | .ok m => .ok ((d.loaded m).record .info "snapshot loaded"
        [("pc", .number m.state.program.toNat), ("stack", .number m.state.stack.length)]))

def looksLikeSnapshot (bytes : Bytes) : Bool :=
  match bytes with
  | b :: _ => b &&& 0xE0 == 0xA0
  | [] => false

def load (d : Debugger) (bytes : Bytes) : Except DebugError Debugger :=
  if looksLikeSnapshot bytes then d.loadSnapshot bytes else d.loadImage bytes

def save (d : Debugger) : Except DebugError (Bytes × Debugger) :=
  d.whenIdle (.ok (d.machine.state.save, d.record .info "snapshot saved" [("pc", .number d.program.toNat)]))

/-- Adds a trigger. One that is there already, enabled or not, stays as it is. The index of
the trigger, and whether it is new. -/
def addTrigger (d : Debugger) (t : Trigger) : (Nat × Bool) × Debugger :=
  match d.breakpoints.findIdx? (·.trigger = t) with
  | some k => ((k, false), d)
  | none =>
    let b : Breakpoint := { trigger := t }
    let d := { d with breakpoints := d.breakpoints ++ [b] }
    ((d.breakpoints.length - 1, true), d.record .debug "breakpoint added" [("breakpoint", .text b.text)])

def setBreakpoint (d : Debugger) (addr : UInt16) : Except DebugError ((Nat × Bool) × Debugger) :=
  if addr.toNat < memorySize then .ok (d.addTrigger (.address addr))
  else .error (d.outOfBounds addr.toUInt32)

def register? (n : Int) : Except DebugError Register :=
  if h : 0 ≤ n ∧ n.toNat < registerCount then .ok ⟨n.toNat, h.2⟩
  else .error (.invalidOperand "register" n)

def setWatch (d : Debugger) (n : Int) : Except DebugError ((Nat × Bool) × Debugger) :=
  (register? n).map fun r => d.addTrigger (.register r)

def setMemoryWatch (d : Debugger) (addr : UInt16) : Except DebugError ((Nat × Bool) × Debugger) :=
  if addr.toNat < memorySize then .ok (d.addTrigger (.memory addr))
  else .error (d.outOfBounds addr.toUInt32)

def index? (d : Debugger) (n : Int) : Except DebugError Nat :=
  if 0 ≤ n ∧ n.toNat < d.breakpoints.length then .ok n.toNat else .error (.noSuchBreakpoint n)

def remove (d : Debugger) (n : Int) : Except DebugError Debugger :=
  (d.index? n).map fun k => { d with breakpoints := d.breakpoints.eraseIdx k }

def enable (d : Debugger) (n : Int) (enabled : Bool) : Except DebugError Debugger :=
  (d.index? n).map fun k => { d with breakpoints := d.breakpoints.modify k ({ · with enabled }) }

def clear (d : Debugger) : Debugger := { d with breakpoints := [] }

def setState (d : Debugger) (s : State) : Debugger := { d with machine := { d.machine with state := s } }

def writeRegister (d : Debugger) (n : Int) (value : UInt16) : Except DebugError Debugger :=
  d.whenIdle (match register? n with
    | .error e => .error e
    | .ok r =>
      if wordMax < value then .error (.invalidOperand "value" value.toNat)
      else
        let s := d.machine.state
        .ok ((d.setState { s with registers := s.registers.set r value }).record .debug "register written"
          [("register", .number r.val), ("value", .number value.toNat)]))

def writeMemory (d : Debugger) (addr value : UInt16) : Except DebugError Debugger :=
  d.whenIdle (
    if wordMax < value then .error (.invalidOperand "value" value.toNat)
    else match d.machine.write addr value with
      | .error f => .error (.fault f)
      | .ok m =>
        .ok ({ d with machine := m }.record .debug "memory written"
          [("addr", .number addr.toNat), ("value", .number value.toNat)]))

def jump (d : Debugger) (addr : UInt16) : Except DebugError Debugger :=
  d.whenIdle (
    if addr.toNat < memorySize then
      .ok { d.setState { d.machine.state with program := addr } with resumeAt := none }
    else .error (d.outOfBounds addr.toUInt32))

def readMemory (d : Debugger) (addr : UInt16) (count : Int) : Except DebugError (List UInt16) :=
  if count < 0 then .error (.invalidOperand "count" count)
  else if memorySize < addr.toNat + count.toNat then
    .error (d.outOfBounds (addr.toNat + count.toNat).toUInt32)
  else .ok ((d.machine.state.memory.toList.drop addr.toNat).take count.toNat)

def stack (d : Debugger) : List UInt16 := d.machine.state.stack

def peek (d : Debugger) : Except Fault Instruction := d.machine.state.decode d.program

def toggleTrace (d : Debugger) : Debugger := { d with tracing := !d.tracing }

def label (d : Debugger) (addr : UInt16) : Bytes :=
  match d.symbols with
  | some t => (t.label? addr).getD []
  | none => []

def labelLine (label : Bytes) : Bytes := if label.isEmpty then [] else label ++ ":\n"

def formatInstruction (d : Debugger) (i : Instruction) : Bytes :=
  labelLine (d.label i.addr) ++ Numeral.address i.addr.toNat ++ ": " ++
    Bytes.padRight 24 i.text ++ " | " ++ i.resolved

def traceLine (d : Debugger) (t : Traced) : Bytes := d.formatInstruction t.instruction ++ "\n"

end Debugger

namespace DebugError

def message : DebugError → Bytes
  | running => "machine is running"
  | noSuchBreakpoint index => "no such breakpoint: #" ++ Numeral.signed index
  | invalidOperand what value => "invalid operand: " ++ what ++ " " ++ Numeral.signed value
  | fault f => f.message
  | load (.image e) => e.message
  | load (.format _) => "machine: unmarshal snapshot: cbor: malformed data"

end DebugError

end WordMachine

/-!
Places that a person names: an address in any of its forms, or a label of the program. A text
that reads as an address is one, also where a label has the same name.
-/

namespace WordMachine.Debugger

def labelledBy (f : SymbolTable.Finder) (d : Debugger) (t : Bytes) : Option UInt16 := d.symbols.bind (f.find · t)

def locateBy (f : SymbolTable.Finder) (d : Debugger) (t : Bytes) : Option UInt16 :=
  match Location.readAddress t with
  | .ok addr => some addr
  | .error _ => labelledBy f d t

def labelled? (d : Debugger) (t : Bytes) : Option UInt16 := labelledBy .lowest d t

def locate? (d : Debugger) (t : Bytes) : Option UInt16 := locateBy .lowest d t

theorem locate?_of_readAddress (d : Debugger) {t : Bytes} {addr : UInt16}
    (h : Location.readAddress t = .ok addr) : d.locate? t = some addr := by
  simp [locate?, locateBy, h]

/-- Watches what a text names: a register, or else the memory cell at a location; none if it
names neither. -/
def watch? (d : Debugger) (t : Bytes) : Option (Except DebugError ((Nat × Bool) × Debugger)) :=
  match Location.register? t with
  | some r => some (d.setWatch r.val)
  | none => (d.locate? t).map d.setMemoryWatch

end WordMachine.Debugger
