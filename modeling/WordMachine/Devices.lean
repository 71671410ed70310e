import WordMachine.Instruction
import WordMachine.Text.Numeral

/-!
Why an instruction could not be decoded or executed. Every fault carries the address
of the instruction it belongs to.
-/

namespace WordMachine

inductive Device where
  | keyboard
  | display
  deriving DecidableEq, Repr

def Device.name : Device → String
  | keyboard => "keyboard"
  | display => "display"

inductive DeviceFailure where
  | endOfInput
  | reported (text : Bytes)
  deriving DecidableEq, Repr

def DeviceFailure.message : DeviceFailure → Bytes
  | endOfInput => "EOF"
  | reported text => text

inductive Fault where
  | outOfBounds (addr : UInt16) (target : UInt32)
  | invalidOperand (addr : UInt16) (operand : UInt16)
  | invalidOpcode (addr : UInt16) (opcode : UInt16)
  | stackUnderflow (addr : UInt16) (opcode : Opcode)
  | divisionByZero (addr : UInt16)
  | device (addr : UInt16) (device : Device) (failure : DeviceFailure)
  deriving DecidableEq, Repr

namespace Fault

open Text

def addr : Fault → UInt16
  | outOfBounds a _ | invalidOperand a _ | invalidOpcode a _ | stackUnderflow a _
  | divisionByZero a | device a _ _ => a

def description : Fault → Bytes
  | outOfBounds _ target =>
    "Address out of bounds\n\twant:<0x8000\n\thave:" ++ Numeral.address target.toNat
  | invalidOperand _ operand => "Invalid operand " ++ Numeral.decimal operand.toNat
  | invalidOpcode _ opcode => "Invalid opcode " ++ Numeral.decimal opcode.toNat
  | stackUnderflow _ op => "Stack underflow (" ++ op.mnemonic ++ ")"
  | divisionByZero _ => "Division by zero"
  | device _ d failure => d.name ++ ": " ++ failure.message

def message (f : Fault) : Bytes := Numeral.address f.addr.toNat ++ ": " ++ f.description

def isStall : Fault → Bool
  | device _ _ .endOfInput => true
  | _ => false

end Fault

/-!
The keyboard and the display as values. A keyboard gives the queued bytes first and then
those of its source; a display remembers what it has shown.
-/

structure Keyboard where
  queue : Bytes := []
  source : Bytes := []
  /-- What a read past the last byte reports in place of the end of input. -/
  failure : Option Bytes := none
  deriving DecidableEq, Repr

namespace Keyboard

def feed (k : Keyboard) (t : Bytes) : Keyboard := { k with queue := k.queue ++ t }

def pending (k : Keyboard) : Nat := k.queue.length

/-- Takes one byte. A failing read leaves the keyboard as it was. -/
def read (k : Keyboard) : Except DeviceFailure (UInt8 × Keyboard) :=
  match k.queue, k.source with
  | b :: rest, _ => .ok (b, { k with queue := rest })
  | [], b :: rest => .ok (b, { k with source := rest })
  | [], [] => .error (match k.failure with
    | some t => .reported t
    | none => .endOfInput)

end Keyboard

structure Display where
  shown : Array UInt8 := #[]
  /-- The number of bytes it can hold, if bounded. -/
  capacity : Option Nat := none
  /-- What bringing a byte to the surface reports, if that fails; the byte is held all the same. -/
  flushFailure : Option Bytes := none
  deriving DecidableEq, Repr

namespace Display

def isFull (d : Display) : Bool :=
  match d.capacity with
  | some n => n ≤ d.shown.size
  | none => false

def write (d : Display) (b : UInt8) : Display × Option DeviceFailure :=
  if d.isFull then (d, some (.reported "display full"))
  else ({ d with shown := d.shown.push b }, d.flushFailure.map .reported)

end Display

structure Devices where
  keyboard : Option Keyboard := some {}
  display : Option Display := some {}
  deriving DecidableEq, Repr

namespace Devices

def read (d : Devices) : Except DeviceFailure (UInt8 × Devices) :=
  match d.keyboard with
  | none => .error .endOfInput
  | some k =>
    match k.read with
    | .ok (b, k) => .ok (b, { d with keyboard := some k })
    | .error e => .error e

def write (d : Devices) (b : UInt8) : Devices × Option DeviceFailure :=
  match d with
  | ⟨k, some display⟩ => let (display, failure) := display.write b; (⟨k, some display⟩, failure)
  | ⟨k, none⟩ => (⟨k, none⟩, none)

def shown (d : Devices) : Array UInt8 :=
  match d.display with
  | some display => display.shown
  | none => #[]

def feed (d : Devices) (t : Bytes) : Devices := { d with keyboard := d.keyboard.map (·.feed t) }

end Devices

end WordMachine
