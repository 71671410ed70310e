import WordMachine.Machine.Basic

/-!
Triggers that can stop a run, and the events that tell why a run stopped.
-/

namespace WordMachine

open Text

/-- What a breakpoint waits for: a program counter, or a change of a register or a cell. -/
inductive Trigger where
  | address (addr : UInt16)
  | register (r : Register)
  | memory (addr : UInt16)
  deriving DecidableEq, Repr

structure Breakpoint where
  trigger : Trigger
  enabled : Bool := true
  deriving DecidableEq, Repr

def Trigger.text : Trigger → Bytes
  | address addr => "@" ++ Numeral.address addr.toNat
  | register r => "watch r" ++ Numeral.decimal r.val
  | memory addr => "watch @" ++ Numeral.address addr.toNat

def Trigger.value? (s : State) : Trigger → Option UInt16
  | address _ => none
  | register r => some (s.registers.get r)
  | memory addr => s.memory[addr.toNat]?

def Trigger.isWatch : Trigger → Bool
  | address _ => false
  | _ => true

namespace Breakpoint

def mark (enabled : Bool) : Bytes := if enabled then "" else " (disabled)"

def text (b : Breakpoint) : Bytes := b.trigger.text ++ mark b.enabled

end Breakpoint

inductive Stop where
  | breakpoint (index : Nat) (b : Breakpoint)
  | watch (index : Nat) (b : Breakpoint) (old new : UInt16)
  | step
  | halted
  | alreadyHalted
  | fault (e : StepError)
  | stalled (e : StepError)
  | cancelled
  deriving DecidableEq, Repr

namespace Stop

def reason : Stop → String
  | breakpoint _ _ => "breakpoint"
  | watch _ _ _ _ => "watch"
  | step => "step"
  | halted | alreadyHalted => "halted"
  | fault _ => "fault"
  | stalled _ => "stalled"
  | cancelled => "cancelled"

def error? : Stop → Option Bytes
  | alreadyHalted => some StepError.halted.message
  | fault e | stalled e => some e.message
  | cancelled => some "context canceled"
  | _ => none

end Stop

/-- A stop, the program counter at it, and how many instructions the run completed. -/
structure Event where
  stop : Stop
  addr : UInt16
  steps : Nat := 0
  deriving DecidableEq, Repr

namespace Event

def text (e : Event) : Bytes :=
  let pc : Bytes := " (pc " ++ Numeral.address e.addr.toNat ++ ")"
  match e.stop with
  | .breakpoint index b => "breakpoint #" ++ Numeral.decimal index ++ " " ++ b.text
  | .watch _ b old new =>
    b.text ++ " changed " ++ Numeral.decimal old.toNat ++ " -> " ++ Numeral.decimal new.toNat ++ pc
  | .step => "stepped " ++ Numeral.decimal e.steps ++ pc
  | .halted | .alreadyHalted => "machine halted" ++ pc
  | .fault error => "fault: " ++ error.message
  | .stalled _ => "waiting for input at " ++ Numeral.address e.addr.toNat
  | .cancelled => "interrupted" ++ pc

end Event

end WordMachine
