import WordMachine.Debugger.Basic

/-!
Memory as a listing: instructions where they decode, data words elsewhere; and the strings
that the program's output instructions spell.
-/

namespace WordMachine

open Text

structure Listed where
  addr : UInt16
  label : Bytes
  text : Bytes
  isData : Bool
  words : List UInt16
  deriving DecidableEq, Repr

namespace Listed

def line (l : Listed) : Bytes :=
  Debugger.labelLine l.label ++ Numeral.address l.addr.toNat ++ ": " ++ l.text

end Listed

namespace Debugger

def listAt (d : Debugger) (cell : Nat) : Listed :=
  let s := d.machine.state
  let addr := cell.toUInt16
  match s.decode addr with
  | .ok i => ⟨addr, d.label addr, i.text, false, (s.memory.extract cell (cell + i.size.toNat)).toList⟩
  | .error _ =>
    let word := s.memory[cell]?.getD 0
    ⟨addr, d.label addr, ".word " ++ Numeral.decimal word.toNat, true, [word]⟩

def listFrom (d : Debugger) : (count : Nat) → (cell : Nat) → List Listed
  | 0, _ => []
  | count + 1, cell =>
    if cell < memorySize then
      let l := d.listAt cell
      l :: d.listFrom count (cell + l.words.length)
    else []

def disassemble (d : Debugger) (addr : UInt16) (count : Int) : List Listed :=
  d.listFrom count.toNat addr.toNat

def constantOutput? (i : Instruction) : Option UInt8 :=
  if i.opcode = .out && i.firstRaw < registerBase then some (Instruction.outputByte i.firstRaw) else none

def outputFrom (s : State) : (fuel : Nat) → (cell : Nat) → Bytes
  | 0, _ => []
  | fuel + 1, cell =>
    if cell < memorySize then
      match s.decode cell.toUInt16 with
      | .error _ => outputFrom s fuel (cell + 1)
      | .ok i => (constantOutput? i).toList ++ outputFrom s fuel (cell + i.size.toNat)
    else []

/-- The lines that the constant output instructions spell; a last one without its newline
counts if it is not empty. -/
def strings (d : Debugger) : List Bytes :=
  let pieces := Bytes.splitAll Bytes.newline (outputFrom d.machine.state memorySize 0)
  if pieces.getLast? = some [] then pieces.dropLast else pieces

end Debugger

end WordMachine
