/-!
The sizes of the machine. A word is a number below 32768. Memory cells hold raw 16-bit
numbers: those below 32768 are words, the next eight refer to the registers, and the
rest are meaningless as operands.
-/

namespace WordMachine

def memorySize : Nat := 32768

def registerCount : Nat := 8

def wordMax : UInt16 := 0x7FFF

def registerBase : UInt16 := 0x8000

abbrev Register := Fin registerCount

/-- What a raw number means where a value is expected. -/
inductive Operand where
  | literal (value : UInt16)
  | register (r : Register)
  | meaningless
  deriving DecidableEq, Repr

def Operand.ofRaw (raw : UInt16) : Operand :=
  if raw < registerBase then .literal raw
  else if h : raw.toNat - registerBase.toNat < registerCount then
    .register ⟨raw.toNat - registerBase.toNat, h⟩
  else .meaningless

def Register.raw (r : Register) : UInt16 := registerBase + r.val.toUInt16

theorem Operand.ofRaw_literal {raw : UInt16} (h : raw < registerBase) :
    Operand.ofRaw raw = .literal raw := by
  simp [Operand.ofRaw, h]

theorem Operand.ofRaw_raw (r : Register) : Operand.ofRaw r.raw = .register r := by
  revert r
  decide

end WordMachine
