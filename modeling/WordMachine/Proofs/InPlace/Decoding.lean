import WordMachine.Proofs.InPlace.Basic
import WordMachine.Proofs.Machine.Decoding

/-! Decoding in place. It reads registers and cells by index and writes nothing, whatever
it finds there; its checks come before the accesses that rely on them, so that all of
these are in range. -/

namespace WordMachine.InPlace

variable {ε : Type}

def registerLimit : UInt16 := 0x8008

def fetch (addr : UInt16) (k : Nat) : InPlace State Fault UInt16 :=
  if memorySize ≤ k then throw (.outOfBounds addr k.toUInt32) else cell k

def resolve (addr raw : UInt16) : InPlace State Fault UInt16 :=
  if raw < registerBase then pure raw
  else if raw < registerLimit then register (raw - registerBase).toNat
  else throw (.invalidOperand addr raw)

def operandValue (addr : UInt16) (role : Role) (raw : UInt16) : InPlace State Fault UInt16 :=
  match role with
  | .dest =>
    if raw < registerBase ∨ registerLimit ≤ raw then throw (.invalidOperand addr raw)
    else pure (raw - registerBase)
  | .value => resolve addr raw

def decodeOperands : List Role → (k : Nat) → Instruction → InPlace State Fault Instruction
  | [], _, i => pure i
  | role :: more, k, i => do
    let raw ← fetch i.addr (i.addr.toNat + k + 1)
    let value ← operandValue i.addr role raw
    decodeOperands more (k + 1)
      { i with raw := i.raw.setIfInBounds k raw, values := i.values.setIfInBounds k value }

def decode (addr : UInt16) : InPlace State Fault Instruction := do
  let code ← fetch addr addr.toNat
  match Opcode.ofCode? code with
  | none => throw (.invalidOpcode addr code)
  | some op =>
    decodeOperands op.roles 0 { Instruction.blank addr with opcode := op, count := op.arity.toUInt16 }

theorem ofRaw_cases (raw : UInt16) :
    (raw < registerBase ∧ Operand.ofRaw raw = .literal raw) ∨
    (∃ r : Register, ¬raw < registerBase ∧ raw < registerLimit ∧ Operand.ofRaw raw = .register r ∧
      (raw - registerBase).toNat = r.val) ∨
    (¬raw < registerBase ∧ ¬raw < registerLimit ∧ Operand.ofRaw raw = .meaningless) := by
  have base : registerBase.toNat = 32768 := rfl
  have limit : registerLimit.toNat = 32776 := rfl
  have count : registerCount = 8 := rfl
  by_cases below : raw < registerBase
  · exact .inl ⟨below, Operand.ofRaw_literal below⟩
  · have above : registerBase ≤ raw := UInt16.not_lt.mp below
    have difference : (raw - registerBase).toNat = raw.toNat - registerBase.toNat :=
      UInt16.toNat_sub_of_le _ _ above
    have small : raw < registerLimit ↔ raw.toNat - registerBase.toNat < registerCount := by
      rw [UInt16.le_iff_toNat_le] at above
      rw [UInt16.lt_iff_toNat_lt]
      omega
    by_cases few : raw.toNat - registerBase.toNat < registerCount
    · exact .inr (.inl ⟨⟨_, few⟩, below, small.mpr few, by simp [Operand.ofRaw, below, few], difference⟩)
    · exact .inr (.inr ⟨below, fun inside => few (small.mp inside), by simp [Operand.ofRaw, below, few]⟩)

theorem exec_fetch (addr : UInt16) (k : Nat) (s : State) :
    (fetch addr k).exec s = some (s.fetch addr k, s) := by
  by_cases inside : k < memorySize
  · simp [fetch, State.fetch, inside, Nat.not_le.mpr inside]
  · simp [fetch, State.fetch, inside, Nat.not_lt.mp inside]

theorem exec_resolve (addr raw : UInt16) (s : State) :
    (resolve addr raw).exec s = some (s.resolve addr raw, s) := by
  obtain ⟨below, literal⟩ | ⟨r, above, inside, isRegister, index⟩ | ⟨above, outside, meaningless⟩ :=
    ofRaw_cases raw
  · simp [resolve, State.resolve, below, literal]
  · simp only [resolve, State.resolve, above, inside, isRegister, index, r.isLt, ↓reduceIte, exec_register]
    rfl
  · simp [resolve, State.resolve, above, outside, meaningless]

theorem exec_operandValue (addr : UInt16) (role : Role) (raw : UInt16) (s : State) :
    (operandValue addr role raw).exec s = some (s.operandValue addr role raw, s) := by
  cases role with
  | value => exact exec_resolve addr raw s
  | dest =>
    obtain ⟨below, literal⟩ | ⟨r, above, inside, isRegister, index⟩ | ⟨above, outside, meaningless⟩ :=
      ofRaw_cases raw
    · simp [operandValue, State.operandValue, below, literal]
    · have number : raw - registerBase = r.val.toUInt16 := by
        rw [← index]
        simp
      simp [operandValue, State.operandValue, above, inside, isRegister, number]
    · simp [operandValue, State.operandValue, UInt16.not_lt.mp outside, meaningless]

theorem exec_decodeOperands (roles : List Role) (k : Nat) (i : Instruction) (s : State) :
    (decodeOperands roles k i).exec s =
      some ((s.decodeOperands roles k i).mapError Prod.fst, s) := by
  induction roles generalizing k i with
  | nil => rfl
  | cons role more ih =>
    simp only [decodeOperands, State.decodeOperands, exec_bind, exec_fetch, Option.bind_some]
    cases s.fetch i.addr (i.addr.toNat + k + 1) with
    | error f => rfl
    | ok raw =>
      simp only [exec_operandValue, Option.bind_some]
      cases s.operandValue i.addr role raw with
      | error f => rfl
      | ok value => exact ih _ _

theorem exec_decode (addr : UInt16) (s : State) :
    (decode addr).exec s = some (s.decode addr, s) := by
  simp only [decode, State.decode, State.decodePart, exec_bind, exec_fetch, Option.bind_some]
  cases s.fetch addr addr.toNat with
  | error f => rfl
  | ok code =>
    dsimp only
    cases Opcode.ofCode? code with
    | none => rfl
    | some op => exact exec_decodeOperands op.roles 0 _ s

end WordMachine.InPlace
