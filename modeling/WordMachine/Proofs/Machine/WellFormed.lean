import WordMachine.Proofs.Machine.Decoding

/-! States in which registers and stack hold words. The program counter may stand one past
the last cell, where nothing can be decoded, but no further. Memory is free: its cells are
raw numbers, and a word is made of one only by resolving it. -/

namespace WordMachine

theorem le_wordMax_iff {v : UInt16} : v ≤ wordMax ↔ v.toNat < memorySize := by
  rw [UInt16.le_iff_toNat_le]
  exact Nat.lt_succ_iff.symm

theorem get_registers (registers : Vector UInt16 registerCount) (r : Register) :
    registers.get r = getElem registers r.val r.isLt := rfl

theorem get_setIfInBounds (registers : Vector UInt16 registerCount) (index : Nat) (value : UInt16)
    (r : Register) :
    (registers.setIfInBounds index value).get r = if index = r.val then value else registers.get r := by
  rw [get_registers, get_registers, Vector.getElem_setIfInBounds]

namespace Machine

theorem truth_le (b : Bool) : truth b ≤ wordMax := by
  cases b <;> decide

theorem mask_toNat (w : UInt16) : (mask w).toNat = w.toNat % memorySize := by
  rw [mask, UInt16.toNat_and]
  exact Nat.and_two_pow_sub_one_eq_mod w.toNat 15

theorem mask_le (w : UInt16) : mask w ≤ wordMax := by
  rw [le_wordMax_iff, mask_toNat]
  exact Nat.mod_lt _ (by decide)

theorem addMod_toNat (b c : UInt16) : (addMod b c).toNat = (b.toNat + c.toNat) % memorySize := by
  have hb := b.toNat_lt
  have hc := c.toNat_lt
  simp only [addMod, memorySize, UInt32.toNat_toUInt16, UInt32.toNat_mod, UInt32.toNat_add,
    UInt16.toNat_toUInt32, UInt32.reduceToNat]
  omega

theorem multMod_toNat (b c : UInt16) : (multMod b c).toNat = b.toNat * c.toNat % memorySize := by
  have bound : b.toNat * c.toNat < 2 ^ 32 := by
    calc b.toNat * c.toNat ≤ (2 ^ 16 - 1) * (2 ^ 16 - 1) :=
          Nat.mul_le_mul (Nat.le_sub_one_of_lt b.toNat_lt) (Nat.le_sub_one_of_lt c.toNat_lt)
      _ < 2 ^ 32 := by decide
  simp only [multMod, memorySize, UInt32.toNat_toUInt16, UInt32.toNat_mod, UInt32.toNat_mul,
    UInt16.toNat_toUInt32, UInt32.reduceToNat]
  rw [Nat.mod_eq_of_lt bound]
  omega

theorem addMod_le (b c : UInt16) : addMod b c ≤ wordMax := by
  rw [le_wordMax_iff, addMod_toNat]
  exact Nat.mod_lt _ (by decide)

theorem multMod_le (b c : UInt16) : multMod b c ≤ wordMax := by
  rw [le_wordMax_iff, multMod_toNat]
  exact Nat.mod_lt _ (by decide)

end Machine

namespace State

structure WellFormed (s : State) : Prop where
  registers : ∀ r : Register, s.registers.get r ≤ wordMax
  stack : ∀ v ∈ s.stack, v ≤ wordMax
  program : s.program.toNat ≤ memorySize

theorem wellFormed_fresh (memory : Vector UInt16 memorySize) :
    ({ memory } : State).WellFormed where
  registers r := by
    rw [get_registers, Vector.getElem_replicate]
    decide
  stack v stored := by simp at stored
  program := by simp

end State

inductive Opcode.Kind where
  | control
  | arithmetic
  | stack
  | memory
  | device

def Opcode.kind : Opcode → Opcode.Kind
  | halt | jmp | jt | jf | noop => .control
  | set | eq | gt | add | mult | mod | and | or | not => .arithmetic
  | push | pop | call | ret => .stack
  | rmem | wmem => .memory
  | out | .in => .device

/-- What an effect writes are words, and it goes on at most one past the last cell. -/
structure Effect.Bounded (e : Effect) : Prop where
  next : e.next.toNat ≤ memorySize
  register : ∀ r value, e.register = some (r, value) → value ≤ wordMax
  pushed : ∀ value, e.stack = .push value → value ≤ wordMax

theorem Effect.bounded_store {next r value : UInt16} (goes : next.toNat ≤ memorySize)
    (word : value ≤ wordMax) : ({ next, register := some (r, value) } : Effect).Bounded where
  next := goes
  register _ _ same := by
    obtain ⟨-, rfl⟩ : r = _ ∧ value = _ := by simpa using same
    exact word
  pushed _ same := by simp at same

theorem Effect.bounded_push {next value : UInt16} (goes : next.toNat ≤ memorySize)
    (word : value ≤ wordMax) : ({ next, stack := .push value } : Effect).Bounded where
  next := goes
  register _ _ same := by simp at same
  pushed _ same := by
    obtain rfl : value = _ := by simpa using same
    exact word

theorem Effect.Bounded.drop {e : Effect} (bounded : e.Bounded) :
    ({ e with stack := .drop } : Effect).Bounded where
  next := bounded.next
  register := bounded.register
  pushed _ same := by simp at same

theorem Effect.Bounded.cell {e : Effect} (bounded : e.Bounded) (cell : Option (UInt16 × UInt16)) :
    ({ e with cell } : Effect).Bounded where
  next := bounded.next
  register := bounded.register
  pushed := bounded.pushed

theorem Effect.bounded_goto {next : UInt16} (goes : next.toNat ≤ memorySize) (halts : Bool) :
    ({ next, halts } : Effect).Bounded where
  next := goes
  register _ _ same := by simp at same
  pushed _ same := by simp at same

namespace State

theorem WellFormed.apply {s : State} {e : Effect} (wf : s.WellFormed) (bounded : e.Bounded) :
    (s.apply e).WellFormed where
  registers r := by
    simp only [State.apply]
    split
    · next index value same =>
      rw [get_setIfInBounds]
      split
      · exact bounded.register _ _ same
      · exact wf.registers r
    · exact wf.registers r
  stack v stored := by
    simp only [State.apply] at stored
    split at stored
    · exact wf.stack v stored
    · next value same =>
      rcases List.mem_cons.mp stored with rfl | below
      · exact bounded.pushed _ same
      · exact wf.stack v below
    · exact wf.stack v (List.mem_of_mem_tail stored)
  program := bounded.next

theorem resolve_le {s : State} {addr raw value : UInt16}
    (registers : ∀ r : Register, s.registers.get r ≤ wordMax)
    (resolved : s.resolve addr raw = .ok value) : value ≤ wordMax := by
  simp only [resolve, Operand.ofRaw] at resolved
  by_cases literal : raw < registerBase
  · obtain rfl : raw = value := by simpa [literal] using resolved
    rw [le_wordMax_iff]
    exact UInt16.lt_iff_toNat_lt.mp literal
  · by_cases register : raw.toNat - registerBase.toNat < registerCount
    · obtain rfl : s.registers.get ⟨_, register⟩ = value := by
        simpa [literal, register] using resolved
      exact registers _
    · simp [literal, register] at resolved

theorem decode_le {s : State} {addr : UInt16} {i : Instruction} (wf : s.WellFormed)
    (decoded : s.decode addr = .ok i) {k : Nat} (bound : k < 3)
    (has : i.opcode.roles[k]? = some .value) : i.values[k] ≤ wordMax := by
  obtain ⟨raw, valued⟩ := decode_value decoded has bound
  exact resolve_le wf.registers valued

theorem decode_next_le {s : State} {addr : UInt16} {i : Instruction}
    (decoded : s.decode addr = .ok i) : (i.addr + i.size).toNat ≤ memorySize := by
  rw [decode_next decoded, decode_addr decoded]
  exact decode_within decoded

section Bounded

variable {s : State} {addr : UInt16} {i : Instruction} {e : Effect}

theorem first_le (wf : s.WellFormed) (decoded : s.decode addr = .ok i)
    (valued : i.opcode.roles[0]? = some .value) : i.first ≤ wordMax :=
  decode_le wf decoded (by decide) valued

theorem second_le (wf : s.WellFormed) (decoded : s.decode addr = .ok i)
    (valued : i.opcode.roles[1]? = some .value) : i.second ≤ wordMax :=
  decode_le wf decoded (by decide) valued

theorem bounded_of_control (wf : s.WellFormed) (decoded : s.decode addr = .ok i)
    (kind : i.opcode.kind = .control) (done : s.effect i = .ok e) : e.Bounded := by
  have goes := decode_next_le decoded
  cases op : i.opcode <;> rw [op] at kind <;> cases kind <;>
    simp only [effect, op, Except.ok.injEq] at done
  case halt => exact done ▸ Effect.bounded_goto goes true
  case jmp =>
    have target := first_le wf decoded (by rw [op]; rfl)
    exact done ▸ Effect.bounded_goto (Nat.le_of_lt (le_wordMax_iff.mp target)) false
  case jt | jf =>
    have target := Nat.le_of_lt (le_wordMax_iff.mp (second_le wf decoded (by rw [op]; rfl)))
    subst done
    refine Effect.bounded_goto ?_ false
    split <;> assumption
  case noop => exact done ▸ Effect.bounded_goto goes false

theorem bounded_of_arithmetic (wf : s.WellFormed) (decoded : s.decode addr = .ok i)
    (kind : i.opcode.kind = .arithmetic) (done : s.effect i = .ok e) : e.Bounded := by
  have goes := decode_next_le decoded
  cases op : i.opcode <;> rw [op] at kind <;> cases kind <;>
    simp only [effect, op, Except.ok.injEq] at done
  case set => exact done ▸ Effect.bounded_store goes (second_le wf decoded (by rw [op]; rfl))
  case eq | gt => exact done ▸ Effect.bounded_store goes (Machine.truth_le _)
  case add => exact done ▸ Effect.bounded_store goes (Machine.addMod_le _ _)
  case mult => exact done ▸ Effect.bounded_store goes (Machine.multMod_le _ _)
  case mod =>
    have word := second_le wf decoded (by rw [op]; rfl)
    split at done
    · simp at done
    · obtain rfl := Except.ok.inj done
      refine Effect.bounded_store goes ?_
      rw [le_wordMax_iff, UInt16.toNat_mod]
      exact Nat.lt_of_le_of_lt (Nat.mod_le _ _) (le_wordMax_iff.mp word)
  case and | or | not => exact done ▸ Effect.bounded_store goes (Machine.mask_le _)

theorem bounded_of_stack (wf : s.WellFormed) (decoded : s.decode addr = .ok i)
    (kind : i.opcode.kind = .stack) (done : s.effect i = .ok e) : e.Bounded := by
  have goes := decode_next_le decoded
  cases op : i.opcode <;> rw [op] at kind <;> cases kind <;>
    simp only [effect, op, Except.ok.injEq] at done
  case push => exact done ▸ Effect.bounded_push goes (first_le wf decoded (by rw [op]; rfl))
  case call =>
    have target := first_le wf decoded (by rw [op]; rfl)
    split at done
    · next inside =>
      obtain rfl := Except.ok.inj done
      exact Effect.bounded_push (Nat.le_of_lt (le_wordMax_iff.mp target)) (le_wordMax_iff.mpr inside)
    · simp at done
  case pop =>
    rcases held : s.stack with _ | ⟨top, rest⟩ <;> simp only [held, reduceCtorEq, Except.ok.injEq] at done
    exact done ▸ (Effect.bounded_store goes (wf.stack top (by simp [held]))).drop
  case ret =>
    rcases held : s.stack with _ | ⟨top, rest⟩ <;> simp only [held, reduceCtorEq, Except.ok.injEq] at done
    have word : top ≤ wordMax := wf.stack top (by simp [held])
    exact done ▸ (Effect.bounded_goto (Nat.le_of_lt (le_wordMax_iff.mp word)) false).drop

theorem bounded_of_memory (wf : s.WellFormed) (decoded : s.decode addr = .ok i)
    (kind : i.opcode.kind = .memory) (done : s.effect i = .ok e) : e.Bounded := by
  have goes := decode_next_le decoded
  cases op : i.opcode <;> rw [op] at kind <;> cases kind <;> simp only [effect, op] at done
  case rmem =>
    split at done
    · simp at done
    · split at done
      · simp at done
      · next resolved =>
        obtain rfl := Except.ok.inj done
        exact Effect.bounded_store goes (resolve_le wf.registers resolved)
  case wmem =>
    split at done
    · obtain rfl := Except.ok.inj done
      exact (Effect.bounded_goto goes false).cell _
    · simp at done

theorem bounded_of_device (decoded : s.decode addr = .ok i) (kind : i.opcode.kind = .device)
    (done : s.effect i = .ok e) : e.Bounded := by
  have goes := decode_next_le decoded
  cases op : i.opcode <;> rw [op] at kind <;> cases kind <;>
    simp only [effect, op, Except.ok.injEq] at done
  case out | «in» => exact done ▸ Effect.bounded_goto goes false

/-- No operation leaves the words, whatever memory holds. -/
theorem effect_bounded (wf : s.WellFormed) (decoded : s.decode addr = .ok i)
    (done : s.effect i = .ok e) : e.Bounded := by
  cases kind : i.opcode.kind with
  | control => exact bounded_of_control wf decoded kind done
  | arithmetic => exact bounded_of_arithmetic wf decoded kind done
  | stack => exact bounded_of_stack wf decoded kind done
  | memory => exact bounded_of_memory wf decoded kind done
  | device => exact bounded_of_device decoded kind done

end Bounded

end State

namespace Machine

theorem execute_wellFormed {m : Machine} {addr : UInt16} {i : Instruction}
    (wf : m.state.WellFormed) (decoded : m.state.decode addr = .ok i) :
    (m.execute i).machine.state.WellFormed := by
  have goes := State.decode_next_le decoded
  simp only [execute]
  split
  · split
    · exact wf.apply (Effect.bounded_goto goes false)
    · exact wf
  · split
    · next key devices read =>
      refine wf.apply (Effect.bounded_store goes ?_)
      rw [le_wordMax_iff, UInt8.toNat_toUInt16]
      exact Nat.lt_trans key.toNat_lt (by decide)
    · exact wf
  · split
    · next e done => exact wf.apply (State.effect_bounded wf decoded done)
    · exact wf

theorem step_wellFormed {m : Machine} (wf : m.state.WellFormed) :
    m.step.machine.state.WellFormed := by
  simp only [step]
  split
  · exact wf
  · split
    · exact wf
    · next i decoded =>
      have kept := execute_wellFormed wf decoded
      cases attempt : m.execute i <;> simpa [Outcome.mapError, Outcome.machine, attempt] using kept

end Machine

end WordMachine
