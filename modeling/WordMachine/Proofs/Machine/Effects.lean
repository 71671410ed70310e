import WordMachine.Proofs.Machine.Run
import WordMachine.Proofs.Machine.WellFormed

/-! What a step can do, said once for all operations. An instruction is attempted on a state and
with devices, and what comes of it is an effect or a fault; the step then applies the effect or
leaves the state. An effect changes no more than the instruction declares: the register that is
its destination, a cell for `wmem` only, and the top of the stack. -/

namespace WordMachine

structure Effect.Declared (e : Effect) (i : Instruction) : Prop where
  register : e.register.map Prod.fst = i.dest?
  cell : e.cell.isSome → i.opcode = .wmem

namespace State

/-- An instruction with the part that the devices have in it: the devices afterwards, and the
effect, or why there is none. -/
def attempt (s : State) (i : Instruction) (devices : Devices) : Devices × Except Fault Effect :=
  let next := i.addr + i.size
  match i.opcode with
  | .out =>
    match devices.write (Instruction.outputByte i.first) with
    | (devices, none) => (devices, .ok { next })
    | (devices, some failure) => (devices, .error (.device i.addr .display failure))
  | .in =>
    match devices.read with
    | .ok (key, devices) => (devices, .ok { next, register := some (i.first, key.toUInt16) })
    | .error failure => (devices, .error (.device i.addr .keyboard failure))
  | _ => (devices, s.effect i)

def settle (s : State) : Devices × Except Fault Effect → Outcome Fault
  | (devices, .ok e) => .done ⟨s.apply e, devices⟩
  | (devices, .error f) => .failed f ⟨s, devices⟩

variable {s t : State} {i : Instruction} {e : Effect}

theorem attempt_of_effect (notOut : i.opcode ≠ .out) (notIn : i.opcode ≠ .in) (devices : Devices) :
    s.attempt i devices = (devices, s.effect i) := by
  unfold attempt
  split
  · contradiction
  · contradiction
  · rfl

def loaded (s : State) (addr cell : UInt16) : Except Fault UInt16 :=
  match s.fetch addr cell.toNat with
  | .error f => .error f
  | .ok raw => s.resolve addr raw

theorem loaded_congr {addr cell : UInt16}
    (same : ∀ raw raw', s.memory[cell.toNat]? = some raw → t.memory[cell.toNat]? = some raw' →
      s.resolve addr raw = t.resolve addr raw') : s.loaded addr cell = t.loaded addr cell := by
  by_cases inside : cell.toNat < memorySize
  · simp only [loaded, fetch, dif_pos inside]
    exact same _ _ (Vector.getElem?_eq_getElem inside) (Vector.getElem?_eq_getElem inside)
  · simp only [loaded, fetch, dif_neg inside]

/-- Of a state an effect depends on the stack alone, and for `rmem` on the cell it loads. -/
theorem effect_congr (stack : s.stack = t.stack)
    (loads : i.opcode = .rmem → s.loaded i.addr i.second = t.loaded i.addr i.second) :
    s.effect i = t.effect i := by
  cases op : i.opcode with
  | rmem =>
    have same := loads op
    have through : ∀ u : State, u.effect i =
        (u.loaded i.addr i.second).map fun value =>
          { next := i.addr + i.size, register := some (i.first, value) } := by
      intro u
      simp only [effect, op, loaded]
      cases u.fetch i.addr i.second.toNat with
      | error f => rfl
      | ok raw =>
        dsimp only
        cases u.resolve i.addr raw <;> rfl
    rw [through, through, same]
  | pop | ret => simp only [effect, op, stack]
  | _ => simp only [effect, op]

theorem attempt_congr (stack : s.stack = t.stack)
    (loads : i.opcode = .rmem → s.loaded i.addr i.second = t.loaded i.addr i.second) (devices : Devices) :
    s.attempt i devices = t.attempt i devices := by
  simp only [attempt, effect_congr stack loads]

theorem effect_declared (done : s.effect i = .ok e) (notIn : i.opcode ≠ .in) : e.Declared i := by
  simp only [effect] at done
  cases op : i.opcode <;> simp only [op, Except.ok.injEq, ne_eq, not_true_eq_false] at done notIn
  case pop | ret | mod | wmem | call =>
    split at done <;> cases done
    exact ⟨by simp [Instruction.dest?, op, Opcode.roles], by simp [op]⟩
  case rmem =>
    split at done
    · cases done
    · split at done <;> cases done
      exact ⟨by simp [Instruction.dest?, op, Opcode.roles], by simp⟩
  all_goals
    cases done
    exact ⟨by simp [Instruction.dest?, op, Opcode.roles], by simp⟩

theorem attempt_declared {devices devices' : Devices} (done : s.attempt i devices = (devices', .ok e)) :
    e.Declared i := by
  by_cases isOut : i.opcode = .out
  · simp only [attempt, isOut] at done
    split at done
    · obtain ⟨-, rfl⟩ : _ = devices' ∧ _ = e := by simpa using done
      exact ⟨by simp [Instruction.dest?, isOut, Opcode.roles], by simp⟩
    · simp at done
  by_cases isIn : i.opcode = .in
  · simp only [attempt, isIn] at done
    split at done
    · obtain ⟨-, rfl⟩ : _ = devices' ∧ _ = e := by simpa using done
      exact ⟨by simp [Instruction.dest?, isIn, Opcode.roles], by simp⟩
    · simp at done
  · rw [attempt_of_effect isOut isIn] at done
    exact effect_declared (Prod.mk.inj done).2 isIn

theorem apply_register (declared : e.Declared i) {r : Register} (other : i.dest? ≠ some r.val.toUInt16) :
    (s.apply e).registers.get r = s.registers.get r := by
  simp only [apply]
  split
  · next index value same =>
    have dest : i.dest? = some index := by rw [← declared.register, same]; rfl
    rw [get_setIfInBounds, if_neg]
    intro named
    apply other
    rw [dest, ← named]
    simp
  · rfl

/-- The destination holds what the effect has for it, whatever it held before. -/
theorem apply_dest (declared : e.Declared i) {r : Register} (dest : i.dest? = some r.val.toUInt16) :
    (s.apply e).registers.get r = (t.apply e).registers.get r := by
  rw [← declared.register] at dest
  obtain ⟨⟨_, value⟩, same, rfl⟩ := Option.map_eq_some_iff.mp dest
  have small : r.val < 8 := r.isLt
  have index : r.val.toUInt16.toNat = r.val := by
    simp only [Nat.toUInt16_eq, UInt16.toNat_ofNat']
    omega
  simp only [apply, same, get_setIfInBounds, index, if_true]

theorem apply_memory (declared : e.Declared i) :
    (s.apply e).memory = s.memory ∨
      i.opcode = .wmem ∧ ∃ cell value, (s.apply e).memory = s.memory.setIfInBounds cell value := by
  simp only [apply]
  split
  · next cell value same => exact .inr ⟨declared.cell (by simp [same]), _, _, rfl⟩
  · exact .inl rfl

theorem apply_stack (s : State) (e : Effect) :
    (s.apply e).stack = s.stack ∨ (∃ v, (s.apply e).stack = v :: s.stack) ∨
      ∃ v, s.stack = v :: (s.apply e).stack := by
  simp only [apply]
  split
  · exact .inl rfl
  · exact .inr (.inl ⟨_, rfl⟩)
  · cases s.stack with
    | nil => exact .inl rfl
    | cons v rest => exact .inr (.inr ⟨v, rfl⟩)

end State

namespace Machine

variable {m m' : Machine} {i : Instruction}

theorem execute_eq (m : Machine) (i : Instruction) :
    m.execute i = m.state.settle (m.state.attempt i m.devices) := by
  by_cases isOut : i.opcode = .out
  · simp only [execute, State.attempt, isOut]
    cases m.devices.write (Instruction.outputByte i.first) with
    | mk devices failure => cases failure <;> rfl
  by_cases isIn : i.opcode = .in
  · simp only [execute, State.attempt, isIn]
    cases m.devices.read <;> rfl
  · rw [execute_of_effect isOut isIn, State.attempt_of_effect isOut isIn]
    cases m.state.effect i <;> rfl

theorem step_eq (running : m.state.halted = false) (decoded : m.state.decode m.state.program = .ok i) :
    m.step = (m.state.settle (m.state.attempt i m.devices)).mapError .fault := by
  rw [step_of_decode running decoded, execute_eq]

theorem decode_of_done (done : m.step = .done m') : ∃ i, m.state.decode m.state.program = .ok i := by
  cases decoded : m.state.decode m.state.program with
  | ok i => exact ⟨i, rfl⟩
  | error f => simp [step_of_decode_error (running_of_done done) decoded] at done

theorem step_done (decoded : m.state.decode m.state.program = .ok i) (done : m.step = .done m') :
    ∃ e, m.state.attempt i m.devices = (m'.devices, .ok e) ∧ m'.state = m.state.apply e := by
  rw [step_eq (running_of_done done) decoded] at done
  match result : m.state.attempt i m.devices, done with
  | (devices, .ok e), done =>
    obtain rfl := Outcome.done.inj done
    exact ⟨e, rfl, rfl⟩

end Machine

end WordMachine
