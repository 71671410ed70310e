import WordMachine.Proofs.Machine.Decoding

/-! Steps as a whole. A step decodes and then executes, and what fails on the way is what it
reports. Whatever fails, the state stays as it was, and the fault names the instruction it
belongs to; only the end of input is a stall, and decoding never comes to it. -/

namespace WordMachine

namespace State

theorem fetch_fault {s : State} {addr : UInt16} {cell : Nat} {f : Fault}
    (refused : s.fetch addr cell = .error f) : f.addr = addr ∧ f.isStall = false := by
  unfold fetch at refused
  split at refused
  · simp at refused
  · rw [← Except.error.inj refused]
    exact ⟨rfl, rfl⟩

theorem operandValue_fault {s : State} {addr raw : UInt16} {role : Role} {f : Fault}
    (refused : s.operandValue addr role raw = .error f) : f.addr = addr ∧ f.isStall = false := by
  have meaningless : f = .invalidOperand addr raw := by
    cases role <;> simp only [operandValue, resolve] at refused <;> split at refused <;>
      simp_all
  rw [meaningless]
  exact ⟨rfl, rfl⟩

theorem operandAt_fault {s : State} {addr : UInt16} {role : Role} {k : Nat} {f : Fault}
    (refused : s.operandAt addr role k = .error f) : f.addr = addr ∧ f.isStall = false := by
  unfold operandAt at refused
  split at refused
  · next fetched => exact Except.error.inj refused ▸ fetch_fault fetched
  · exact operandValue_fault (error_of_map refused)

theorem operands_fault {s : State} {addr : UInt16} {roles : List Role} {k : Nat} {f : Fault}
    (refused : s.operands addr roles k = .error f) : f.addr = addr ∧ f.isStall = false := by
  induction roles generalizing k with
  | nil => simp [operands] at refused
  | cons role more ih =>
    rw [operands] at refused
    split at refused
    · next first => exact Except.error.inj refused ▸ operandAt_fault first
    · exact ih (error_of_map refused)

theorem decode_fault {s : State} {addr : UInt16} {f : Fault}
    (refused : s.decode addr = .error f) : f.addr = addr ∧ f.isStall = false := by
  rw [decode_eq] at refused
  split at refused
  · next fetched => exact Except.error.inj refused ▸ fetch_fault fetched
  · split at refused
    · rw [← Except.error.inj refused]
      exact ⟨rfl, rfl⟩
    · exact operands_fault (error_of_map refused)

theorem effect_fault {s : State} {i : Instruction} {f : Fault} (refused : s.effect i = .error f) :
    f.addr = i.addr ∧ f.isStall = false := by
  cases op : i.opcode with
  | pop | wmem | call | ret =>
    simp only [effect, op] at refused
    split at refused
    · simp at refused
    · exact Except.error.inj refused ▸ ⟨rfl, rfl⟩
  | mod =>
    simp only [effect, op] at refused
    split at refused
    · exact Except.error.inj refused ▸ ⟨rfl, rfl⟩
    · simp at refused
  | rmem =>
    simp only [effect, op] at refused
    split at refused
    · next fetched => exact Except.error.inj refused ▸ fetch_fault fetched
    · split at refused
      · next resolved =>
        have unvalued : s.operandValue i.addr .value _ = .error _ := resolved
        exact Except.error.inj refused ▸ operandValue_fault unvalued
      · simp at refused
  | _ => simp [effect, op] at refused

end State

namespace Machine

theorem step_of_halted {m : Machine} (halted : m.state.halted = true) :
    m.step = .failed .halted m := by
  rw [step, if_pos halted]

theorem step_of_decode_error {m : Machine} {f : Fault} (running : m.state.halted = false)
    (refused : m.state.decode m.state.program = .error f) : m.step = .failed (.fault f) m := by
  rw [step, if_neg (by simp [running]), refused]

theorem step_of_decode {m : Machine} {i : Instruction} (running : m.state.halted = false)
    (decoded : m.state.decode m.state.program = .ok i) : m.step = (m.execute i).mapError .fault := by
  rw [step, if_neg (by simp [running]), decoded]

theorem execute_of_effect {m : Machine} {i : Instruction} (notOut : i.opcode ≠ .out)
    (notIn : i.opcode ≠ .in) :
    m.execute i =
      match m.state.effect i with
      | .ok e => .done { m with state := m.state.apply e }
      | .error f => .failed f m := by
  unfold execute
  split
  · contradiction
  · contradiction
  · rfl

theorem execute_failed_state {m m' : Machine} {i : Instruction} {f : Fault}
    (failed : m.execute i = .failed f m') : m'.state = m.state := by
  simp only [execute] at failed
  split at failed
  · split at failed
    · simp at failed
    · obtain ⟨-, rfl⟩ := Outcome.failed.inj failed
      rfl
  · split at failed
    · simp at failed
    · obtain ⟨-, rfl⟩ := Outcome.failed.inj failed
      rfl
  · split at failed
    · simp at failed
    · obtain ⟨-, rfl⟩ := Outcome.failed.inj failed
      rfl

theorem step_failed_state {m m' : Machine} {e : StepError} (failed : m.step = .failed e m') :
    m'.state = m.state := by
  cases halted : m.state.halted with
  | true =>
    rw [step_of_halted halted] at failed
    obtain ⟨-, rfl⟩ := Outcome.failed.inj failed
    rfl
  | false =>
    cases decoded : m.state.decode m.state.program with
    | error f =>
      rw [step_of_decode_error halted decoded] at failed
      obtain ⟨-, rfl⟩ := Outcome.failed.inj failed
      rfl
    | ok i =>
      rw [step_of_decode halted decoded] at failed
      cases attempt : m.execute i with
      | done m => simp [attempt, Outcome.mapError] at failed
      | failed f m =>
        rw [attempt] at failed
        obtain ⟨-, rfl⟩ := Outcome.failed.inj failed
        exact execute_failed_state attempt

/-- The machine after `k` steps, if all of them complete. -/
def reached (m : Machine) : (k : Nat) → Option Machine
  | 0 => some m
  | k + 1 =>
    match m.reached k with
    | none => none
    | some m =>
      match m.step with
      | .done m => some m
      | .failed _ _ => none

theorem reached_succ {m m' m'' : Machine} {k : Nat} (at' : m.reached k = some m')
    (done : m'.step = .done m'') : m.reached (k + 1) = some m'' := by
  simp only [reached, at', done]

end Machine

end WordMachine
