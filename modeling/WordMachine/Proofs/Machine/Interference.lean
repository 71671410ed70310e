import WordMachine.Proofs.Machine.Effects
import WordMachine.Machine.Image

/-! What an instruction declares is what it does. Its destination is the only register that a
step writes, and the registers it reads are the only ones that a step depends on. The one
dependence that no operand shows is that of `rmem` on a register to which the loaded cell refers.
So two runs from states that differ in an undeclared register cannot be told apart. -/

namespace WordMachine

structure State.AgreesBut (r : Register) (s t : State) : Prop where
  registers : ∀ q, q ≠ r → s.registers.get q = t.registers.get q
  program : s.program = t.program
  stack : s.stack = t.stack
  memory : s.memory = t.memory
  halted : s.halted = t.halted

structure Machine.AgreesBut (r : Register) (m n : Machine) : Prop where
  state : m.state.AgreesBut r n.state
  devices : m.devices = n.devices

theorem Instruction.unread_operands {i : Instruction} {r : Register} {list : List (UInt16 × UInt16)}
    (unread : i.reads r = false) (count : list.length = i.opcode.arity)
    (whole : i = .ofOperands i.addr i.opcode list) :
    ∀ entry ∈ i.opcode.roles.zip list, entry.1 = .value → entry.2.1 ≠ r.raw := by
  have raws := (ofOperands_operands i.addr i.opcode count).1
  rw [← whole] at raws
  rintro ⟨_, raw, value⟩ listed rfl (rfl : raw = r.raw)
  have stands : (Role.value, r.raw) ∈ i.opcode.roles.zip i.raw.toList := by
    rw [Opcode.zip_take, raws, List.zip_map_right]
    exact List.mem_map_of_mem listed
  exact List.any_eq_false.mp unread _ stands (by simp)

namespace State.AgreesBut

variable {r : Register} {s t : State} {addr : UInt16}

theorem fetch (agree : AgreesBut r s t) (addr : UInt16) (cell : Nat) : s.fetch addr cell = t.fetch addr cell := by
  simp only [State.fetch, agree.memory]

theorem resolve (agree : AgreesBut r s t) (addr : UInt16) {raw : UInt16} (other : raw ≠ r.raw) :
    s.resolve addr raw = t.resolve addr raw := by
  unfold State.resolve
  split
  · rfl
  · next q stands =>
    have different : q ≠ r := by
      rintro rfl
      exact other (Operand.raw_of_ofRaw stands)
    rw [agree.registers q different]
  · rfl

theorem operandValue (agree : AgreesBut r s t) (addr : UInt16) {role : Role} {raw : UInt16}
    (other : role = .value → raw ≠ r.raw) :
    s.operandValue addr role raw = t.operandValue addr role raw := by
  cases role with
  | dest => rfl
  | value => exact agree.resolve addr (other rfl)

theorem operands (agree : AgreesBut r s t) {roles : List Role} {k : Nat} {list : List (UInt16 × UInt16)}
    (read : s.operands addr roles k = .ok list)
    (unread : ∀ entry ∈ roles.zip list, entry.1 = .value → entry.2.1 ≠ r.raw) :
    t.operands addr roles k = .ok list := by
  induction roles generalizing k list with
  | nil => exact read
  | cons role more ih =>
    rw [State.operands] at read
    split at read
    · simp at read
    · next operand first =>
      obtain ⟨rest, others, rfl⟩ := ok_of_map read
      rw [List.zip_cons_cons] at unread
      obtain ⟨unread', unreads⟩ := List.forall_mem_cons.mp unread
      have first' : t.operandAt addr role k = .ok operand := by
        obtain ⟨fetched, valued⟩ := operandAt_ok first
        rw [agree.fetch] at fetched
        rw [agree.operandValue addr unread'] at valued
        simp only [operandAt, fetched, valued]
        rfl
      simp only [State.operands, first', ih others unreads]
      rfl

theorem decode (agree : AgreesBut r s t) {i : Instruction} (decoded : s.decode addr = .ok i)
    (unread : i.reads r = false) : t.decode addr = .ok i := by
  obtain ⟨code, list, fetched, known, read, whole⟩ := decode_ok decoded
  have count : list.length = i.opcode.arity :=
    (operands_ok read (fetch_ok fetched).1).1.length_eq.symm
  have whole' : i = .ofOperands i.addr i.opcode list := by rwa [decode_addr decoded]
  rw [agree.fetch] at fetched
  have read' := agree.operands read (Instruction.unread_operands unread count whole')
  rw [whole]
  exact decode_of_operands fetched known read'

theorem loaded (agree : AgreesBut r s t) (addr : UInt16) {cell : UInt16}
    (other : s.memory[cell.toNat]? ≠ some r.raw) : s.loaded addr cell = t.loaded addr cell := by
  apply loaded_congr
  intro raw raw' left right
  obtain rfl : raw = raw' := Option.some.inj (left.symm.trans (agree.memory ▸ right))
  exact agree.resolve addr fun same => other (same ▸ left)

theorem apply (agree : AgreesBut r s t) (e : Effect) : AgreesBut r (s.apply e) (t.apply e) where
  registers q different := by
    simp only [State.apply]
    split
    · rw [get_setIfInBounds, get_setIfInBounds, agree.registers q different]
    · exact agree.registers q different
  program := rfl
  stack := by simp only [State.apply, agree.stack]
  memory := by simp only [State.apply, agree.memory]
  halted := by simp only [State.apply, agree.halted]

end State.AgreesBut

namespace Machine

variable {m n : Machine} {i : Instruction} {r : Register}

/-- What the steps of `m` and `n` do while `i` is next: both fail for the same reason, or both
complete. Register `r` may still differ, unless it is the destination and the steps complete. -/
inductive StepsAlike (r : Register) (i : Instruction) (m n : Machine) : Prop
  | failed {e : StepError} {m' n' : Machine} (left : m.step = .failed e m') (right : n.step = .failed e n')
      (agree : AgreesBut r m' n')
  | done {m' n' : Machine} (left : m.step = .done m') (right : n.step = .done n') (agree : AgreesBut r m' n')
      (dest : i.dest? = some r.val.toUInt16 → m'.state.registers.get r = n'.state.registers.get r)

/-- A step does the same in spite of a register that its instruction does not depend on. -/
theorem AgreesBut.steps (agree : AgreesBut r m n) (decoded : m.state.decode m.state.program = .ok i)
    (unread : i.reads r = false)
    (elsewhere : ¬(i.opcode = .rmem ∧ m.state.memory[i.second.toNat]? = some r.raw)) :
    StepsAlike r i m n := by
  cases halted : m.state.halted with
  | true =>
    have halted' : n.state.halted = true := agree.state.halted ▸ halted
    exact .failed (step_of_halted halted) (step_of_halted halted') agree
  | false =>
    have running : n.state.halted = false := agree.state.halted ▸ halted
    have decoded' : n.state.decode n.state.program = .ok i := by
      rw [← agree.state.program]
      exact agree.state.decode decoded unread
    have same : n.state.attempt i n.devices = m.state.attempt i m.devices := by
      rw [← agree.devices]
      refine (State.attempt_congr agree.state.stack (fun loads => ?_) m.devices).symm
      exact agree.state.loaded i.addr fun refers => elsewhere ⟨loads, refers⟩
    have left := step_eq halted decoded
    have right := step_eq running decoded'
    rw [same] at right
    match result : m.state.attempt i m.devices with
    | (devices, .error f) =>
      rw [result] at left right
      exact .failed left right ⟨agree.state, rfl⟩
    | (devices, .ok e) =>
      rw [result] at left right
      exact .done left right ⟨agree.state.apply e, rfl⟩ (State.apply_dest (State.attempt_declared result))

/-- The destination and the operation tell what a step may change; the operands, and the cell that
`rmem` loads, tell which registers it may depend on. -/
theorem step_as_declared (decoded : m.state.decode m.state.program = .ok i) :
    (∀ m', m.step = .done m' →
      (∀ r : Register, i.dest? ≠ some r.val.toUInt16 →
        m'.state.registers.get r = m.state.registers.get r) ∧
      (m'.state.memory = m.state.memory ∨ i.opcode = .wmem ∧
        ∃ cell value, m'.state.memory = m.state.memory.setIfInBounds cell value) ∧
      (m'.state.stack = m.state.stack ∨ (∃ v, m'.state.stack = v :: m.state.stack) ∨
        ∃ v, m.state.stack = v :: m'.state.stack)) ∧
    ∀ (r : Register) (n : Machine), AgreesBut r m n → i.reads r = false →
      ¬(i.opcode = .rmem ∧ m.state.memory[i.second.toNat]? = some r.raw) → StepsAlike r i m n := by
  refine ⟨fun m' done => ?_, fun r n agree unread elsewhere => agree.steps decoded unread elsewhere⟩
  obtain ⟨e, attempt, after⟩ := step_done decoded done
  have declared := State.attempt_declared attempt
  rw [after]
  exact ⟨fun r other => State.apply_register declared other, State.apply_memory declared,
    State.apply_stack m.state e⟩

def loading (v : UInt16) : Machine where
  state :=
    { registers := #v[v, 6, 0, 0, 0, 0, 0, 0]
      memory := Image.memory [15, 0x8000, 3, 0x8001] (by decide) }

theorem step_as_declared_loading :
    ∃ m' n', (loading 5).step = .done m' ∧ (loading 9).step = .done n' ∧
      AgreesBut ⟨0, by decide⟩ m' n' ∧ m'.state.registers.get ⟨0, by decide⟩ = 6 ∧
      n'.state.registers.get ⟨0, by decide⟩ = 6 ∧ m'.state.memory = (loading 5).state.memory := by
  have decoded : (loading 5).state.decode 0 = .ok (.ofOperands 0 .rmem [(0x8000, 0), (3, 3)]) := by
    decide +kernel
  have agree : AgreesBut ⟨0, by decide⟩ (loading 5) (loading 9) :=
    ⟨⟨by decide, rfl, rfl, rfl, rfl⟩, rfl⟩
  have effect : (loading 5).state.effect (.ofOperands 0 .rmem [(0x8000, 0), (3, 3)]) =
      .ok { next := 3, register := some (0, 6) } := by
    decide +kernel
  have step : (loading 5).step =
      .done ⟨(loading 5).state.apply { next := 3, register := some (0, 6) }, {}⟩ := by
    rw [step_eq rfl decoded, State.attempt_of_effect (by decide) (by decide), effect]
    rfl
  obtain ⟨changes, depends⟩ := step_as_declared decoded
  cases depends ⟨0, by decide⟩ (loading 9) agree (by decide) (by decide +kernel) with
  | failed left right agree => simp [step] at left
  | @done m' n' left right agree same =>
    obtain rfl := Outcome.done.inj (step.symm.trans left)
    have kept := (changes _ step).2.1.resolve_right (by simp)
    exact ⟨_, n', step, right, agree, rfl, (same (by decide)).symm, kept⟩

end Machine

end WordMachine
