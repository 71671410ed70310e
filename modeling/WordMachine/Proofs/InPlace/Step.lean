import WordMachine.Machine.Image
import WordMachine.Proofs.InPlace.Decoding
import WordMachine.Proofs.Machine.Step
import WordMachine.Proofs.Machine.WellFormed

/-! Steps in place, with devices of any kind. An instruction writes one place after another
as it goes along, yet whatever can fail comes first: a step that fails has written nothing to
the state and taken no byte from the keyboard, in every state, with registers, stack and
program counter in range or not. No access goes past the end of what it indexes. -/

namespace WordMachine

structure Peripherals (κ δ : Type) where
  read : κ → Except DeviceFailure UInt8 × κ
  write : δ → UInt8 → Except DeviceFailure Unit × δ

/-- A read that fails takes nothing. -/
def Peripherals.Quiet {κ δ : Type} (p : Peripherals κ δ) : Prop :=
  ∀ k e, (p.read k).1 = .error e → (p.read k).2 = k

structure Rig (κ δ : Type) where
  state : State
  keyboard : κ
  display : δ

def Devices.peripherals : Peripherals (Option Keyboard) (Option Display) where
  read
    | none => (.error .endOfInput, none)
    | some k =>
      match k.read with
      | .ok (b, k') => (.ok b, some k')
      | .error e => (.error e, some k)
  write
    | none, _ => (.ok (), none)
    | some d, b =>
      match d.write b with
      | (d', none) => (.ok (), some d')
      | (d', some e) => (.error e, some d')

theorem Devices.peripherals_quiet : peripherals.Quiet := by
  intro k e failed
  cases k with
  | none => rfl
  | some k =>
    simp only [peripherals] at failed ⊢
    cases read : k.read with
    | ok taken => simp [read] at failed
    | error e' => rfl

def Machine.rig (m : Machine) : Rig (Option Keyboard) (Option Display) :=
  ⟨m.state, m.devices.keyboard, m.devices.display⟩

def Outcome.run {ε : Type} : Outcome ε → Except ε Unit × Rig (Option Keyboard) (Option Display)
  | done m => (.ok (), m.rig)
  | failed e m => (.error e, m.rig)

/-- What a step from `s` may report: that the machine has come to its end, exactly if it has,
and otherwise a fault at the program counter. -/
def StepError.Fits (s : State) : StepError → Prop
  | .halted => s.halted = true
  | .fault f => s.halted = false ∧ f.addr = s.program

namespace InPlace

variable {κ δ ε α : Type}

def operate (i : Instruction) : InPlace State Fault UInt16 :=
  let a := i.first
  let b := i.second
  let c := i.third
  let next := i.addr + i.size
  let store (value : UInt16) : InPlace State Fault UInt16 := do
    setRegister a.toNat value
    pure next
  match i.opcode with
  | .halt => do
    setHalted true
    pure next
  | .set => store b
  | .push => do
    push a
    pure next
  | .pop => do
    if ← stackIsEmpty then throw (.stackUnderflow i.addr .pop)
    else do
      setRegister a.toNat (← top)
      drop
      pure next
  | .eq => store (Machine.truth (b = c))
  | .gt => store (Machine.truth (b > c))
  | .jmp => pure a
  | .jt => pure (if a ≠ 0 then b else next)
  | .jf => pure (if a = 0 then b else next)
  | .add => store (Machine.addMod b c)
  | .mult => store (Machine.multMod b c)
  | .mod => if c = 0 then throw (.divisionByZero i.addr) else store (b % c)
  | .and => store (Machine.mask (b &&& c))
  | .or => store (Machine.mask (b ||| c))
  | .not => store (Machine.mask (~~~b))
  | .rmem =>
    if memorySize ≤ b.toNat then throw (.outOfBounds i.addr b.toUInt32)
    else do
      let value ← resolve i.addr (← cell b.toNat)
      store value
  | .wmem =>
    if memorySize ≤ a.toNat then throw (.outOfBounds i.addr a.toUInt32)
    else do
      setCell a.toNat b
      pure next
  | .call =>
    if memorySize ≤ next.toNat then throw (.outOfBounds i.addr next.toUInt32)
    else do
      push next
      pure a
  | .ret => do
    if ← stackIsEmpty then throw (.stackUnderflow i.addr .ret)
    else do
      let target ← top
      drop
      pure target
  | .out | .in | .noop => pure next

def advance (i : Instruction) : InPlace State Fault Unit := do
  setProgram (← operate i)

def onState (p : InPlace State ε α) : InPlace (Rig κ δ) ε α :=
  within Rig.state (fun r state => { r with state }) p

def readKey (p : Peripherals κ δ) : InPlace (Rig κ δ) DeviceFailure UInt8 :=
  within Rig.keyboard (fun r keyboard => { r with keyboard })
    (ExceptT.mk fun k => some (p.read k))

def showByte (p : Peripherals κ δ) (b : UInt8) : InPlace (Rig κ δ) DeviceFailure Unit :=
  within Rig.display (fun r display => { r with display })
    (ExceptT.mk fun d => some (p.write d b))

def execute (p : Peripherals κ δ) (i : Instruction) : InPlace (Rig κ δ) Fault Unit :=
  match i.opcode with
  | .out => do
    (showByte p (Instruction.outputByte i.first)).reporting (.device i.addr .display)
    onState (setProgram (i.addr + i.size))
  | .in => do
    let key ← (readKey p).reporting (.device i.addr .keyboard)
    onState (setRegister i.first.toNat (Machine.mask key.toUInt16))
    onState (setProgram (i.addr + i.size))
  | _ => onState (advance i)

def step (p : Peripherals κ δ) : InPlace (Rig κ δ) StepError Unit := do
  if ← look fun r => some r.state.halted then throw .halted
  else do
    let addr ← look fun r => some r.state.program
    let i ← (onState (decode addr)).reporting .fault
    (execute p i).reporting .fault

@[simp] theorem exec_onState (p : InPlace State ε α) (r : Rig κ δ) :
    (onState p).exec r = (p.exec r.state).map fun (result, state) => (result, { r with state }) := rfl

theorem exec_readKey (p : Peripherals κ δ) (r : Rig κ δ) :
    (readKey p).exec r = some ((p.read r.keyboard).1, { r with keyboard := (p.read r.keyboard).2 }) :=
  rfl

theorem exec_showByte (p : Peripherals κ δ) (b : UInt8) (r : Rig κ δ) :
    (showByte p b).exec r =
      some ((p.write r.display b).1, { r with display := (p.write r.display b).2 }) := rfl

def Targets (i : Instruction) : Prop :=
  i.opcode.roles.head? = some .dest → i.first.toNat < registerCount

theorem targets_of_decode {s : State} {addr : UInt16} {i : Instruction}
    (decoded : s.decode addr = .ok i) : Targets i := by
  intro dest
  obtain ⟨raw, valued⟩ := State.decode_value decoded (k := 0) (by rwa [← List.head?_eq_getElem?]) (by omega)
  simp only [State.operandValue] at valued
  split at valued
  · next r _ =>
    have number : r.val.toUInt16 = i.first := Except.ok.inj valued
    rw [← number]
    simpa using Nat.lt_of_le_of_lt (Nat.mod_le _ _) r.isLt
  · simp at valued

/-- The writes of an instruction one by one come to its effect; if it has none, there are none. -/
theorem exec_advance {i : Instruction} (targets : Targets i) (s : State) :
    (advance i).exec s = some (match s.effect i with
      | .ok e => (.ok (), s.apply e)
      | .error f => (.error f, s)) := by
  cases op : i.opcode with
  | halt | push | jmp | out | «in» | noop => simp [advance, operate, State.effect, State.apply, op]
  | set | eq | gt | add | mult | and | or | not =>
    have inside := targets (by simp [op, Opcode.roles])
    simp [advance, operate, State.effect, State.apply, op, inside]
  | jt | jf =>
    by_cases zero : i.first = 0 <;> simp [advance, operate, State.effect, State.apply, op, zero]
  | pop =>
    have inside := targets (by simp [op, Opcode.roles])
    cases stack : s.stack <;>
      simp [advance, operate, State.effect, State.apply, op, stack, inside, top, drop]
  | ret =>
    cases stack : s.stack <;> simp [advance, operate, State.effect, State.apply, op, stack, top, drop]
  | mod =>
    have inside := targets (by simp [op, Opcode.roles])
    by_cases zero : i.third = 0 <;>
      simp [advance, operate, State.effect, State.apply, op, zero, inside]
  | rmem =>
    have inside := targets (by simp [op, Opcode.roles])
    by_cases bound : i.second.toNat < memorySize
    · cases resolved : s.resolve i.addr s.memory[i.second.toNat] <;>
        simp [advance, operate, State.effect, State.fetch, State.apply, op, bound,
          Nat.not_le.mpr bound, exec_resolve, resolved, inside]
    · simp [advance, operate, State.effect, State.fetch, op, bound, Nat.not_lt.mp bound]
  | wmem =>
    by_cases bound : i.first.toNat < memorySize
    · simp [advance, operate, State.effect, State.apply, op, bound, Nat.not_le.mpr bound]
    · simp [advance, operate, State.effect, op, bound, Nat.not_lt.mp bound]
  | call =>
    by_cases bound : (i.addr + i.size).toNat < memorySize
    · simp [advance, operate, State.effect, State.apply, op, bound, Nat.not_le.mpr bound,
        -UInt16.toNat_add]
    · simp [advance, operate, State.effect, op, bound, Nat.not_lt.mp bound, -UInt16.toNat_add]

theorem exec_execute_out (p : Peripherals κ δ) {i : Instruction} (isOut : i.opcode = .out) (r : Rig κ δ) :
    (execute p i).exec r = some (match p.write r.display (Instruction.outputByte i.first) with
      | (.ok _, display) => (.ok (), { r with state := r.state.apply { next := i.addr + i.size }, display })
      | (.error e, display) => (.error (.device i.addr .display e), { r with display })) := by
  simp only [execute, isOut, exec_bind, exec_reporting, exec_showByte]
  obtain ⟨result, display⟩ := p.write r.display (Instruction.outputByte i.first)
  cases result with
  | error e => rfl
  | ok _ => simp [Except.mapError, State.apply]

theorem mask_toUInt16 (key : UInt8) : Machine.mask key.toUInt16 = key.toUInt16 := by
  have small : key.toNat < memorySize := Nat.lt_of_lt_of_le key.toNat_lt (by decide)
  apply UInt16.toNat.inj
  rw [Machine.mask_toNat, UInt8.toNat_toUInt16, Nat.mod_eq_of_lt small]

theorem exec_execute_in (p : Peripherals κ δ) {i : Instruction} (isIn : i.opcode = .in)
    (targets : Targets i) (r : Rig κ δ) :
    (execute p i).exec r = some (match p.read r.keyboard with
      | (.ok key, keyboard) =>
        let e : Effect := { next := i.addr + i.size, register := some (i.first, key.toUInt16) }
        (.ok (), { r with state := r.state.apply e, keyboard })
      | (.error e, keyboard) => (.error (.device i.addr .keyboard e), { r with keyboard })) := by
  have inside := targets (by simp [isIn, Opcode.roles])
  simp only [execute, isIn, exec_bind, exec_reporting, exec_readKey]
  obtain ⟨result, keyboard⟩ := p.read r.keyboard
  cases result with
  | error e => rfl
  | ok key => simp [Except.mapError, State.apply, inside, mask_toUInt16]

theorem exec_execute_of_effect (p : Peripherals κ δ) {i : Instruction} (notOut : i.opcode ≠ .out)
    (notIn : i.opcode ≠ .in) (targets : Targets i) (r : Rig κ δ) :
    (execute p i).exec r = some (match r.state.effect i with
      | .ok e => (.ok (), { r with state := r.state.apply e })
      | .error f => (.error f, r)) := by
  unfold execute
  split
  · contradiction
  · contradiction
  · rw [exec_onState, exec_advance targets]
    cases r.state.effect i <;> rfl

/-- An instruction runs to its end with every access in range. If it fails, state and keyboard
are as before and the fault is its own. -/
theorem execute_atomic {p : Peripherals κ δ} (quiet : p.Quiet) {i : Instruction} (targets : Targets i)
    (r : Rig κ δ) :
    ∃ result after, (execute p i).exec r = some (result, after) ∧
      ∀ f, result = .error f → after.state = r.state ∧ after.keyboard = r.keyboard ∧ f.addr = i.addr := by
  by_cases isOut : i.opcode = .out
  · rw [exec_execute_out p isOut]
    refine ⟨_, _, rfl, ?_⟩
    obtain ⟨result, display⟩ := p.write r.display (Instruction.outputByte i.first)
    intro f failed
    cases result with
    | ok _ => simp at failed
    | error e => exact ⟨rfl, rfl, Except.error.inj failed ▸ rfl⟩
  · by_cases isIn : i.opcode = .in
    · rw [exec_execute_in p isIn targets]
      refine ⟨_, _, rfl, ?_⟩
      have unread := quiet r.keyboard
      generalize p.read r.keyboard = reading at unread
      obtain ⟨result, keyboard⟩ := reading
      intro f failed
      cases result with
      | ok key => simp at failed
      | error e => exact ⟨rfl, unread e rfl, Except.error.inj failed ▸ rfl⟩
    · rw [exec_execute_of_effect p isOut isIn targets]
      refine ⟨_, _, rfl, ?_⟩
      intro f failed
      cases worked : r.state.effect i with
      | ok e => simp [worked] at failed
      | error f' =>
        simp only [worked] at failed ⊢
        exact ⟨trivial, trivial, Except.error.inj failed ▸ (State.effect_fault worked).1⟩

theorem exec_step_of_halted (p : Peripherals κ δ) {r : Rig κ δ} (halted : r.state.halted = true) :
    (step p).exec r = some (.error .halted, r) := by
  simp [step, halted]

theorem exec_step_of_decode_error (p : Peripherals κ δ) {r : Rig κ δ} {f : Fault}
    (running : r.state.halted = false) (refused : r.state.decode r.state.program = .error f) :
    (step p).exec r = some (.error (.fault f), r) := by
  simp [step, running, exec_decode, refused, Except.mapError]

theorem exec_step_of_decode (p : Peripherals κ δ) {r : Rig κ δ} {i : Instruction}
    (running : r.state.halted = false) (decoded : r.state.decode r.state.program = .ok i) :
    (step p).exec r = ((execute p i).reporting .fault).exec r := by
  simp [step, running, exec_decode, decoded, Except.mapError]

theorem step_runs {p : Peripherals κ δ} (quiet : p.Quiet) (r : Rig κ δ) :
    ∃ result after, (step p).exec r = some (result, after) ∧
      ∀ e, result = .error e → after.state = r.state ∧ after.keyboard = r.keyboard ∧ e.Fits r.state := by
  cases halted : r.state.halted with
  | true =>
    rw [exec_step_of_halted p halted]
    exact ⟨_, _, rfl, fun e failed => ⟨rfl, rfl, Except.error.inj failed ▸ halted⟩⟩
  | false =>
    cases decoded : r.state.decode r.state.program with
    | error f =>
      rw [exec_step_of_decode_error p halted decoded]
      have located := (State.decode_fault decoded).1
      exact ⟨_, _, rfl, fun e failed => ⟨rfl, rfl, Except.error.inj failed ▸ ⟨halted, located⟩⟩⟩
    | ok i =>
      obtain ⟨result, after, ran, kept⟩ := execute_atomic quiet (targets_of_decode decoded) r
      rw [exec_step_of_decode p halted decoded, exec_reporting, ran]
      refine ⟨_, _, rfl, ?_⟩
      intro e failed
      cases result with
      | ok _ => simp [Except.mapError] at failed
      | error f =>
        obtain ⟨state, keyboard, addr⟩ := kept f rfl
        have same : StepError.fault f = e := Except.error.inj failed
        exact ⟨state, keyboard, same ▸ ⟨halted, addr.trans (State.decode_addr decoded)⟩⟩

theorem exec_execute_rig (m : Machine) {i : Instruction} (targets : Targets i) :
    (execute Devices.peripherals i).exec m.rig = some (m.execute i).run := by
  obtain ⟨state, ⟨keyboard, display⟩⟩ := m
  by_cases isOut : i.opcode = .out
  · rw [exec_execute_out _ isOut]
    simp only [Machine.execute, isOut, Machine.rig, Devices.peripherals, Devices.write]
    cases display with
    | none => rfl
    | some d =>
      dsimp only
      obtain ⟨d', failure⟩ := d.write (Instruction.outputByte i.first)
      cases failure <;> rfl
  · by_cases isIn : i.opcode = .in
    · rw [exec_execute_in _ isIn targets]
      simp only [Machine.execute, isIn, Machine.rig, Devices.peripherals, Devices.read]
      cases keyboard with
      | none => rfl
      | some k =>
        dsimp only
        cases k.read <;> rfl
    · rw [exec_execute_of_effect _ isOut isIn targets, Machine.execute_of_effect isOut isIn]
      simp only [Machine.rig]
      cases state.effect i <;> rfl

theorem exec_step_rig (m : Machine) : (step Devices.peripherals).exec m.rig = some m.step.run := by
  cases halted : m.state.halted with
  | true => rw [exec_step_of_halted _ halted, Machine.step_of_halted halted]; rfl
  | false =>
    cases decoded : m.state.decode m.state.program with
    | error f =>
      rw [exec_step_of_decode_error _ halted decoded, Machine.step_of_decode_error halted decoded]; rfl
    | ok i =>
      rw [exec_step_of_decode _ halted decoded, Machine.step_of_decode halted decoded, exec_reporting,
        exec_execute_rig m (targets_of_decode decoded)]
      cases m.execute i <;> rfl

end InPlace

namespace Machine

/-- Failing steps are atomic: with the machine's own devices, where the step in place is the
step, and with all devices that take nothing when a read fails. -/
theorem step_atomic (m : Machine) :
    (InPlace.step Devices.peripherals).exec m.rig = some m.step.run ∧
      (∀ e m', m.step = .failed e m' →
        m'.state = m.state ∧ m'.devices.keyboard = m.devices.keyboard ∧ e.Fits m.state) ∧
      ∀ (κ δ : Type) (p : Peripherals κ δ), p.Quiet → ∀ (keyboard : κ) (display : δ),
        ∃ result after, (InPlace.step p).exec ⟨m.state, keyboard, display⟩ = some (result, after) ∧
          ∀ e, result = .error e →
            after.state = m.state ∧ after.keyboard = keyboard ∧ e.Fits m.state := by
  refine ⟨InPlace.exec_step_rig m, fun e m' failed => ?_,
    fun κ δ p quiet keyboard display => InPlace.step_runs quiet ⟨m.state, keyboard, display⟩⟩
  obtain ⟨result, after, ran, kept⟩ := InPlace.step_runs Devices.peripherals_quiet m.rig
  rw [InPlace.exec_step_rig, failed] at ran
  obtain ⟨rfl, rfl⟩ := Prod.mk.inj (Option.some.inj ran)
  exact kept e rfl

def unflushed : Machine where
  state :=
    { registers := Vector.replicate registerCount 0xFFFF
      stack := [0xFFFF]
      memory := Image.memory [19, 0x8000] (by decide) }
  devices := { display := some { flushFailure := some [] } }

theorem unflushed_step :
    ∃ m', unflushed.step = .failed (.fault (.device 0 .display (.reported []))) m' ∧
      m'.devices.shown = #[63] := by
  have decoded : unflushed.state.decode 0 = .ok (.ofOperands 0 .out [(0x8000, 0xFFFF)]) := rfl
  exact ⟨_, (step_of_decode rfl decoded).trans rfl, rfl⟩

theorem step_atomic_unflushed :
    Devices.peripherals.Quiet ∧
      (∃ e m', unflushed.step = .failed e m' ∧ m'.devices.shown = #[63] ∧
        m'.state = unflushed.state ∧ m'.devices.keyboard = unflushed.devices.keyboard ∧
        e.Fits unflushed.state) ∧
      ∃ result after, (InPlace.step Devices.peripherals).exec unflushed.rig = some (result, after) ∧
        ∀ e, result = .error e → after.state = unflushed.state := by
  refine ⟨Devices.peripherals_quiet, ?_, ?_⟩
  · obtain ⟨m', failed, shown⟩ := unflushed_step
    exact ⟨_, m', failed, shown, (step_atomic unflushed).2.1 _ m' failed⟩
  · obtain ⟨result, after, ran, kept⟩ := (step_atomic unflushed).2.2 _ _ Devices.peripherals
      Devices.peripherals_quiet unflushed.devices.keyboard unflushed.devices.display
    exact ⟨result, after, ran, fun e failed => (kept e failed).1⟩

end Machine

end WordMachine
