import WordMachine.Proofs.Machine.Loading
import WordMachine.Proofs.Machine.Step
import WordMachine.Proofs.Modular.Execution

/-! A step of the machine is a step of the machine over words modulo 32768. Input is what
the keyboard has not given yet, queued bytes before those of its source, and output is what
the display has shown. The devices may run out of input and fail in no other way. -/

namespace WordMachine

namespace Devices

def unread (d : Devices) : Bytes :=
  match d.keyboard with
  | some k => k.queue ++ k.source
  | none => []

/-- Devices that fail by the end of input only. -/
structure Reliable (d : Devices) : Prop where
  keyboard : ∀ failure, d.read = .error failure → failure = .endOfInput
  display : ∀ b, (d.write b).2 = none

theorem read_of_unread {d : Devices} {b : UInt8} {rest : Bytes} (left : d.unread = b :: rest) :
    ∃ d', d.read = .ok (b, d') ∧ d'.unread = rest ∧ d'.display = d.display := by
  cases keyboard : d.keyboard with
  | none => simp [unread, keyboard] at left
  | some k =>
    simp only [unread, keyboard] at left
    simp only [read, keyboard, Keyboard.read]
    cases queued : k.queue with
    | nil =>
      rw [queued, List.nil_append] at left
      simp only [left]
      exact ⟨_, rfl, by simp [unread], rfl⟩
    | cons head more =>
      rw [queued, List.cons_append, List.cons.injEq] at left
      obtain ⟨rfl, left⟩ := left
      exact ⟨_, rfl, by simpa [unread] using left, rfl⟩

theorem read_of_unread_nil {d : Devices} (left : d.unread = []) : ∃ failure, d.read = .error failure := by
  cases keyboard : d.keyboard with
  | none => exact ⟨.endOfInput, by simp only [read, keyboard]⟩
  | some k =>
    simp only [unread, keyboard, List.append_eq_nil_iff] at left
    simp only [read, keyboard, Keyboard.read, left]
    exact ⟨_, rfl⟩

theorem write_unread (d : Devices) (b : UInt8) : (d.write b).1.unread = d.unread := by
  rcases d with ⟨k, _ | display⟩ <;> rfl

/-- A byte that is written without failure is the last one shown, if there is a display. -/
theorem write_shown {d : Devices} {b : UInt8} (written : (d.write b).2 = none) {display' : Display}
    (has : (d.write b).1.display = some display') :
    ∃ display, d.display = some display ∧ display'.shown.toList = display.shown.toList ++ [b] := by
  rcases d with ⟨k, _ | display⟩
  · simp [write] at has
  · refine ⟨display, rfl, ?_⟩
    simp only [write, Display.write] at has written
    by_cases full : display.isFull
    · simp [full] at written
    · obtain rfl : { display with shown := display.shown.push b } = display' := by
        simpa [full] using has
      exact Array.toList_push

end Devices

namespace Modular

/-- A machine and its counterpart: the same numbers, the same input ahead, the same output
behind. Without a display nothing is known of the output. -/
structure Corresponds (m : Machine) (c : Config) : Prop where
  state : Represents m.state c
  input : m.devices.unread = c.input
  output : ∀ display, m.devices.display = some display → display.shown.toList = c.output

theorem corresponds_ofState {m : Machine} (wf : m.state.WellFormed) :
    Corresponds m (ofState m.state wf m.devices.unread m.devices.shown.toList) where
  state := represents_ofState wf _ _
  input := rfl
  output display has := by simp only [Devices.shown, has, ofState]

theorem Corresponds.effected {m : Machine} {c c' : Config} {e : Effect} (sim : Corresponds m c)
    (effected : Effected m.state c e c') : Corresponds { m with state := m.state.apply e } c' where
  state := effected.state
  input := sim.input.trans effected.input.symm
  output display has := (sim.output display has).trans effected.output.symm

/-- Two attempts that went the same way: to machines that correspond, or nowhere and for the
same reason. -/
def Agrees {ε : Type} (reason? : ε → Option Failure) (m : Machine) :
    Outcome ε → Except Failure Config → Prop
  | .done m', .ok c' => Corresponds m' c'
  | .failed e m', .error failure => m' = m ∧ reason? e = some failure
  | _, _ => False

theorem outputByte_eq {value : UInt16} {w : Word} (same : value.toNat = w.val) :
    Instruction.outputByte value = Config.shownByte w := by
  have bound : value > 0xFF ↔ 255 < w.val := by
    rw [gt_iff_lt, UInt16.lt_iff_toNat_lt, same]
    rfl
  by_cases large : 255 < w.val
  · rw [Instruction.outputByte, Config.shownByte, if_pos (bound.mpr large), if_neg (by omega)]
    rfl
  · rw [Instruction.outputByte, Config.shownByte, if_neg (mt bound.mp large), if_pos (by omega), ← same]
    exact UInt8.toNat.inj (by simp)

variable {m : Machine} {c : Config} {i : Instruction} {x : Instr} {p : Nat}

theorem out_agrees (sim : Corresponds m c) (reliable : m.devices.Reliable) {a : Word}
    (denotes : Denotes i (.out a)) (goes : (i.addr + i.size).toNat = p) :
    Agrees failure? m (m.execute i) (c.exec p (.out a)) := by
  have shown := outputByte_eq (denotes.first rfl)
  have written := reliable.display (Config.shownByte a)
  have moved := (effected_goto sim.state goes).state
  simp only [Machine.execute, denotes.opcode, Instr.opcode, shown, Config.exec]
  cases attempt : m.devices.write (Config.shownByte a) with
  | mk devices failure =>
    have unread := m.devices.write_unread (Config.shownByte a)
    rw [attempt] at written unread
    simp only at written unread
    subst written
    refine ⟨moved.withDevices _ _, unread.trans sim.input, fun display' has => ?_⟩
    obtain ⟨display, had, appended⟩ := Devices.write_shown (by rw [attempt]) (by rw [attempt]; exact has)
    rw [appended, sim.output display had]

theorem in_agrees (sim : Corresponds m c) (reliable : m.devices.Reliable) {a : Register}
    (denotes : Denotes i (.in a)) (goes : (i.addr + i.size).toNat = p) :
    Agrees failure? m (m.execute i) (c.exec p (.in a)) := by
  simp only [Machine.execute, denotes.opcode, Instr.opcode, Config.exec]
  cases left : c.input with
  | nil =>
    obtain ⟨failure, read⟩ := Devices.read_of_unread_nil (sim.input.trans left)
    obtain rfl := reliable.keyboard failure read
    simp only [read, Agrees, failure?, and_self]
  | cons key rest =>
    obtain ⟨devices, read, unread, display⟩ := Devices.read_of_unread (sim.input.trans left)
    have stored := effected_store (w := ⟨key.toNat, by have := key.toNat_lt; omega⟩) sim.state goes
      (denotes.first rfl) key.toNat_toUInt16
    simp only [read]
    exact ⟨stored.state.withDevices _ _, unread, fun shown has => sim.output shown (display ▸ has)⟩

theorem execute_agrees (sim : Corresponds m c) (reliable : m.devices.Reliable) (denotes : Denotes i x)
    (goes : (i.addr + i.size).toNat = p) : Agrees failure? m (m.execute i) (c.exec p x) := by
  by_cases device : x.opcode.kind = .device
  · cases x <;> cases device
    · exact out_agrees sim reliable denotes goes
    · exact in_agrees sim reliable denotes goes
  have effect := effect_matches sim.state denotes goes device
  have notOut : i.opcode ≠ .out := fun same => device (by rw [← denotes.opcode, same]; rfl)
  have notIn : i.opcode ≠ .in := fun same => device (by rw [← denotes.opcode, same]; rfl)
  rw [Machine.execute_of_effect notOut notIn]
  cases done : m.state.effect i <;> cases exec : c.exec p x <;> rw [done, exec] at effect
  case error.error => exact ⟨rfl, effect⟩
  case error.ok | ok.error => exact effect.elim
  case ok.ok => exact sim.effected effect

end Modular

def StepError.reason? : StepError → Option Modular.Failure
  | halted => some .halted
  | fault f => Modular.failure? f

namespace Modular

theorem step_agrees {m : Machine} {c : Config} (sim : Corresponds m c) (reliable : m.devices.Reliable) :
    Agrees StepError.reason? m m.step c.step := by
  rw [Config.step, ← sim.state.halted]
  cases halted : m.state.halted with
  | true =>
    rw [Machine.step_of_halted halted, if_pos rfl]
    exact ⟨rfl, rfl⟩
  | false =>
    rw [if_neg Bool.false_ne_true]
    have decoded := decode_matches sim.state
    cases read : m.state.decode m.state.program <;> cases instr : c.decode <;>
      rw [read, instr] at decoded
    case error.error =>
      rw [Machine.step_of_decode_error halted read]
      exact ⟨rfl, decoded⟩
    case error.ok | ok.error => exact decoded.elim
    case ok.ok i x =>
      have goes : (i.addr + i.size).toNat = c.program + x.size := by
        rw [State.decode_next read, State.decode_addr read, sim.state.program, decoded.size]
      have agrees := execute_agrees sim reliable decoded goes
      rw [Machine.step_of_decode halted read]
      cases done : m.execute i <;> cases exec : c.exec (c.program + x.size) x <;>
        simp only [done, exec, Except.bind, Outcome.mapError] at agrees ⊢ <;> exact agrees

/-- A step of a well-formed machine and a step of its counterpart: both succeed, and the
machines they lead to correspond again, or both fail for the same reason. -/
theorem step_refines (m : Machine) (wf : m.state.WellFormed) (reliable : m.devices.Reliable) :
    (∃ c, Corresponds m c) ∧ ∀ c, Corresponds m c →
      match c.step with
      | .ok c' => ∃ m', m.step = .done m' ∧ Corresponds m' c'
      | .error failure => ∃ e, m.step = .failed e m ∧ e.reason? = some failure := by
  refine ⟨⟨_, corresponds_ofState wf⟩, fun c sim => ?_⟩
  have agrees := step_agrees sim reliable
  cases done : m.step <;> cases step : c.step <;> rw [done, step] at agrees
  case done.ok m' c' => exact ⟨m', rfl, agrees⟩
  case failed.error e m' failure =>
    obtain ⟨rfl, same⟩ := agrees
    exact ⟨e, rfl, same⟩
  case done.error | failed.ok => exact agrees.elim

def keyed : Machine where
  state := { memory := Image.memory [20, 0x8000] (by decide) }
  devices := { keyboard := some { source := [65] } }

theorem step_refines_keyed :
    keyed.state.WellFormed ∧ keyed.devices.Reliable ∧
      ∃ m', keyed.step = .done m' ∧ (m'.state.registers.get ⟨0, by decide⟩).toNat = 65 ∧
        m'.devices.unread = [] := by
  have wf : keyed.state.WellFormed := State.wellFormed_fresh _
  have reliable : keyed.devices.Reliable :=
    ⟨fun failure read => by simp [keyed, Devices.read, Keyboard.read] at read, fun b => rfl⟩
  refine ⟨wf, reliable, ?_⟩
  obtain ⟨⟨c, sim⟩, refines⟩ := step_refines keyed wf reliable
  have holds : ∀ (k : Word) (raw : UInt16), [(20 : UInt16), 0x8000][k.val]?.getD 0 = raw →
      c.cell k.val = .ok raw := fun k raw listed => by
    rw [Config.cell, dif_pos k.isLt, ← sim.state.memory k, ← listed]
    have short : [(20 : UInt16), 0x8000].length ≤ memorySize := by decide
    exact congrArg Except.ok (Image.memory_getElem short k.isLt)
  have start : c.program = 0 := sim.state.program.symm
  have running : c.halted = false := sim.state.halted.symm
  have ahead : c.input = [65] := sim.input.symm
  have decoded : c.decode = .ok (.in ⟨0, by decide⟩) := by
    have operation := holds 0 20 rfl
    have operand := holds 1 0x8000 rfl
    simp only [Fin.val_zero, Fin.val_one] at operation operand
    simp only [Config.decode, start, operation, Except.bind, UInt16.reduceToNat, Config.instruction,
      Config.dest, Nat.zero_add, operand, bind]
    rfl
  have stepped := refines c sim
  simp only [Config.step, running, decoded, Except.bind, Config.exec, ahead, Bool.false_eq_true,
    if_false] at stepped
  obtain ⟨m', done, next⟩ := stepped
  refine ⟨m', done, (next.state.registers _).trans ?_, next.input⟩
  simp only [Config.goto, Config.store, Function.update_self, UInt8.reduceToNat]

end Modular

end WordMachine
