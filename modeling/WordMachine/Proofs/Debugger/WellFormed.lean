import WordMachine.Proofs.Debugger.Operation
import WordMachine.Proofs.Machine.Loading

/-! Whatever is loaded and whatever a program and its operator do, the state stays
well-formed. A history begins with a reset or with anything that can be loaded, and goes
on with operations of the debugger, with steps of the machine alone, and with devices
being exchanged at any time. -/

namespace WordMachine.Debugger

def Turn.point : Turn → Point
  | stop _ p => p
  | go p => p

theorem Plan.turn_wellFormed (plan : Plan) {p : Point} (wf : p.machine.state.WellFormed) :
    (plan.turn p).point.machine.state.WellFormed := by
  simp only [Plan.turn]
  split
  · exact wf
  · split
    · exact wf
    · next i decoded =>
      have kept := Machine.execute_wellFormed wf decoded
      cases attempt : p.machine.execute i with
      | failed f m => simpa [Turn.point, attempt, Outcome.machine] using kept
      | done m =>
        have wf : m.state.WellFormed := by simpa [attempt, Outcome.machine] using kept
        dsimp only
        split <;> exact wf

theorem Plan.run_wellFormed (plan : Plan) (turns : Nat) {p : Point}
    (wf : p.machine.state.WellFormed) : (plan.run turns p).point.machine.state.WellFormed := by
  induction turns generalizing p with
  | zero => exact wf
  | succ turns ih =>
    have kept := plan.turn_wellFormed wf
    simp only [Plan.run]
    split
    · next turned => simpa [turned, Turn.point] using kept
    · next turned =>
      apply ih
      simpa [turned, Turn.point] using kept

theorem runFor_wellFormed {d : Debugger} (limit : Option Nat) (turns : Nat)
    (wf : d.machine.state.WellFormed) : (d.runFor limit turns).2.machine.state.WellFormed := by
  have kept := (d.planFor limit).run_wellFormed turns (p := ⟨d.machine, 0, #[]⟩) wf
  simp only [runFor]
  split
  · simpa [stopHalted] using wf
  · split <;> next ran => simpa [ran, Turn.point] using kept

theorem perform_wellFormed {d d' : Debugger} {op : Operation} (wf : d.machine.state.WellFormed)
    (done : d.perform op = .ok d') : d'.machine.state.WellFormed := by
  cases performed_of_ok done with
  | proceed turns => exact runFor_wellFormed none turns wf
  | step count turns => exact runFor_wellFormed (stepLimit count) turns wf
  | setBreakpoint | setWatch | setMemoryWatch => rwa [addTrigger_machine]
  | remove | enable | clear | save => exact wf
  | @writeRegister n r value log known word =>
    refine ⟨fun other => ?_, wf.stack, wf.program⟩
    change (d.machine.state.registers.set r value).get other ≤ wordMax
    rw [get_registers, Vector.getElem_set]
    split
    · exact word
    · exact wf.registers other
  | writeMemory inside word => exact ⟨wf.registers, wf.stack, wf.program⟩
  | jump inside => exact ⟨wf.registers, wf.stack, Nat.le_of_lt inside⟩
  | image asked read => exact Machine.loadImage_wellFormed read
  | snapshot asked read => exact Machine.loadSaved_wellFormed read

theorem after_wellFormed {d : Debugger} (op : Operation) (wf : d.machine.state.WellFormed) :
    (d.after op).machine.state.WellFormed := by
  cases performed : d.perform op with
  | error e => exact (after_of_error performed).symm ▸ wf
  | ok d' => exact (after_of_ok performed).symm ▸ perform_wellFormed wf performed

/-- Debuggers that a history can lead to. What stands beside the machine at the beginning
of a history is arbitrary. -/
inductive Reachable : Debugger → Prop
  | reset (d : Debugger) : Reachable (d.setState {})
  | words {d : Debugger} {m : Machine} {words : List UInt16}
      (loaded : d.machine.loadWords words = .ok m) : Reachable { d with machine := m }
  | image {d : Debugger} {m : Machine} {bytes : Bytes}
      (loaded : d.machine.loadImage bytes = .ok m) : Reachable { d with machine := m }
  | saved {d : Debugger} {m : Machine} {bytes : Bytes}
      (loaded : d.machine.loadSaved bytes = .ok m) : Reachable { d with machine := m }
  | attach {d : Debugger} (devices : Devices) (before : Reachable d) :
      Reachable { d with machine := { d.machine with devices } }
  | stepped {d : Debugger} (before : Reachable d) :
      Reachable { d with machine := d.machine.step.machine }
  | performed {d : Debugger} (op : Operation) (before : Reachable d) : Reachable (d.after op)
  | ran {d d' : Debugger} {limit : Option Nat} {turns : Nat} {event : Event} (before : Reachable d)
      (stopped : d.run? limit turns = some (event, d')) : Reachable d'

/-- Every state that can be reached is well-formed, and the address after a decoded
instruction never wraps. -/
theorem reachable_wellFormed {d : Debugger} (history : Reachable d) :
    d.machine.state.WellFormed ∧
      ∀ addr i, d.machine.state.decode addr = .ok i →
        (i.addr + i.size).toNat = i.addr.toNat + i.size.toNat := by
  refine ⟨?_, fun addr i decoded => State.decode_next decoded⟩
  induction history with
  | reset d => exact State.wellFormed_fresh _
  | words loaded => exact Machine.loadWords_wellFormed loaded
  | image loaded => exact Machine.loadImage_wellFormed loaded
  | saved loaded => exact Machine.loadSaved_wellFormed loaded
  | attach devices before wf => exact wf
  | stepped before wf => exact Machine.step_wellFormed wf
  | performed op before wf => exact after_wellFormed op wf
  | @ran d d' limit turns event before stopped wf =>
    have kept := runFor_wellFormed limit turns wf
    rwa [runFor_of_run? stopped] at kept

def summing : Debugger :=
  (({} : Debugger).setState {}).after
    (.loadImage [9, 0, 0, 0x80, 0xFF, 0x7F, 2, 0, 2, 0, 0, 0x80, 21, 0])

def summed : Debugger :=
  Debugger.after { summing with machine := summing.machine.step.machine } (.writeMemory 6 0)

theorem reachable_wellFormed_summed :
    ∃ d, summed.run? none 3 = some (⟨.halted, 7, 2⟩, d) ∧ Reachable d ∧ d.machine.state.WellFormed ∧
      d.program = 7 ∧ d.machine.state.stack = [1] := by
  have loaded : Reachable summing := .performed _ (.reset {})
  have edited : Reachable summed := .performed _ (.stepped loaded)
  have ran : (summed.run? none 3).map (fun r => (r.1, r.2.program, r.2.machine.state.stack)) =
      some (⟨.halted, 7, 2⟩, 7, [1]) := by decide +kernel
  obtain ⟨⟨event, d⟩, stopped, same⟩ := Option.map_eq_some_iff.mp ran
  obtain ⟨rfl, program, stack⟩ : event = ⟨.halted, 7, 2⟩ ∧ d.program = 7 ∧ d.machine.state.stack = [1] := by
    simpa using same
  have history : Reachable d := .ran edited stopped
  exact ⟨d, stopped, history, (reachable_wellFormed history).1, program, stack⟩

end WordMachine.Debugger
