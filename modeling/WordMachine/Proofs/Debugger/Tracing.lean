import WordMachine.Proofs.Debugger.FirstStop
import WordMachine.Proofs.Debugger.WellFormed

/-! What a trace shows, and that nothing else depends on it. A debugger that traces and one that
does not run alike and leave all but the trace alike. The trace of a run has a line for each
instruction that was completed, in order, each as it was decoded in front of its execution; an
instruction that was decoded and then failed has a line too. -/

namespace WordMachine

/-- A machine completes instructions one after the other, each of them decoded in the state
that the one before it has left. -/
inductive Machine.Executes : Machine → List Instruction → Machine → Prop
  | nil (m : Machine) : Executes m [] m
  | cons {m m' m'' : Machine} {i : Instruction} {rest : List Instruction}
      (decoded : m.state.decode m.state.program = .ok i) (done : m.step = .done m')
      (following : Executes m' rest m'') : Executes m (i :: rest) m''

namespace Stop

def attempted? (m : Machine) : Stop → Option Instruction
  | fault _ | stalled _ => (m.state.decode m.state.program).toOption
  | _ => none

theorem attempted?_of_rank (m : Machine) {stop : Stop} (early : stop.rank < 4) :
    stop.attempted? m = none := by
  cases stop <;> simp [rank] at early <;> rfl

end Stop

namespace Debugger

open Machine (Executes)

def untraced (d : Debugger) : Debugger := { d with tracing := false, trace := none }

def Point.untraced (p : Point) : Point := { p with traced := #[] }

def Turn.untraced : Turn → Turn
  | stop s p => .stop s p.untraced
  | go p => .go p.untraced

def Turn.reason : Turn → Stop
  | stop s _ => s
  | go _ => .cancelled

namespace Plan

def untraced (plan : Plan) : Plan := { plan with tracing := false }

theorem turn_untraced (plan : Plan) (p : Point) :
    plan.untraced.turn p.untraced = (plan.turn p).untraced := by
  obtain ⟨m, k, traced⟩ := p
  simp only [turn, Point.untraced]
  have before : plan.untraced.stopBefore? k m.state.program = plan.stopBefore? k m.state.program := rfl
  rw [before]
  cases plan.stopBefore? k m.state.program with
  | some stop => rfl
  | none =>
    cases m.state.decode m.state.program with
    | error f => rfl
    | ok i =>
      dsimp only
      cases m.execute i with
      | failed f m' => rfl
      | done m' =>
        have after : plan.untraced.stopAfter? (plan.untraced.sample m.state) m'.state =
            plan.stopAfter? (plan.sample m.state) m'.state := rfl
        dsimp only
        rw [after]
        cases plan.stopAfter? (plan.sample m.state) m'.state <;> rfl

theorem run_untraced (plan : Plan) (turns : Nat) (p : Point) :
    plan.untraced.run turns p.untraced = (plan.run turns p).untraced := by
  induction turns generalizing p with
  | zero => rfl
  | succ turns ih =>
    rw [run, run, turn_untraced]
    cases plan.turn p with
    | stop s q => rfl
    | go q => exact ih q

end Plan

theorem close_untraced (d : Debugger) (event : Event) (mode : Mode) (resumeAt : Option UInt16) :
    d.untraced.close event mode resumeAt = (d.close event mode resumeAt).untraced := by
  simp only [close]
  cases event.stop.error? <;> rfl

theorem stopAt_untraced (d : Debugger) (plan : Plan) (stop : Stop) (p : Point) :
    d.untraced.stopAt plan.untraced stop p.untraced =
      ((d.stopAt plan stop p).1, (d.stopAt plan stop p).2.untraced) := by
  simp only [stopAt, ← close_untraced]
  rfl

theorem stopHalted_untraced (d : Debugger) :
    d.untraced.stopHalted = (d.stopHalted.1, d.stopHalted.2.untraced) := by
  simp only [stopHalted, ← close_untraced]
  rfl

theorem run_start_untraced (d : Debugger) (limit : Option Nat) (turns : Nat) :
    (d.untraced.planFor limit).run turns ⟨d.untraced.machine, 0, #[]⟩ =
      ((d.planFor limit).run turns ⟨d.machine, 0, #[]⟩).untraced :=
  Plan.run_untraced (d.planFor limit) turns ⟨d.machine, 0, #[]⟩

theorem run?_untraced (d : Debugger) (limit : Option Nat) (turns : Nat) :
    d.untraced.run? limit turns = (d.run? limit turns).map fun r => (r.1, r.2.untraced) := by
  have sameMachine : d.untraced.machine = d.machine := rfl
  rw [run?, run?, sameMachine]
  split
  · rw [stopHalted_untraced, Option.map_some]
  · dsimp only
    rw [← sameMachine, run_start_untraced, sameMachine]
    cases (d.planFor limit).run turns ⟨d.machine, 0, #[]⟩ with
    | stop stop p => exact congrArg some (stopAt_untraced d (d.planFor limit) stop p)
    | go p => rfl

theorem runFor_eq (d : Debugger) (limit : Option Nat) (turns : Nat)
    (running : d.machine.state.halted = false) :
    d.runFor limit turns =
      d.stopAt (d.planFor limit) ((d.planFor limit).run turns ⟨d.machine, 0, #[]⟩).reason
        ((d.planFor limit).run turns ⟨d.machine, 0, #[]⟩).point := by
  rw [runFor, if_neg (by simp [running])]
  dsimp only
  cases (d.planFor limit).run turns ⟨d.machine, 0, #[]⟩ <;> rfl

theorem runFor_untraced (d : Debugger) (limit : Option Nat) (turns : Nat) :
    d.untraced.runFor limit turns =
      ((d.runFor limit turns).1, (d.runFor limit turns).2.untraced) := by
  cases running : d.machine.state.halted with
  | true =>
    have running' : d.untraced.machine.state.halted = true := running
    rw [runFor, runFor, if_pos running, if_pos running']
    exact stopHalted_untraced d
  | false =>
    have running' : d.untraced.machine.state.halted = false := running
    rw [runFor_eq d.untraced limit turns running', runFor_eq d limit turns running,
      run_start_untraced, ← stopAt_untraced]
    cases (d.planFor limit).run turns ⟨d.machine, 0, #[]⟩ <;> rfl

def Point.instructions (p : Point) : List Instruction := p.traced.toList.map Traced.instruction

/-- Between two points instructions were completed and counted, and all of them were traced;
where the run stopped because an instruction failed, that one was traced as well. -/
def Accounts (p : Point) (stop : Stop) (q : Point) : Prop :=
  ∃ instructions m, Executes p.machine instructions m ∧
    q.steps = p.steps + instructions.length ∧ q.machine = stop.leaves m ∧
    q.instructions = p.instructions ++ instructions ++ (stop.attempted? m).toList

section Accounts

variable {plan : Plan} {m m' : Machine} {k : Nat} {traced : Array Traced} {stop : Stop} {p q : Point}

theorem accounts_refl (left : stop.leaves p.machine = p.machine)
    (untried : stop.attempted? p.machine = none) : Accounts p stop p :=
  ⟨[], p.machine, .nil _, rfl, left.symm, by simp [untried]⟩

theorem Accounts.cons {i : Instruction} {traced' : Array Traced}
    (decoded : m.state.decode m.state.program = .ok i) (done : m.step = .done m')
    (shown : Point.instructions ⟨m', k + 1, traced'⟩ = Point.instructions ⟨m, k, traced⟩ ++ [i])
    (rest : Accounts ⟨m', k + 1, traced'⟩ stop q) : Accounts ⟨m, k, traced⟩ stop q := by
  obtain ⟨instructions, last, executes, steps, machine, all⟩ := rest
  refine ⟨i :: instructions, last, .cons decoded done executes, ?_, machine, ?_⟩
  · rw [steps, List.length_cons, Nat.add_right_comm, Nat.add_assoc]
  · rw [all, shown, List.append_assoc _ [i], List.singleton_append]

namespace Plan

theorem stopBefore?_rank {addr : UInt16} (found : plan.stopBefore? k addr = some stop) :
    stop.rank < 4 := by
  rw [stopBefore?] at found
  split at found
  · obtain rfl := Option.some.inj found
    decide
  · split at found
    · simp at found
    · obtain ⟨⟨index, b⟩, -, rfl⟩ := Option.map_eq_some_iff.mp found
      simp [Stop.rank]

theorem stopAfter?_rank {s s' : State} (found : plan.stopAfter? (plan.sample s) s' = some stop) :
    stop.rank < 4 := by
  simp only [stopAfter?] at found
  split at found
  · next changed =>
    obtain ⟨index, b, old, new, rfl, -⟩ := changed?_some changed
    obtain rfl := Option.some.inj found
    simp [Stop.rank]
  · split at found
    · obtain rfl := Option.some.inj found
      decide
    · simp at found

theorem running_of_stopAfter? {before : List (Option UInt16)} {s : State}
    (absent : plan.stopAfter? before s = none) : s.halted = false := by
  simp only [stopAfter?] at absent
  split at absent
  · simp at absent
  · simpa using absent

theorem instructions_trace (tracing : plan.tracing = true) (m m' : Machine) (k k' : Nat)
    (traced : Array Traced) :
    Point.instructions ⟨m', k', plan.trace m traced⟩ =
      Point.instructions ⟨m, k, traced⟩ ++ (m.state.decode m.state.program).toOption.toList := by
  simp only [Point.instructions, trace, tracing]
  cases m.state.decode m.state.program with
  | error f => simp [Except.toOption]
  | ok i => simp [Except.toOption]

theorem failing_accounts (tracing : plan.tracing = true) {e : StepError}
    (fails : m.step = .failed e m') :
    Accounts ⟨m, k, traced⟩ (failing e) ⟨m', k, plan.trace m traced⟩ := by
  refine ⟨[], m, .nil m, rfl, ?_, ?_⟩
  · unfold failing
    split <;> simp [Stop.leaves, fails, Outcome.machine]
  · rw [instructions_trace tracing m m' k k, List.append_nil]
    unfold failing
    split <;> rfl

theorem turn_accounts (k : Nat) (traced : Array Traced) (tracing : plan.tracing = true)
    (running : m.state.halted = false) :
    (∃ stop q, plan.turn ⟨m, k, traced⟩ = .stop stop q ∧ Accounts ⟨m, k, traced⟩ stop q) ∨
      ∃ m' traced', plan.turn ⟨m, k, traced⟩ = .go ⟨m', k + 1, traced'⟩ ∧
        m'.state.halted = false ∧
        ∀ stop q, Accounts ⟨m', k + 1, traced'⟩ stop q → Accounts ⟨m, k, traced⟩ stop q := by
  rw [turn_eq plan k traced running]
  cases looked : plan.stopBefore? k m.state.program with
  | some stop =>
    have rank := stopBefore?_rank looked
    exact .inl ⟨stop, _, rfl,
      accounts_refl (Stop.leaves_of_rank m rank) (Stop.attempted?_of_rank m rank)⟩
  | none =>
    cases attempt : m.step with
    | failed e m' => exact .inl ⟨failing e, _, rfl, failing_accounts tracing attempt⟩
    | done m' =>
      obtain ⟨i, decoded⟩ : ∃ i, m.state.decode m.state.program = .ok i := by
        cases decoded : m.state.decode m.state.program with
        | ok i => exact ⟨i, rfl⟩
        | error f => simp [Machine.step_of_decode_error running decoded] at attempt
      have shown := instructions_trace tracing m m' k (k + 1) traced
      rw [decoded] at shown
      dsimp only
      cases after : plan.stopAfter? (plan.sample m.state) m'.state with
      | some stop =>
        have rank := stopAfter?_rank after
        exact .inl ⟨stop, _, rfl, .cons decoded attempt shown
          (accounts_refl (Stop.leaves_of_rank m' rank) (Stop.attempted?_of_rank m' rank))⟩
      | none =>
        exact .inr ⟨m', _, rfl, running_of_stopAfter? after, fun stop q rest =>
          .cons decoded attempt shown rest⟩

theorem run_accounts (k : Nat) (traced : Array Traced) (tracing : plan.tracing = true)
    (running : m.state.halted = false) (turns : Nat) :
    Accounts ⟨m, k, traced⟩ (plan.run turns ⟨m, k, traced⟩).reason
      (plan.run turns ⟨m, k, traced⟩).point := by
  induction turns generalizing m k traced with
  | zero => exact accounts_refl rfl rfl
  | succ turns ih =>
    rw [run]
    obtain ⟨stop, q, turned, accounts⟩ | ⟨m', traced', turned, running', earlier⟩ :=
      turn_accounts k traced tracing running
    · rw [turned]
      exact accounts
    · rw [turned]
      exact earlier _ _ (ih _ _ running')

end Plan

end Accounts

@[simp] theorem close_trace (d : Debugger) (event : Event) (mode : Mode) (resumeAt : Option UInt16) :
    (d.close event mode resumeAt).trace = d.trace := by
  rw [close]
  split <;> rfl

/-- With a trace attached, a run writes to it what its instructions are, and keeps what was
there before. -/
theorem runFor_trace {d : Debugger} {before : Array Traced} (tracing : d.tracing = true)
    (attached : d.trace = some before) (limit : Option Nat) (turns : Nat) :
    ∃ instructions m written, Executes d.machine instructions m ∧
      (d.runFor limit turns).1.steps = instructions.length ∧
      (d.runFor limit turns).2.machine = (d.runFor limit turns).1.stop.leaves m ∧
      (d.runFor limit turns).2.trace = some (before ++ written) ∧
      written.toList.map Traced.instruction =
        instructions ++ ((d.runFor limit turns).1.stop.attempted? m).toList := by
  cases running : d.machine.state.halted with
  | true =>
    rw [runFor, if_pos running]
    refine ⟨[], d.machine, #[], .nil _, rfl, close_machine .., ?_, rfl⟩
    simp [stopHalted, attached]
  | false =>
    have traced : (d.planFor limit).tracing = true := by simp [planFor, tracing, attached]
    obtain ⟨instructions, m, executes, steps, machine, all⟩ :=
      Plan.run_accounts 0 #[] traced running turns
    rw [runFor_eq d limit turns running]
    refine ⟨instructions, m, _, executes, ?_, ?_, ?_, all⟩
    · simpa [stopAt] using steps
    · rw [stopAt_machine, machine]
      rfl
    · simp [stopAt, attached]

/-- Debuggers that differ in their traces alone run alike and differ in their traces alone
afterwards. The trace of a run is the text of the instructions that it has completed, in their
order and with the values they had in front of their execution, and of the one that failed
after it was decoded, if this is how the run ended. -/
theorem tracing_observes (d d' : Debugger) (alike : d.untraced = d'.untraced) (advance : Advance)
    (turns : Nat) :
    ((d.advance? turns advance).map fun r => (r.1, r.2.untraced)) =
        ((d'.advance? turns advance).map fun r => (r.1, r.2.untraced)) ∧
      (d.runFor advance.limit turns).1 = (d'.runFor advance.limit turns).1 ∧
      (d.runFor advance.limit turns).2.untraced = (d'.runFor advance.limit turns).2.untraced ∧
      (∀ r, d.advance? turns advance = some r → d.runFor advance.limit turns = r) ∧
      ∀ event after before, d.runFor advance.limit turns = (event, after) → d.tracing = true →
        d.trace = some before →
        ∃ instructions m written, Executes d.machine instructions m ∧
          event.steps = instructions.length ∧ after.machine = event.stop.leaves m ∧
          after.trace = some (before ++ written) ∧
          written.toList.flatMap d.traceLine =
            (instructions ++ (event.stop.attempted? m).toList).flatMap fun i =>
              d.formatInstruction i ++ Bytes.ofString "\n" := by
  refine ⟨?_, ?_, ?_, fun r ran => ?_, fun event after before ran tracing attached => ?_⟩
  · rw [advance?_eq, advance?_eq, ← run?_untraced, ← run?_untraced, alike]
  · have same := congrArg (fun d => (d.runFor advance.limit turns).1) alike
    simpa only [runFor_untraced] using same
  · have same := congrArg (fun d => (d.runFor advance.limit turns).2) alike
    simpa only [runFor_untraced] using same
  · rw [advance?_eq] at ran
    exact runFor_of_run? ran
  · obtain ⟨instructions, m, written, executes, steps, machine, trace, shown⟩ :=
      runFor_trace tracing attached advance.limit turns
    rw [ran] at steps machine trace shown
    refine ⟨instructions, m, written, executes, steps, machine, trace, ?_⟩
    rw [← shown, List.flatMap_map]
    rfl

def waiting : Debugger where
  machine := { state := { memory := Image.memory [19, 65, 20, 0x8000] (by decide) } }
  tracing := true
  trace := some #[]

def waitingUntraced : Debugger := { waiting with tracing := false }

theorem tracing_observes_waiting :
    waiting.untraced = waitingUntraced.untraced ∧
      (waitingUntraced.runFor none 5).1 = ⟨.stalled (.fault (.device 2 .keyboard .endOfInput)), 2, 1⟩ ∧
      (waiting.runFor none 5).1 = ⟨.stalled (.fault (.device 2 .keyboard .endOfInput)), 2, 1⟩ ∧
      ∃ written, (waiting.runFor none 5).2.trace = some written ∧
        written.toList.flatMap waiting.traceLine =
          Bytes.ofString ("0x0000: out 65                   | out 'A'\n" ++
            "0x0002: in r0                    | in r0\n") := by
  have stalls : (waiting.runFor none 5).1 =
      ⟨.stalled (.fault (.device 2 .keyboard .endOfInput)), 2, 1⟩ := by decide +kernel
  have shows : waiting.machine.state.decode waiting.machine.state.program =
      .ok ⟨0, .out, 1, #v[65, 0, 0], #v[65, 0, 0]⟩ := by decide +kernel
  have waits : waiting.machine.step.machine.state.decode waiting.machine.step.machine.state.program =
      .ok ⟨2, .in, 1, #v[0x8000, 0, 0], #v[0, 0, 0]⟩ := by decide +kernel
  obtain ⟨-, event, -, -, shown⟩ := tracing_observes waiting waitingUntraced rfl .proceed 5
  obtain ⟨instructions, m, written, executes, steps, -, trace, text⟩ :=
    shown (waiting.runFor none 5).1 (waiting.runFor none 5).2 #[] rfl rfl rfl
  rw [Array.empty_append] at trace
  refine ⟨rfl, event.symm.trans stalls, stalls, written, trace, ?_⟩
  rw [text]
  rw [stalls] at steps ⊢
  cases executes with
  | nil => simp at steps
  | cons decoded done following =>
    cases following with
    | cons => simp at steps
    | nil =>
      obtain rfl := Except.ok.inj (shows.symm.trans decoded)
      rw [done] at waits
      simp only [Outcome.machine] at waits
      simp only [Stop.attempted?, waits]
      decide +kernel

end Debugger

end WordMachine
