import WordMachine.Proofs.Debugger.Tracing

/-! Runs in two parts. A run that its limit has stopped goes on as if it had not been stopped:
whatever would have stopped the longer run next stops the second part, at the same place and for
the same reason, and only the count of steps begins anew. This is so although a run treats its
first turn apart, for the pass over a breakpoint that may be pending in front of the first part
is used up by the time the second begins. -/

namespace WordMachine

def Event.after (n : Nat) (e : Event) : Event := { e with steps := n + e.steps }

namespace Debugger

def unlogged (d : Debugger) : Debugger := { d with log := {} }

def Point.after (n : Nat) (traced : Array Traced) (p : Point) : Point :=
  ⟨p.machine, n + p.steps, traced ++ p.traced⟩

def Turn.after (n : Nat) (traced : Array Traced) : Turn → Turn
  | stop s p => .stop s (p.after n traced)
  | go p => .go (p.after n traced)

namespace Plan

variable {plan : Plan} {limit : Option Nat} {n k : Nat} {p q : Point}

def limited (plan : Plan) (limit : Option Nat) : Plan := { plan with limit }

def fresh (plan : Plan) : Plan := { plan with skip := none }

theorem run_add (plan : Plan) (a b : Nat) (p : Point) :
    plan.run (a + b) p =
      match plan.run a p with
      | .stop s q => .stop s q
      | .go q => plan.run b q := by
  induction a generalizing p with
  | zero => rw [Nat.zero_add]; rfl
  | succ a ih =>
    rw [Nat.add_right_comm, run, run]
    cases plan.turn p with
    | stop s q => rfl
    | go q => exact ih q

theorem turn_of_complete (complete : n ≤ p.steps) :
    (plan.limited (some n)).turn p = .stop .step p := by
  simp [turn, stopBefore?, limited, complete]

theorem turn_limited (plan : Plan) (incomplete : limit.any (· ≤ p.steps) = false) :
    (plan.limited limit).turn p = (plan.limited none).turn p := by
  obtain ⟨m, k, traced⟩ := p
  have looked : (plan.limited limit).stopBefore? k m.state.program =
      (plan.limited none).stopBefore? k m.state.program := by
    simp only [stopBefore?, limited, incomplete]
    rfl
  simp only [turn, looked]
  rfl

theorem turn_go (going : plan.turn p = .go q) :
    q.steps = p.steps + 1 ∧ q.machine.state.halted = false := by
  obtain ⟨m, k, traced⟩ := p
  simp only [turn] at going
  split at going
  · simp at going
  · split at going
    · simp at going
    · split at going
      · simp at going
      · split at going
        · simp at going
        · next absent =>
          obtain rfl := Turn.go.inj going
          exact ⟨rfl, running_of_stopAfter? absent⟩

theorem stopBefore?_step {addr : UInt16} (stops : plan.stopBefore? k addr = some .step) :
    plan.limit.any (· ≤ k) = true := by
  unfold stopBefore? at stops
  split at stops
  · assumption
  · split at stops <;> simp at stops

theorem stopAfter?_ne_step (s s' : State) : plan.stopAfter? (plan.sample s) s' ≠ some .step := by
  intro found
  simp only [stopAfter?] at found
  split at found
  · next changed =>
    obtain ⟨index, b, old, new, rfl, -⟩ := changed?_some changed
    simp at found
  · split at found <;> simp at found

theorem failure_ne_step (f : Fault) : failure f ≠ .step := by
  unfold failure
  split <;> simp

theorem turn_stop_step (stops : plan.turn p = .stop .step q) : plan.limit.any (· ≤ p.steps) = true := by
  obtain ⟨m, k, traced⟩ := p
  simp only [turn] at stops
  split at stops
  · next looked =>
    obtain ⟨rfl, -⟩ := Turn.stop.inj stops
    exact stopBefore?_step looked
  · split at stops
    · simp at stops
    · split at stops
      · exact absurd (Turn.stop.inj stops).1 (failure_ne_step _)
      · split at stops
        · next found =>
          obtain ⟨rfl, -⟩ := Turn.stop.inj stops
          exact absurd found (stopAfter?_ne_step _ _)
        · simp at stops

theorem run_complete (plan : Plan) {turns : Nat} (stops : (plan.limited (some n)).run turns p = .stop .step q)
    (within : p.steps ≤ n) (wider : ∀ k < n, limit.any (· ≤ k) = false) :
    q.steps = n ∧ (plan.limited limit).run (n - p.steps) p = .go q := by
  induction turns generalizing p with
  | zero => simp [run] at stops
  | succ turns ih =>
    rw [run] at stops
    obtain complete | incomplete := Nat.eq_or_lt_of_le within
    · rw [turn_of_complete (Nat.le_of_eq complete.symm)] at stops
      obtain ⟨-, rfl⟩ := Turn.stop.inj stops
      rw [complete, Nat.sub_self]
      exact ⟨rfl, rfl⟩
    · have narrow : (some n).any (· ≤ p.steps) = false := by simpa using incomplete
      rw [turn_limited plan narrow] at stops
      cases turned : (plan.limited none).turn p with
      | stop s q' =>
        rw [turned] at stops
        obtain ⟨rfl, -⟩ := Turn.stop.inj stops
        exact absurd (turn_stop_step turned) (by simp [limited])
      | go p' =>
        rw [turned] at stops
        have steps := (turn_go turned).1
        obtain ⟨last, ran⟩ := ih stops (by omega)
        refine ⟨last, ?_⟩
        obtain ⟨rest, more⟩ : ∃ rest, n - p.steps = rest + 1 := ⟨n - p.steps - 1, by omega⟩
        rw [more, run, turn_limited plan (wider p.steps incomplete), turned]
        rwa [show n - p'.steps = rest by omega] at ran

theorem run_stops (plan : Plan) {turns : Nat} (enough : n < p.steps + turns) (within : p.steps ≤ n) :
    ∃ s q, (plan.limited (some n)).run turns p = .stop s q := by
  induction turns generalizing p with
  | zero => omega
  | succ turns ih =>
    rw [run]
    cases turned : (plan.limited (some n)).turn p with
    | stop s q => exact ⟨s, q, rfl⟩
    | go q =>
      have steps := (turn_go turned).1
      have incomplete : ¬n ≤ p.steps := by
        intro complete
        simp [turn_of_complete complete] at turned
      exact ih (by omega) (by omega)

theorem run_go_running {turns : Nat} (running : p.machine.state.halted = false)
    (going : plan.run turns p = .go q) : q.machine.state.halted = false := by
  induction turns generalizing p with
  | zero =>
    obtain rfl := Turn.go.inj going
    exact running
  | succ turns ih =>
    rw [run] at going
    cases turned : plan.turn p with
    | stop s q' => simp [turned] at going
    | go p' =>
      rw [turned] at going
      exact ih (turn_go turned).2 going

theorem trace_append (plan : Plan) (m : Machine) (traced traced' : Array Traced) :
    plan.trace m (traced ++ traced') = traced ++ plan.trace m traced' := by
  simp only [trace]
  cases m.state.decode m.state.program with
  | error f => rfl
  | ok i =>
    dsimp only
    split
    · exact Array.append_push.symm
    · rfl

/-- A turn after `n` steps is a turn of the second part, which has nothing to pass over. -/
theorem turn_after (positive : 0 < n) (traced : Array Traced) (limit : Option Nat)
    (running : p.machine.state.halted = false) :
    (plan.limited (limit.map (n + ·))).turn (p.after n traced) =
      ((plan.limited limit).fresh.turn p).after n traced := by
  obtain ⟨m, k, traced'⟩ := p
  have looked : (plan.limited (limit.map (n + ·))).stopBefore? (n + k) m.state.program =
      (plan.limited limit).fresh.stopBefore? k m.state.program := by
    have complete : (limit.map (n + ·)).any (· ≤ n + k) = limit.any (· ≤ k) := by
      cases limit <;> simp
    have later : n + k ≠ 0 := by omega
    simp only [stopBefore?, limited, fresh, passes, complete, later, reduceCtorEq, decide_false,
      Bool.false_and, Bool.and_false]
    rfl
  have recorded : (plan.limited (limit.map (n + ·))).trace m (traced ++ traced') =
      traced ++ (plan.limited limit).fresh.trace m traced' := trace_append _ _ _ _
  rw [turn_eq _ _ _ running, Point.after, turn_eq _ _ _ running, looked, recorded]
  cases (plan.limited limit).fresh.stopBefore? k m.state.program with
  | some stop => rfl
  | none =>
    cases m.step with
    | failed e m' => rfl
    | done m' =>
      have found : (plan.limited (limit.map (n + ·))).stopAfter?
          ((plan.limited (limit.map (n + ·))).sample m.state) m'.state =
            (plan.limited limit).fresh.stopAfter? ((plan.limited limit).fresh.sample m.state)
              m'.state := rfl
      dsimp only
      rw [found]
      cases (plan.limited limit).fresh.stopAfter? ((plan.limited limit).fresh.sample m.state) m'.state <;> rfl

theorem run_after (plan : Plan) (positive : 0 < n) (traced : Array Traced) (limit : Option Nat) (turns : Nat)
    (running : p.machine.state.halted = false) :
    (plan.limited (limit.map (n + ·))).run turns (p.after n traced) =
      ((plan.limited limit).fresh.run turns p).after n traced := by
  induction turns generalizing p with
  | zero => rfl
  | succ turns ih =>
    rw [run, run, turn_after positive traced limit running]
    cases turned : (plan.limited limit).fresh.turn p with
    | stop s q => rfl
    | go q => exact ih (turn_go turned).2

end Plan

theorem close_unlogged (d : Debugger) (event : Event) (mode : Mode) (resumeAt : Option UInt16) :
    (d.close event mode resumeAt).unlogged = { d.unlogged with mode, resumeAt } := by
  rw [close]
  cases event.stop.error? <;> rfl

theorem stopAt_unlogged (d : Debugger) (plan : Plan) (stop : Stop) (p : Point) :
    (d.stopAt plan stop p).2.unlogged =
      { d.unlogged with
        machine := p.machine, trace := d.trace.map (· ++ p.traced)
        mode := if stop = .halted then .halted else .stopped
        resumeAt := resumption plan d.program stop p } := by
  rw [stopAt, close_unlogged]
  rfl

theorem resumption_after {n : Nat} (positive : 0 < n) (traced : Array Traced) (plan plan' : Plan)
    (start start' : UInt16) (stop : Stop) (p : Point) :
    resumption plan start stop (p.after n traced) = resumption plan'.fresh start' stop p := by
  have later : n + p.steps ≠ 0 := by omega
  have used : plan.passes (n + p.steps) start = false := by
    simp only [Plan.passes, later, decide_false, Bool.false_and]
  have unused : plan'.fresh.passes p.steps start' = false := by simp [Plan.passes, Plan.fresh]
  cases stop <;> simp [resumption, Point.after, used, unused]

/-- `d₁` is what a run of `d` that its limit has stopped after `n` steps leaves, the log apart.
A run with a wider limit, or with none, comes to the same machine and goes on. -/
structure Splits (d d₁ : Debugger) (n : Nat) (m : Machine) (traced : Array Traced) : Prop where
  running : d.machine.state.halted = false
  first : ∀ {limit : Option Nat}, (∀ k < n, limit.any (· ≤ k) = false) →
    (d.planFor limit).run n ⟨d.machine, 0, #[]⟩ = .go ⟨m, n, traced⟩
  left : d₁.unlogged =
    { d.unlogged with
      machine := m, trace := d.trace.map (· ++ traced), mode := .stopped, resumeAt := none }

section Splits

variable {d d₁ : Debugger} {event : Event} {n turns : Nat} {m : Machine} {traced : Array Traced}

theorem splits_of_step (stepped : d.run? (some n) turns = some (event, d₁)) (complete : event.stop = .step) :
    event.steps = n ∧ ∃ m traced, Splits d d₁ n m traced := by
  cases halted : d.machine.state.halted with
  | true =>
    rw [run?, if_pos halted] at stepped
    obtain ⟨rfl, -⟩ := Prod.mk.inj (Option.some.inj stepped)
    simp at complete
  | false =>
    simp only [run?, halted, Bool.false_eq_true, if_false] at stepped
    split at stepped
    · next stop q ran =>
      obtain ⟨rfl, rfl⟩ := Prod.mk.inj (Option.some.inj stepped)
      obtain rfl : stop = .step := complete
      obtain ⟨m, k, traced⟩ := q
      have far {limit : Option Nat} (wider : ∀ k < n, limit.any (· ≤ k) = false) :=
        Plan.run_complete (d.planFor none) ran (Nat.zero_le n) wider
      obtain rfl : k = n := (far fun k _ => Option.any_none).1
      exact ⟨rfl, m, traced, halted, fun wider => (far wider).2, stopAt_unlogged ..⟩
    · simp at stepped

namespace Splits

theorem trace (splits : Splits d d₁ n m traced) (more : Array Traced) :
    d.trace.map (· ++ (traced ++ more)) = d₁.trace.map (· ++ more) := by
  have before : d₁.trace = d.trace.map (· ++ traced) := congrArg Debugger.trace splits.left
  rw [before, Option.map_map]
  congr 1
  funext t
  exact Array.append_assoc.symm

theorem planFor (splits : Splits d d₁ n m traced) (limit : Option Nat) :
    d₁.planFor limit = ((d.planFor none).limited limit).fresh := by
  have same := congrArg (Debugger.planFor · limit) splits.left
  have attached : (d.trace.map (· ++ traced)).isSome = d.trace.isSome := Option.isSome_map
  calc d₁.planFor limit = d₁.unlogged.planFor limit := rfl
    _ = ⟨d.breakpoints, limit, none, d.tracing && (d.trace.map (· ++ traced)).isSome⟩ := same
    _ = ((d.planFor none).limited limit).fresh := by rw [attached]; rfl

theorem run (splits : Splits d d₁ n m traced) (positive : 0 < n) (limit : Option Nat) (turns : Nat) :
    m.state.halted = false ∧
      (d.planFor (limit.map (n + ·))).run (n + turns) ⟨d.machine, 0, #[]⟩ =
        ((d₁.planFor limit).run turns ⟨m, 0, #[]⟩).after n traced := by
  have wider : ∀ k < n, (limit.map (n + ·)).any (· ≤ k) = false := by
    intro k below
    cases limit with
    | none => rfl
    | some m =>
      simp only [Option.map_some, Option.any_some, decide_eq_false_iff_not]
      omega
  have running : m.state.halted = false :=
    Plan.run_go_running (p := ⟨d.machine, 0, #[]⟩) splits.running (splits.first wider)
  have again : (⟨m, n, traced⟩ : Point) = Point.after n traced ⟨m, 0, #[]⟩ := by simp [Point.after]
  rw [Plan.run_add, splits.first wider, splits.planFor]
  dsimp only
  rw [again]
  exact ⟨running, Plan.run_after (p := ⟨m, 0, #[]⟩) (d.planFor none) positive traced limit turns running⟩

theorem run? (splits : Splits d d₁ n m traced) (positive : 0 < n) (limit : Option Nat) (turns : Nat) :
    ((d.run? (limit.map (n + ·)) (n + turns)).map fun r => (r.1, r.2.unlogged)) =
      (d₁.run? limit turns).map fun r => (r.1.after n, r.2.unlogged) := by
  obtain ⟨running, whole⟩ := splits.run positive limit turns
  have machine : d₁.machine = m := congrArg Debugger.machine splits.left
  simp only [Debugger.run?, splits.running, machine, running, Bool.false_eq_true, if_false, whole]
  cases (d₁.planFor limit).run turns ⟨m, 0, #[]⟩ with
  | go p => rfl
  | stop stop p =>
    have resumed := resumption_after positive traced (d.planFor (limit.map (n + ·)))
      ((d.planFor none).limited limit) d.program d₁.program stop p
    simp only [Turn.after, Option.map_some, stopAt_unlogged, splits.left, resumed, splits.planFor]
    rw [← splits.trace]
    rfl

end Splits

end Splits

theorem stepLimit_of_pos {count : Nat} (positive : 1 ≤ count) : stepLimit count = some count := by
  rw [stepLimit, Nat.max_eq_left positive]

theorem step?_returns (d : Debugger) {count turns : Nat} (positive : 1 ≤ count) (enough : count < turns) :
    ∃ r, d.step? count turns = some r := by
  rw [step?, stepLimit_of_pos positive, run?]
  split
  · exact ⟨_, rfl⟩
  · obtain ⟨stop, q, ran⟩ := (d.planFor none).run_stops (p := ⟨d.machine, 0, #[]⟩)
      (by simpa using enough) (Nat.zero_le count)
    have ran' : (d.planFor (some count)).run turns ⟨d.machine, 0, #[]⟩ = .stop stop q := ran
    dsimp only
    rw [ran']
    exact ⟨_, rfl⟩

/-- Steps that were stopped by their number alone are the first steps of every longer run: what
comes after them, be it a number of steps or a run without a limit, returns the event of the
whole with their number taken off, and leaves what the whole would have left, the log apart. -/
theorem stepping_composes {d d₁ : Debugger} {event : Event} {n turns : Nat} (positive : 1 ≤ n)
    (stepped : d.step? n turns = some (event, d₁)) (complete : event.stop = .step) :
    event.steps = n ∧
      (∀ m turns', 1 ≤ m →
        ((d.step? (n + m) (n + turns')).map fun r => (r.1, r.2.unlogged)) =
          (d₁.step? m turns').map fun r => (r.1.after n, r.2.unlogged)) ∧
      (∀ m turns', 1 ≤ m → m < turns' → ∃ r, d₁.step? m turns' = some r) ∧
      ∀ turns', ((d.continue? (n + turns')).map fun r => (r.1, r.2.unlogged)) =
        (d₁.continue? turns').map fun r => (r.1.after n, r.2.unlogged) := by
  rw [step?, stepLimit_of_pos positive] at stepped
  obtain ⟨steps, m, traced, splits⟩ := splits_of_step stepped complete
  refine ⟨steps, fun m turns' positive' => ?_, fun m turns' => d₁.step?_returns, fun turns' => ?_⟩
  · rw [step?, step?, stepLimit_of_pos positive', stepLimit_of_pos (by omega)]
    exact splits.run? positive (some m) turns'
  · exact splits.run? positive none turns'

def idling : Debugger where
  machine := { state := { memory := Image.memory [21, 21, 21] (by decide) } }
  breakpoints := [{ trigger := .address 0 }, { trigger := .address 1 }]
  resumeAt := some 0

theorem stepping_composes_idling :
    ∃ d₁, idling.step? 1 2 = some (⟨.step, 1, 1⟩, d₁) ∧
      ∃ d₂ d₃, d₁.step? 5 6 = some (⟨.breakpoint 1 { trigger := .address 1 }, 1, 0⟩, d₂) ∧
        idling.step? 6 7 = some (⟨.breakpoint 1 { trigger := .address 1 }, 1, 1⟩, d₃) ∧
        d₂.unlogged = d₃.unlogged := by
  have first : (idling.step? 1 2).map Prod.fst = some ⟨.step, 1, 1⟩ := by decide +kernel
  have whole : (idling.step? 6 7).map Prod.fst =
      some ⟨.breakpoint 1 { trigger := .address 1 }, 1, 1⟩ := by decide +kernel
  obtain ⟨⟨_, d₁⟩, stepped, rfl⟩ := Option.map_eq_some_iff.mp first
  obtain ⟨⟨_, d₃⟩, ran, rfl⟩ := Option.map_eq_some_iff.mp whole
  obtain ⟨-, composes, returns, -⟩ := stepping_composes (by decide) stepped rfl
  obtain ⟨⟨event, d₂⟩, ran'⟩ := returns 5 6 (by decide) (by decide)
  have same := composes 5 6 (by decide)
  rw [ran, ran'] at same
  obtain ⟨event', left⟩ := Prod.mk.inj (Option.some.inj same)
  obtain ⟨stop, addr, steps⟩ := event
  simp only [Event.after, Event.mk.injEq, Nat.left_eq_add] at event'
  obtain ⟨rfl, rfl, rfl⟩ := event'
  exact ⟨d₁, stepped, d₂, d₃, ran', ran, left.symm⟩

end Debugger

end WordMachine
