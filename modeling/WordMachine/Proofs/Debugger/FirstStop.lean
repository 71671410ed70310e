import WordMachine.Proofs.Debugger.Operation
import WordMachine.Proofs.Debugger.Triggers
import WordMachine.Proofs.Machine.Loading
import WordMachine.Proofs.Machine.Step

/-! A run stops at the first reason there is. The states that a run goes through are those of
the machine stepping on its own, and each reason is a condition on one of them, or on two in
a row. Where several reasons meet, they count in a fixed order: a watch that has changed, a
machine that has halted, the number of steps being complete, a breakpoint, and a step that
fails. Without a reason at any number of steps, a run does not return. -/

namespace WordMachine

def StepError.isStall : StepError → Bool
  | halted => false
  | fault f => f.isStall

namespace Stop

/-- The order in which reasons count. -/
def rank : Stop → Nat
  | watch _ _ _ _ => 0
  | halted => 1
  | step => 2
  | breakpoint _ _ => 3
  | fault _ | stalled _ => 4
  | alreadyHalted | cancelled => 5

def leaves (m : Machine) : Stop → Machine
  | fault _ | stalled _ => m.step.machine
  | _ => m

theorem leaves_of_rank (m : Machine) {stop : Stop} (early : stop.rank < 4) : stop.leaves m = m := by
  cases stop <;> simp [rank] at early <;> rfl

end Stop

namespace Debugger

open Breakpoint

/-- The reasons to stop a run that has completed `k` steps and come to a machine. -/
inductive StopsAt (d : Debugger) (limit : Option Nat) : (k : Nat) → Machine → Stop → Prop
  | watch {k : Nat} {m m' : Machine} {index : Nat} {b : Breakpoint} {old new : UInt16}
      (before : d.machine.reached k = some m)
      (changes : Changes d.breakpoints m.state m'.state index b old new)
      (least : ∀ j < index, ∀ b old new, ¬Changes d.breakpoints m.state m'.state j b old new) :
      StopsAt d limit (k + 1) m' (.watch index b old new)
  | halted {k : Nat} {m : Machine} (ended : m.state.halted = true) : StopsAt d limit (k + 1) m .halted
  | step {k : Nat} {m : Machine} (complete : limit = some k) : StopsAt d limit k m .step
  | breakpoint {k : Nat} {m : Machine} {index : Nat} {b : Breakpoint}
      (sits : Sits d.breakpoints m.state.program index b)
      (least : ∀ j < index, ∀ b, ¬Sits d.breakpoints m.state.program j b)
      (visited : ¬(k = 0 ∧ d.resumeAt = some m.state.program)) :
      StopsAt d limit k m (.breakpoint index b)
  | stalled {k : Nat} {m m' : Machine} {e : StepError} (fails : m.step = .failed e m')
      (stall : e.isStall = true) : StopsAt d limit k m (.stalled e)
  | fault {k : Nat} {m m' : Machine} {e : StepError} (fails : m.step = .failed e m')
      (final : e.isStall = false) : StopsAt d limit k m (.fault e)

/-- The first reason: at no smaller number of steps is there any, and at this one none that
counts before it. -/
structure FirstStop (d : Debugger) (limit : Option Nat) (k : Nat) (m : Machine) (stop : Stop) :
    Prop where
  reached : d.machine.reached k = some m
  holds : StopsAt d limit k m stop
  first : ∀ other, StopsAt d limit k m other → stop.rank ≤ other.rank
  least : ∀ j < k, ∀ m' other, d.machine.reached j = some m' → ¬StopsAt d limit j m' other

section Reasons

variable {d : Debugger} {limit : Option Nat} {k : Nat} {m : Machine} {stop : Stop}

theorem StopsAt.leaves_state (stops : StopsAt d limit k m stop) : (stop.leaves m).state = m.state := by
  cases stops with
  | stalled fails _ | fault fails _ =>
    simp only [Stop.leaves, fails, Outcome.machine]
    exact Machine.step_failed_state fails
  | _ => rfl

theorem StopsAt.eq_of_rank {other : Stop} (stops : StopsAt d limit k m stop)
    (stops' : StopsAt d limit k m other) (same : stop.rank = other.rank) : stop = other := by
  cases stops <;> cases stops' <;> simp only [Stop.rank, reduceCtorEq, Nat.reduceEqDiff] at same
  case watch.watch before changes least _ _ _ _ _ before' changes' least' =>
    obtain rfl := Option.some.inj (before.symm.trans before')
    obtain ⟨rfl, rfl, rfl, rfl⟩ := changes.unique least changes' least'
    rfl
  case halted.halted | step.step => rfl
  case breakpoint.breakpoint sits least _ _ _ sits' least' _ =>
    obtain ⟨rfl, rfl⟩ := sits.unique least sits' least'
    rfl
  case stalled.stalled _ fails _ _ _ fails' | fault.fault _ fails _ _ _ fails' =>
    rw [fails, Outcome.failed.injEq] at fails'
    rw [fails'.1]
  case stalled.fault stall fails _ _ final fails' | fault.stalled final fails _ _ stall fails' =>
    rw [fails, Outcome.failed.injEq] at fails'
    obtain ⟨rfl, -⟩ := fails'
    simp [stall] at final

theorem FirstStop.unique {k' : Nat} {m' : Machine} {stop' : Stop}
    (first : FirstStop d limit k m stop) (first' : FirstStop d limit k' m' stop') :
    k = k' ∧ m = m' ∧ stop = stop' := by
  obtain below | rfl | above := Nat.lt_trichotomy k k'
  · exact absurd first.holds (first'.least k below m stop first.reached)
  · obtain rfl : m = m' := Option.some.inj (first.reached.symm.trans first'.reached)
    have same := Nat.le_antisymm (first.first _ first'.holds) (first'.first _ first.holds)
    exact ⟨rfl, rfl, first.holds.eq_of_rank first'.holds same⟩
  · exact absurd first'.holds (first.least k' above m' stop' first'.reached)

def failing (e : StepError) : Stop := if e.isStall then .stalled e else .fault e

def Plan.trace (plan : Plan) (m : Machine) (traced : Array Traced) : Array Traced :=
  match m.state.decode m.state.program with
  | .ok i => if plan.tracing then traced.push ⟨i, m.devices.shown.size⟩ else traced
  | .error _ => traced

/-- A turn makes the very step that the machine would make on its own. -/
theorem Plan.turn_eq (plan : Plan) (k : Nat) (traced : Array Traced)
    (running : m.state.halted = false) :
    plan.turn ⟨m, k, traced⟩ =
      match plan.stopBefore? k m.state.program with
      | some stop => .stop stop ⟨m, k, traced⟩
      | none =>
        match m.step with
        | .failed e m' => .stop (failing e) ⟨m', k, plan.trace m traced⟩
        | .done m' =>
          match plan.stopAfter? (plan.sample m.state) m'.state with
          | some stop => .stop stop ⟨m', k + 1, plan.trace m traced⟩
          | none => .go ⟨m', k + 1, plan.trace m traced⟩ := by
  simp only [turn]
  cases plan.stopBefore? k m.state.program with
  | some stop => rfl
  | none =>
    cases decoded : m.state.decode m.state.program with
    | error f =>
      rw [Machine.step_of_decode_error running decoded]
      simp only [failing, StepError.isStall, (State.decode_fault decoded).2, trace, decoded]
      rfl
    | ok i =>
      rw [Machine.step_of_decode running decoded]
      simp only [trace, decoded]
      cases m.execute i with
      | failed f m' => rfl
      | done m' => rfl

theorem complete_iff (within : ∀ n, limit = some n → k ≤ n) :
    (d.planFor limit).limit.any (· ≤ k) = true ↔ limit = some k := by
  cases limit with
  | none => simp [planFor]
  | some n =>
    have bound := within n rfl
    simp only [planFor, Option.any_some, decide_eq_true_eq, Option.some.injEq]
    omega

theorem passes_iff {addr : UInt16} :
    (d.planFor limit).passes k addr = true ↔ k = 0 ∧ d.resumeAt = some addr := by
  rw [Plan.passes, Bool.and_eq_true]
  exact and_congr decide_eq_true_iff decide_eq_true_iff

/-! Each reason that is ruled out leaves those that count after it. -/

theorem StopsAt.one_le {m' : Machine} (stops : StopsAt d limit (k + 1) m' stop)
    (before : d.machine.reached k = some m)
    (unchanged : ∀ index b old new, ¬Changes d.breakpoints m.state m'.state index b old new) :
    1 ≤ stop.rank := by
  cases stops with
  | watch before' changes =>
    obtain rfl := Option.some.inj (before.symm.trans before')
    exact absurd changes (unchanged _ _ _ _)
  | halted | step | breakpoint | stalled | fault => simp [Stop.rank]

theorem StopsAt.two_le (stops : StopsAt d limit k m stop) (going : m.state.halted = false)
    (late : 1 ≤ stop.rank) : 2 ≤ stop.rank := by
  cases stops with
  | halted ended => simp [going] at ended
  | watch => simp [Stop.rank] at late
  | step | breakpoint | stalled | fault => simp [Stop.rank]

theorem StopsAt.three_le (stops : StopsAt d limit k m stop) (incomplete : limit ≠ some k)
    (late : 2 ≤ stop.rank) : 3 ≤ stop.rank := by
  cases stops with
  | step complete => exact absurd complete incomplete
  | watch | halted => simp [Stop.rank] at late
  | breakpoint | stalled | fault => simp [Stop.rank]

theorem StopsAt.four_le (stops : StopsAt d limit k m stop)
    (free : ∀ index b, Sits d.breakpoints m.state.program index b →
      k = 0 ∧ d.resumeAt = some m.state.program)
    (late : 3 ≤ stop.rank) : 4 ≤ stop.rank := by
  cases stops with
  | breakpoint sits _ visited => exact absurd (free _ _ sits) visited
  | watch | halted | step => simp [Stop.rank] at late
  | stalled | fault => simp [Stop.rank]

theorem stopBefore?_some (within : ∀ n, limit = some n → k ≤ n)
    (found : (d.planFor limit).stopBefore? k m.state.program = some stop) :
    StopsAt d limit k m stop ∧ stop.rank < 4 ∧
      ∀ other, StopsAt d limit k m other → 2 ≤ other.rank → stop.rank ≤ other.rank := by
  rw [Plan.stopBefore?] at found
  by_cases complete : limit = some k
  · rw [if_pos ((complete_iff within).mpr complete)] at found
    obtain rfl := Option.some.inj found
    exact ⟨.step complete, by decide, fun _ _ late => late⟩
  · rw [if_neg (mt (complete_iff within).mp complete)] at found
    by_cases passed : k = 0 ∧ d.resumeAt = some m.state.program
    · rw [if_pos (passes_iff.mpr passed)] at found
      simp at found
    · rw [if_neg (mt passes_iff.mp passed)] at found
      obtain ⟨⟨index, b⟩, sits, rfl⟩ := Option.map_eq_some_iff.mp found
      obtain ⟨sits, least⟩ := Plan.addressBreak?_some sits
      refine ⟨.breakpoint sits least passed, by simp [Stop.rank], fun _ stops late => ?_⟩
      exact stops.three_le complete late

theorem stopBefore?_none (within : ∀ n, limit = some n → k ≤ n)
    (absent : (d.planFor limit).stopBefore? k m.state.program = none) :
    limit ≠ some k ∧ ∀ other, StopsAt d limit k m other → 2 ≤ other.rank → 4 ≤ other.rank := by
  rw [Plan.stopBefore?] at absent
  by_cases complete : limit = some k
  · rw [if_pos ((complete_iff within).mpr complete)] at absent
    simp at absent
  · rw [if_neg (mt (complete_iff within).mp complete)] at absent
    refine ⟨complete, fun other stops late => stops.four_le ?_ (stops.three_le complete late)⟩
    intro index b sits
    by_contra visited
    rw [if_neg (mt passes_iff.mp visited), Option.map_eq_none_iff] at absent
    exact Plan.addressBreak?_none absent index b sits

theorem stopAfter?_some {m' : Machine} (before : d.machine.reached k = some m)
    (found : (d.planFor limit).stopAfter? ((d.planFor limit).sample m.state) m'.state = some stop) :
    StopsAt d limit (k + 1) m' stop ∧ stop.rank < 4 ∧
      ∀ other, StopsAt d limit (k + 1) m' other → stop.rank ≤ other.rank := by
  simp only [Plan.stopAfter?] at found
  split at found
  · next stop' changed =>
    obtain ⟨index, b, old, new, rfl, changes, least⟩ := Plan.changed?_some changed
    obtain rfl := Option.some.inj found
    exact ⟨.watch before changes least, by simp [Stop.rank], fun _ _ => Nat.zero_le _⟩
  · next unchanged =>
    split at found
    · next ended =>
      obtain rfl := Option.some.inj found
      exact ⟨.halted ended, by decide,
        fun _ stops => stops.one_le before (Plan.changed?_none unchanged)⟩
    · simp at found

theorem stopAfter?_none {m' : Machine} (before : d.machine.reached k = some m)
    (absent : (d.planFor limit).stopAfter? ((d.planFor limit).sample m.state) m'.state = none) :
    m'.state.halted = false ∧ ∀ other, StopsAt d limit (k + 1) m' other → 2 ≤ other.rank := by
  simp only [Plan.stopAfter?] at absent
  split at absent
  · simp at absent
  · next unchanged =>
    split at absent
    · simp at absent
    · next going =>
      have running : m'.state.halted = false := by simpa using going
      exact ⟨running, fun _ stops =>
        stops.two_le running (stops.one_le before (Plan.changed?_none unchanged))⟩

/-- A run has come to a number of steps without a reason to stop: none before, and here
none of those that are looked for after an instruction. -/
structure Passed (d : Debugger) (limit : Option Nat) (k : Nat) (m : Machine) : Prop where
  reached : d.machine.reached k = some m
  running : m.state.halted = false
  within : ∀ n, limit = some n → k ≤ n
  quiet : ∀ stop, StopsAt d limit k m stop → 2 ≤ stop.rank
  least : ∀ j < k, ∀ m' stop, d.machine.reached j = some m' → ¬StopsAt d limit j m' stop

theorem passed_start (running : d.machine.state.halted = false) : Passed d limit 0 d.machine where
  reached := rfl
  running := running
  within _ _ := Nat.zero_le _
  quiet stop stops := by cases stops <;> simp [Stop.rank]
  least j below := absurd below (Nat.not_lt_zero j)

theorem failing_stops {m' : Machine} {e : StepError} (fails : m.step = .failed e m') :
    StopsAt d limit k m (failing e) ∧ (failing e).rank = 4 ∧ (failing e).leaves m = m' := by
  unfold failing
  split
  · next stall => exact ⟨.stalled fails stall, rfl, by simp [Stop.leaves, fails, Outcome.machine]⟩
  · next final =>
    exact ⟨.fault fails (by simpa using final), rfl, by simp [Stop.leaves, fails, Outcome.machine]⟩

theorem Passed.none_at {m' : Machine} (passed : Passed d limit k m)
    (absent : (d.planFor limit).stopBefore? k m.state.program = none) (done : m.step = .done m') :
    ∀ j < k + 1, ∀ m' stop, d.machine.reached j = some m' → ¬StopsAt d limit j m' stop := by
  intro j below other stop at' stops
  obtain earlier | rfl := Nat.lt_succ_iff_lt_or_eq.mp below
  · exact passed.least j earlier other stop at' stops
  · obtain rfl : m = other := Option.some.inj (passed.reached.symm.trans at')
    have failed := (stopBefore?_none passed.within absent).2 stop stops (passed.quiet stop stops)
    cases stops with
    | stalled fails | fault fails => simp [done] at fails
    | watch | halted | step | breakpoint => simp [Stop.rank] at failed

/-- One turn stops at the first reason, or there is none up to the next instruction. -/
theorem turn_passed (passed : Passed d limit k m) (traced : Array Traced) :
    (∃ k' m' stop q, (d.planFor limit).turn ⟨m, k, traced⟩ = .stop stop q ∧
        FirstStop d limit k' m' stop ∧ q.machine = stop.leaves m' ∧ q.steps = k') ∨
      ∃ m' traced', (d.planFor limit).turn ⟨m, k, traced⟩ = .go ⟨m', k + 1, traced'⟩ ∧
        Passed d limit (k + 1) m' := by
  rw [Plan.turn_eq _ k traced passed.running]
  -- what is found before the instruction belongs to `k` steps, what is found after it to `k + 1`
  cases looked : (d.planFor limit).stopBefore? k m.state.program with
  | some stop =>
    obtain ⟨stops, rank, first⟩ := stopBefore?_some passed.within looked
    refine .inl ⟨k, m, stop, _, rfl, ⟨passed.reached, stops, ?_, passed.least⟩, ?_, rfl⟩
    · exact fun other stops' => first other stops' (passed.quiet other stops')
    · rw [Stop.leaves_of_rank m rank]
  | none =>
    obtain ⟨incomplete, late⟩ := stopBefore?_none passed.within looked
    cases attempt : m.step with
    | failed e m' =>
      obtain ⟨stops, rank, leaves⟩ := failing_stops attempt
      refine .inl ⟨k, m, failing e, _, rfl, ⟨passed.reached, stops, ?_, passed.least⟩, leaves.symm, rfl⟩
      intro other stops'
      rw [rank]
      exact late other stops' (passed.quiet other stops')
    | done m' =>
      have least := passed.none_at looked attempt
      have reached := Machine.reached_succ passed.reached attempt
      dsimp only
      cases after : (d.planFor limit).stopAfter? ((d.planFor limit).sample m.state) m'.state with
      | some stop =>
        obtain ⟨stops, rank, first⟩ := stopAfter?_some passed.reached after
        refine .inl ⟨k + 1, m', stop, _, rfl, ⟨reached, stops, first, least⟩, ?_, rfl⟩
        rw [Stop.leaves_of_rank m' rank]
      | none =>
        obtain ⟨running, quiet⟩ := stopAfter?_none passed.reached after
        refine .inr ⟨m', _, rfl, reached, running, fun n limited => ?_, quiet, least⟩
        have bound := passed.within n limited
        have other : n ≠ k := fun same => incomplete (same ▸ limited)
        omega

theorem run_passed (passed : Passed d limit k m) (turns : Nat) (traced : Array Traced) :
    (∃ k' m' stop q, (d.planFor limit).run turns ⟨m, k, traced⟩ = .stop stop q ∧
        FirstStop d limit k' m' stop ∧ q.machine = stop.leaves m' ∧ q.steps = k') ∨
      ∃ q, (d.planFor limit).run turns ⟨m, k, traced⟩ = .go q ∧
        ∀ j < k + turns, ∀ m' stop, d.machine.reached j = some m' → ¬StopsAt d limit j m' stop := by
  induction turns generalizing k m traced with
  | zero => exact .inr ⟨_, rfl, passed.least⟩
  | succ turns ih =>
    rw [Plan.run]
    obtain ⟨k', m', stop, q, turned, first⟩ | ⟨m', traced', turned, passed'⟩ :=
      turn_passed passed traced
    · rw [turned]
      exact .inl ⟨k', m', stop, q, rfl, first⟩
    · rw [turned]
      rw [← Nat.add_assoc, Nat.add_right_comm]
      exact ih passed' traced'

end Reasons

inductive Advance where
  | proceed
  | step (count : Nat)
  deriving DecidableEq, Repr

def Advance.limit : Advance → Option Nat
  | proceed => none
  | step count => some (if count = 0 then 1 else count)

def advance? (d : Debugger) (turns : Nat) : Advance → Option (Event × Debugger)
  | .proceed => d.continue? turns
  | .step count => d.step? count turns

theorem advance?_eq (d : Debugger) (turns : Nat) (advance : Advance) :
    d.advance? turns advance = d.run? advance.limit turns := by
  cases advance with
  | proceed => rfl
  | step count =>
    have limit : stepLimit count = some (if count = 0 then 1 else count) := by
      rw [stepLimit, Option.some.injEq]
      split <;> omega
    rw [advance?, step?, limit, Advance.limit]

theorem run?_cases (d : Debugger) (limit : Option Nat) (turns : Nat)
    (running : d.machine.state.halted = false) :
    (∃ k m stop d', d.run? limit turns = some (⟨stop, m.state.program, k⟩, d') ∧
        FirstStop d limit k m stop ∧ d'.machine = stop.leaves m ∧ d'.machine.state = m.state) ∨
      d.run? limit turns = none ∧
        ∀ j < turns, ∀ m stop, d.machine.reached j = some m → ¬StopsAt d limit j m stop := by
  have start : Passed d limit 0 d.machine := passed_start running
  rw [run?, if_neg (by simp [running])]
  dsimp only
  obtain ⟨k, m, stop, q, ran, first, machine, rfl⟩ | ⟨q, ran, never⟩ := run_passed start turns #[]
  · have state : q.machine.state = m.state := machine ▸ first.holds.leaves_state
    refine .inl ⟨_, m, stop, (d.stopAt (d.planFor limit) stop q).2, ?_, first, ?_, ?_⟩
    · simp only [ran, stopAt, state]
    · rw [stopAt_machine, machine]
    · rw [stopAt_machine, state]
  · rw [ran]
    exact .inr ⟨rfl, by simpa using never⟩

/-- A machine that has not halted goes on until the first reason to stop, and stops there with
the state it has reached. Where there is no reason, it goes on for ever. -/
theorem advance_first_stop (d : Debugger) (running : d.machine.state.halted = false)
    (advance : Advance) :
    (∀ k m stop, FirstStop d advance.limit k m stop → ∀ turns, k < turns →
        ∃ d', d.advance? turns advance = some (⟨stop, m.state.program, k⟩, d') ∧
          d'.machine = stop.leaves m ∧ d'.machine.state = m.state) ∧
      ((∃ k m stop, FirstStop d advance.limit k m stop) ∨
        (∀ k m stop, d.machine.reached k = some m → ¬StopsAt d advance.limit k m stop) ∧
          ∀ turns, d.advance? turns advance = none) := by
  constructor
  · intro k m stop first turns enough
    rw [advance?_eq]
    obtain ⟨k', m', stop', d', ran, first', machine, state⟩ | ⟨-, never⟩ :=
      d.run?_cases advance.limit turns running
    · obtain ⟨rfl, rfl, rfl⟩ := first.unique first'
      exact ⟨d', ran, machine, state⟩
    · exact absurd first.holds (never k enough m stop first.reached)
  · by_cases found : ∃ k m stop, FirstStop d advance.limit k m stop
    · exact .inl found
    · have never : ∀ turns, d.run? advance.limit turns = none ∧ ∀ j < turns, ∀ m stop,
          d.machine.reached j = some m → ¬StopsAt d advance.limit j m stop := fun turns => by
        obtain ⟨k, m, stop, _, -, first, -⟩ | never := d.run?_cases advance.limit turns running
        · exact absurd ⟨k, m, stop, first⟩ found
        · exact never
      refine .inr ⟨fun k m stop => (never (k + 1)).2 k (Nat.lt_succ_self k) m stop, fun turns => ?_⟩
      rw [advance?_eq]
      exact (never turns).1

def watched : Debugger where
  machine := { state := { memory := Image.memory [1, 0x8000, 5] (by decide) } }
  breakpoints := [{ trigger := .address 3 }, { trigger := .register ⟨0, by decide⟩ }]

def watchedNext : Machine :=
  { watched.machine with
    state := watched.machine.state.apply { next := 3, register := some (0, 5) } }

theorem watched_step : watched.machine.step = .done watchedNext := by
  have fetched : ∀ (k : Nat) (raw : UInt16), k < memorySize →
      [(1 : UInt16), 0x8000, 5][k]?.getD 0 = raw → watched.machine.state.fetch 0 k = .ok raw := by
    intro k raw inside listed
    have short : [(1 : UInt16), 0x8000, 5].length ≤ memorySize := by decide
    rw [State.fetch, dif_pos inside, ← listed]
    exact congrArg Except.ok (Image.memory_getElem short inside)
  have read : watched.machine.state.operands 0 Opcode.set.roles 0 = .ok [(0x8000, 0), (5, 5)] := by
    have first := fetched ((0 : UInt16).toNat + 0 + 1) 0x8000 (by decide) rfl
    have second := fetched ((0 : UInt16).toNat + (0 + 1) + 1) 5 (by decide) rfl
    simp only [Opcode.roles, State.operands, State.operandAt, first, second]
    rfl
  have decoded := State.decode_of_operands (fetched 0 1 (by decide) rfl) rfl read
  rw [Machine.step_of_decode rfl decoded]
  rfl

theorem advance_first_stop_watched :
    watched.machine.state.halted = false ∧
      ∃ d', watched.advance? 2 .proceed =
          some (⟨.watch 1 { trigger := .register ⟨0, by decide⟩ } 0 5, 3, 1⟩, d') ∧
        d'.machine.state.program = 3 := by
  refine ⟨rfl, ?_⟩
  have first : FirstStop watched none 1 watchedNext
      (.watch 1 { trigger := .register ⟨0, by decide⟩ } 0 5) := by
    refine ⟨Machine.reached_succ rfl watched_step, .watch rfl ?_ ?_, fun _ _ => Nat.zero_le _, ?_⟩
    · exact ⟨rfl, rfl, rfl, rfl, by decide⟩
    · intro j below b old new changes
      obtain rfl : j = 0 := by omega
      obtain rfl : { trigger := .address 3 } = b := Option.some.inj changes.listed
      exact absurd changes.before (by simp [Trigger.value?])
    · intro j below m stop reached stops
      obtain rfl : j = 0 := by omega
      obtain rfl : watched.machine = m := Option.some.inj reached
      cases stops with
      | step complete => simp at complete
      | breakpoint sits =>
        have listed := List.mem_of_getElem? sits.listed
        have waits := sits.waits
        simp only [watched, List.mem_cons, List.not_mem_nil, or_false] at listed waits
        obtain rfl | rfl := listed
        · exact absurd waits (by decide)
        · simp at waits
      | stalled fails | fault fails => simp [watched_step] at fails
  obtain ⟨d', ran, -, state⟩ := (advance_first_stop watched rfl .proceed).1 _ _ _ first 2 (by decide)
  exact ⟨d', ran, by rw [state]; rfl⟩

end Debugger

end WordMachine
