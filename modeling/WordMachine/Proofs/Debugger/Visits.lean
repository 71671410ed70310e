import WordMachine.Proofs.Debugger.Triggers
import WordMachine.Proofs.Debugger.WellFormed
import WordMachine.Proofs.Machine.Step

/-! Breakpoints and the visits of a program to their addresses. A visit to an address lasts while
the program counter stays there and no instruction is completed, no jump made and nothing
loaded. Whatever is asked of a debugger and in whatever order, a visit sees its breakpoint stop
at most once, and no instruction under an enabled breakpoint is completed before that stop.
A run that never returns is covered by its beginnings, each of which is a run that is
cancelled. -/

namespace WordMachine.Debugger

open Breakpoint

inductive Deed where
  | completed
  | moved
  | returned (event : Event)
  | other
  deriving DecidableEq, Repr

/-- Something that happens in a history, and where the program counter and the breakpoints stand
when it does: the instruction there is completed, the program counter is moved by a jump or a
load, a run returns, or anything else is asked, failures included. -/
structure Moment where
  program : UInt16
  breakpoints : List Breakpoint
  deed : Deed
  deriving DecidableEq, Repr

namespace Moment

def ends (m : Moment) : Bool := m.deed = .completed || m.deed = .moved

def stopsFor (addr : UInt16) (m : Moment) : Bool :=
  match m.deed with
  | .returned ⟨.breakpoint _ _, at', _⟩ => at' = addr
  | _ => false

end Moment

def Plan.completes (plan : Plan) : (turns : Nat) → Point → List UInt16
  | 0, _ => []
  | turns + 1, p =>
    match plan.turn p with
    | .go q => p.machine.state.program :: plan.completes turns q
    | .stop _ q => if p.steps < q.steps then [p.machine.state.program] else []

def completedOf (d : Debugger) (limit : Option Nat) (turns : Nat) : List UInt16 :=
  if d.machine.state.halted then []
  else (d.planFor limit).completes turns ⟨d.machine, 0, #[]⟩

def runMoments (d : Debugger) (limit : Option Nat) (turns : Nat) : List Moment :=
  let (event, left) := d.runFor limit turns
  (d.completedOf limit turns).map (⟨·, d.breakpoints, .completed⟩) ++
    [⟨left.program, d.breakpoints, .returned event⟩]

def moves (d : Debugger) (op : Operation) : Bool :=
  match op with
  | .jump _ | .load _ | .loadImage _ | .loadSnapshot _ => (d.perform op).isOk
  | _ => false

inductive Request where
  | operation (op : Operation)
  | attach (devices : Devices)
  deriving DecidableEq, Repr

def answer (d : Debugger) : Request → Debugger
  | .operation op => d.after op
  | .attach devices => { d with machine := { d.machine with devices } }

def moments (d : Debugger) : Request → List Moment
  | .operation (.proceed turns) => d.runMoments none turns
  | .operation (.step count turns) => d.runMoments (stepLimit count) turns
  | .operation op => [⟨d.program, d.breakpoints, if d.moves op then .moved else .other⟩]
  | .attach _ => [⟨d.program, d.breakpoints, .other⟩]

def history (d : Debugger) : List Request → List Moment
  | [] => []
  | r :: more => d.moments r ++ (d.answer r).history more

def afterAll (d : Debugger) (requests : List Request) : Debugger := requests.foldl answer d

/-- A part of a history during which the program counter stays at an address. -/
structure Visit (addr : UInt16) (part : List Moment) : Prop where
  stays : ∀ m ∈ part, m.program = addr
  lasts : ∀ m ∈ part, m.ends = false

theorem visit_append {addr : UInt16} {part part' : List Moment} :
    Visit addr (part ++ part') ↔ Visit addr part ∧ Visit addr part' := by
  constructor
  · rintro ⟨stays, lasts⟩
    simp only [List.mem_append, or_imp, forall_and] at stays lasts
    exact ⟨⟨stays.1, lasts.1⟩, ⟨stays.2, lasts.2⟩⟩
  · rintro ⟨⟨stays, lasts⟩, ⟨stays', lasts'⟩⟩
    constructor <;> simp only [List.mem_append, or_imp, forall_and]
    · exact ⟨stays, stays'⟩
    · exact ⟨lasts, lasts'⟩

theorem visit_singleton {addr : UInt16} {m : Moment} :
    Visit addr [m] ↔ m.program = addr ∧ m.ends = false := by
  constructor
  · rintro ⟨stays, lasts⟩
    simpa using And.intro stays lasts
  · rintro ⟨stays, lasts⟩
    constructor <;> simpa

/-- A history so far, and what is known of the visit that goes on at an address: whether its
breakpoint has stopped a run. -/
structure Followed (past : List Moment) (addr : UInt16) (stopped : Bool) : Prop where
  once : ∀ addr before part after, past = before ++ part ++ after → Visit addr part →
    part.countP (·.stopsFor addr) ≤ 1
  noticed : ∀ before m after, past = before ++ m :: after → m.deed = .completed →
    ∀ index b, Sits m.breakpoints m.program index b →
      ∃ earlier part, before = earlier ++ part ∧ Visit m.program part ∧
        part.any (·.stopsFor m.program) = true
  recent : ∀ addr before part, past = before ++ part → Visit addr part →
    part.countP (·.stopsFor addr) ≤ stopped.toNat
  marked : stopped = true → ∃ before part, past = before ++ part ∧ Visit addr part ∧
    part.any (·.stopsFor addr) = true

theorem followed_nil (addr : UInt16) : Followed [] addr false where
  once addr before part after split _ := by
    simp only [List.nil_eq, List.append_eq_nil_iff] at split
    simp [split.1.2]
  noticed before m after split := by simp at split
  recent addr before part split _ := by
    simp only [List.nil_eq, List.append_eq_nil_iff] at split
    simp [split.2]
  marked stopped := by simp at stopped

section Followed

variable {past : List Moment} {addr : UInt16} {stopped : Bool} {m : Moment}

theorem part_of_snoc {before part : List Moment} (split : past ++ [m] = before ++ part) :
    part = [] ∨ ∃ part', part = part' ++ [m] ∧ past = before ++ part' := by
  obtain rfl | ⟨part', last, rfl⟩ := part.eq_nil_or_concat'
  · exact .inl rfl
  · rw [← List.append_assoc] at split
    obtain ⟨same, last'⟩ := List.append_inj' split rfl
    exact .inr ⟨part', by rw [last'], same⟩

theorem Followed.snoc {addr' : UInt16} {stopped' : Bool} (followed : Followed past addr stopped)
    (noticed : m.deed = .completed → ∀ index b, Sits m.breakpoints m.program index b →
      m.program = addr ∧ stopped = true)
    (recent : ∀ addr before part, past ++ [m] = before ++ part → Visit addr part →
      part.countP (·.stopsFor addr) ≤ stopped'.toNat)
    (marked : stopped' = true → ∃ before part, past ++ [m] = before ++ part ∧ Visit addr' part ∧
      part.any (·.stopsFor addr') = true) : Followed (past ++ [m]) addr' stopped' where
  once addr before part after split visit := by
    obtain rfl | ⟨after', rfl, past'⟩ := part_of_snoc split
    · rw [List.append_nil] at split
      exact Nat.le_trans (recent addr before part split visit) stopped'.toNat_le
    · exact followed.once addr before part after' past' visit
  noticed before other after split completed index b sits := by
    rw [List.append_cons before] at split
    obtain rfl | ⟨after', rfl, past'⟩ := part_of_snoc split
    · rw [List.append_nil] at split
      obtain ⟨rfl, same⟩ := List.append_inj' split rfl
      obtain rfl : m = other := List.singleton_inj.mp same
      obtain ⟨rfl, stopped⟩ := noticed completed index b sits
      exact followed.marked stopped
    · rw [← List.append_cons] at past'
      exact followed.noticed before other after' past' completed index b sits
  recent := recent
  marked := marked

theorem Followed.stay (followed : Followed past addr stopped) (stays : m.program = addr)
    (lasts : m.ends = false) (quiet : ∀ addr, m.stopsFor addr = false) :
    Followed (past ++ [m]) addr stopped := by
  refine followed.snoc (fun completed => ?_) (fun addr before part split visit => ?_) fun stop => ?_
  · simp [Moment.ends, completed] at lasts
  · obtain rfl | ⟨part', rfl, past'⟩ := part_of_snoc split
    · exact Nat.zero_le _
    · have earlier := followed.recent addr before part' past' (visit_append.mp visit).1
      simpa [quiet addr] using earlier
  · obtain ⟨before, part, rfl, visit, seen⟩ := followed.marked stop
    refine ⟨before, part ++ [m], List.append_assoc .., ?_, by simp [seen]⟩
    exact visit_append.mpr ⟨visit, visit_singleton.mpr ⟨stays, lasts⟩⟩

/-- The breakpoint of a visit stops a run for the first time. -/
theorem Followed.stop (followed : Followed past addr false) (stays : m.program = addr)
    (lasts : m.ends = false) (stops : m.stopsFor addr = true) : Followed (past ++ [m]) addr true := by
  refine followed.snoc (fun completed => ?_) (fun addr before part split visit => ?_) fun _ => ?_
  · simp [Moment.ends, completed] at lasts
  · obtain rfl | ⟨part', rfl, past'⟩ := part_of_snoc split
    · exact Nat.zero_le _
    · have earlier := followed.recent addr before part' past' (visit_append.mp visit).1
      have last := List.countP_le_length (p := (·.stopsFor addr)) (l := [m])
      rw [List.countP_append]
      exact Nat.add_le_add earlier last
  · exact ⟨past, [m], rfl, visit_singleton.mpr ⟨stays, lasts⟩, by simp [stops]⟩

theorem Followed.leave (followed : Followed past addr stopped) (ends : m.ends = true)
    (noticed : m.deed = .completed → ∀ index b, Sits m.breakpoints m.program index b →
      m.program = addr ∧ stopped = true) (addr' : UInt16) : Followed (past ++ [m]) addr' false := by
  refine followed.snoc noticed (fun addr before part split visit => ?_) (by simp)
  obtain rfl | ⟨part', rfl, -⟩ := part_of_snoc split
  · exact Nat.zero_le _
  · simp [(visit_singleton.mp (visit_append.mp visit).2).2] at ends

end Followed

def isInterruption : Stop → Bool
  | .fault _ | .stalled _ | .cancelled => true
  | _ => false

namespace Plan

variable {plan : Plan}

theorem stopBefore?_of_passes (bounded : plan.limit ≠ some 0) {k : Nat} {addr : UInt16}
    (passes : plan.passes k addr = true) : plan.stopBefore? k addr = none := by
  have start : k = 0 := by
    simp only [Plan.passes, Bool.and_eq_true, decide_eq_true_eq] at passes
    exact passes.1
  have incomplete : plan.limit.any (· ≤ k) = false := by
    cases limited : plan.limit with
    | none => rfl
    | some n =>
      have positive : n ≠ 0 := fun zero => bounded (zero ▸ limited)
      simp only [Option.any_some, decide_eq_false_iff_not]
      omega
  simp [stopBefore?, incomplete, passes]

theorem passes_of_sits {k : Nat} {addr : UInt16} (absent : plan.stopBefore? k addr = none)
    (index : Nat) (b : Breakpoint) (sits : Sits plan.breakpoints addr index b) :
    plan.passes k addr = true := by
  by_contra passes
  rw [stopBefore?, if_neg passes] at absent
  split at absent
  · simp at absent
  · exact addressBreak?_none (Option.map_eq_none_iff.mp absent) index b sits

theorem turn_cases (bounded : plan.limit ≠ some 0) (p : Point) :
    (∃ stop q, plan.turn p = .stop stop q ∧ q.steps = p.steps ∧
        q.machine.state = p.machine.state ∧
        (plan.passes p.steps p.machine.state.program = true → isInterruption stop = true)) ∨
      ∃ q, (plan.turn p = .go q ∨ ∃ stop, plan.turn p = .stop stop q) ∧ q.steps = p.steps + 1 ∧
        ∀ index b, Sits plan.breakpoints p.machine.state.program index b →
          plan.passes p.steps p.machine.state.program = true := by
  obtain ⟨m, k, traced⟩ := p
  simp only [turn]
  cases looked : plan.stopBefore? k m.state.program with
  | some stop =>
    refine .inl ⟨stop, _, rfl, rfl, rfl, fun passes => ?_⟩
    rw [stopBefore?_of_passes bounded passes] at looked
    simp at looked
  | none =>
    have passed := passes_of_sits looked
    cases m.state.decode m.state.program with
    | error f => exact .inl ⟨_, _, rfl, rfl, rfl, fun _ => rfl⟩
    | ok i =>
      dsimp only
      cases attempt : m.execute i with
      | failed f m' =>
        refine .inl ⟨_, _, rfl, rfl, Machine.execute_failed_state attempt, fun _ => ?_⟩
        unfold failure
        split <;> rfl
      | done m' =>
        dsimp only
        split
        · next stop _ => exact .inr ⟨_, .inr ⟨stop, rfl⟩, rfl, passed⟩
        · exact .inr ⟨_, .inl rfl, rfl, passed⟩

theorem passes_of_steps {k : Nat} (positive : k ≠ 0) (addr : UInt16) : plan.passes k addr = false := by
  simp [Plan.passes, positive]

def completions (plan : Plan) (turns : Nat) (p : Point) : List Moment :=
  (plan.completes turns p).map (⟨·, plan.breakpoints, .completed⟩)

/-- An instruction that is completed ends the visit that the run was in. -/
theorem followed_completed {p q : Point} {past : List Moment} (steps : q.steps = p.steps + 1)
    (passed : ∀ index b, Sits plan.breakpoints p.machine.state.program index b →
      plan.passes p.steps p.machine.state.program = true)
    (followed : Followed past p.machine.state.program
      (plan.passes p.steps p.machine.state.program)) :
    Followed (past ++ [⟨p.machine.state.program, plan.breakpoints, .completed⟩])
      q.machine.state.program (plan.passes q.steps q.machine.state.program) := by
  rw [passes_of_steps (by omega)]
  exact followed.leave rfl (fun _ index b sits => ⟨rfl, passed index b sits⟩) _

theorem run_followed (bounded : plan.limit ≠ some 0) (turns : Nat) {p : Point} {past : List Moment}
    (followed : Followed past p.machine.state.program
      (plan.passes p.steps p.machine.state.program)) :
    ∃ q, (plan.run turns p = .go q ∨ ∃ stop, plan.run turns p = .stop stop q ∧
          (plan.passes q.steps q.machine.state.program = true → isInterruption stop = true)) ∧
      Followed (past ++ plan.completions turns p) q.machine.state.program
        (plan.passes q.steps q.machine.state.program) ∧
      p.steps ≤ q.steps ∧ (q.steps = p.steps → q.machine.state = p.machine.state) := by
  induction turns generalizing p past with
  | zero =>
    refine ⟨p, .inl rfl, ?_, Nat.le_refl _, fun _ => rfl⟩
    rwa [completions, completes, List.map_nil, List.append_nil]
  | succ turns ih =>
    rw [run, completions, completes]
    obtain ⟨stop, q, turned, steps, state, holds⟩ | ⟨q, turned | ⟨stop, turned⟩, steps, passed⟩ :=
      turn_cases bounded p
    · rw [turned]
      dsimp only
      refine ⟨q, .inr ⟨stop, rfl, ?_⟩, ?_, by omega, fun _ => state⟩
      · rwa [steps, state]
      · rwa [if_neg (by omega), List.map_nil, List.append_nil, steps, state]
    · rw [turned]
      obtain ⟨r, ran, rest, later, -⟩ := ih (followed_completed steps passed followed)
      refine ⟨r, ran, ?_, by omega, by omega⟩
      rwa [List.map_cons, List.append_cons]
    · rw [turned]
      dsimp only
      refine ⟨q, .inr ⟨stop, rfl, fun passes => ?_⟩, ?_, by omega, by omega⟩
      · simp [passes_of_steps (show q.steps ≠ 0 by omega)] at passes
      · rw [if_pos (by omega)]
        exact followed_completed steps passed followed

end Plan

/-- A debugger at the end of a history knows what there is to know of the visit that goes on:
the next run passes over a breakpoint exactly if it has stopped one in this visit. -/
structure Kept (past : List Moment) (d : Debugger) : Prop where
  followed : Followed past d.program d.resumeAt.isSome
  resumes : ∀ addr, d.resumeAt = some addr → addr = d.program

section Kept

variable {d : Debugger} {past : List Moment}

theorem Kept.passes (kept : Kept past d) (limit : Option Nat) :
    (d.planFor limit).passes 0 d.program = d.resumeAt.isSome := by
  cases pending : d.resumeAt with
  | none => simp [Plan.passes, planFor, pending]
  | some addr => simp [Plan.passes, planFor, pending, kept.resumes addr pending]

theorem resumption_eq {plan : Plan} {start : UInt16} {stop : Stop} {q : Point}
    (other : ∀ index b, stop ≠ .breakpoint index b)
    (holds : plan.passes q.steps q.machine.state.program = true → isInterruption stop = true)
    (still : q.steps = 0 → q.machine.state.program = start) :
    resumption plan start stop q =
      if plan.passes q.steps q.machine.state.program then some q.machine.state.program else none := by
  have same : plan.passes q.steps start = plan.passes q.steps q.machine.state.program := by
    by_cases steps : q.steps = 0
    · rw [still steps]
    · rw [Plan.passes_of_steps steps, Plan.passes_of_steps steps]
  cases pending : plan.passes q.steps q.machine.state.program with
  | true =>
    have skip : plan.skip = some q.machine.state.program := by
      simp only [Plan.passes, Bool.and_eq_true, decide_eq_true_eq] at pending
      exact pending.2
    have interrupted := holds pending
    cases stop <;> simp only [isInterruption, Bool.false_eq_true] at interrupted <;>
      simp [resumption, same, pending, skip]
  | false =>
    cases stop with
    | breakpoint index b => exact absurd rfl (other index b)
    | fault | stalled | cancelled => simp [resumption, same, pending]
    | watch | step | halted | alreadyHalted => rfl

theorem kept_stopAt {limit : Option Nat} {stop : Stop} {q : Point}
    (followed : Followed past q.machine.state.program
      ((d.planFor limit).passes q.steps q.machine.state.program))
    (holds : (d.planFor limit).passes q.steps q.machine.state.program = true →
      isInterruption stop = true)
    (still : q.steps = 0 → q.machine.state.program = d.program) :
    Kept (past ++ [⟨(d.stopAt (d.planFor limit) stop q).2.program, d.breakpoints,
        .returned (d.stopAt (d.planFor limit) stop q).1⟩])
      (d.stopAt (d.planFor limit) stop q).2 := by
  by_cases stopped : ∃ index b, stop = .breakpoint index b
  · obtain ⟨index, b, rfl⟩ := stopped
    have fresh : (d.planFor limit).passes q.steps q.machine.state.program = false := by
      simpa [isInterruption] using holds
    rw [fresh] at followed
    constructor
    · rw [stopAt_resumeAt, stopAt_program]
      exact followed.stop rfl rfl (by simp [Moment.stopsFor, stopAt])
    · simp [resumption]
  · have other : ∀ index b, stop ≠ .breakpoint index b := fun index b same => stopped ⟨index, b, same⟩
    have pending := resumption_eq other holds still
    constructor
    · rw [stopAt_resumeAt, stopAt_program, pending]
      have known : (if (d.planFor limit).passes q.steps q.machine.state.program then
          some q.machine.state.program else none).isSome =
          (d.planFor limit).passes q.steps q.machine.state.program := by
        split <;> simp_all
      rw [known]
      refine followed.stay rfl rfl fun addr => ?_
      cases stop with
      | breakpoint index b => exact absurd rfl (other index b)
      | _ => rfl
    · intro addr resumes
      rw [stopAt_resumeAt, pending] at resumes
      rw [stopAt_program]
      split at resumes
      · exact (Option.some.inj resumes).symm
      · simp at resumes

theorem kept_runFor {limit : Option Nat} (bounded : limit ≠ some 0) (turns : Nat)
    (kept : Kept past d) : Kept (past ++ d.runMoments limit turns) (d.runFor limit turns).2 := by
  rw [runMoments, completedOf, runFor]
  cases halted : d.machine.state.halted with
  | true =>
    have program : d.stopHalted.2.program = d.program := by simp [stopHalted, program]
    have resumeAt : d.stopHalted.2.resumeAt = d.resumeAt := by simp [stopHalted]
    simp only [if_true, List.map_nil, List.nil_append]
    refine ⟨?_, by rw [program, resumeAt]; exact kept.resumes⟩
    rw [program, resumeAt]
    exact kept.followed.stay rfl rfl fun addr => rfl
  | false =>
    have start : Followed past d.program ((d.planFor limit).passes 0 d.program) :=
      kept.passes limit ▸ kept.followed
    obtain ⟨q, ran, followed, -, still⟩ :=
      Plan.run_followed (p := ⟨d.machine, 0, #[]⟩) bounded turns start
    have same : q.steps = 0 → q.machine.state.program = d.program :=
      fun steps => congrArg State.program (still steps)
    simp only [Bool.false_eq_true, if_false, ← List.append_assoc]
    obtain ran | ⟨stop, ran, holds⟩ := ran
    · rw [ran]
      exact kept_stopAt followed (fun _ => rfl) same
    · rw [ran]
      exact kept_stopAt followed holds same

theorem resumeAt_of_moves {op : Operation} (moved : d.moves op = true) :
    (d.after op).resumeAt = none := by
  cases performed : d.perform op with
  | error e => cases op <;> simp [moves, performed, Except.isOk, Except.toBool] at moved
  | ok d' =>
    rw [after_of_ok performed]
    cases performed_of_ok performed with
    | jump inside => rfl
    | image asked read | snapshot asked read => rfl
    | _ => simp [moves] at moved

/-- What neither runs nor moves leaves the program counter and a pending pass as they are. -/
theorem perform_stays {d' : Debugger} {op : Operation} (done : d.perform op = .ok d')
    (stays : d.moves op = false) (notProceed : ∀ turns, op ≠ .proceed turns)
    (notStep : ∀ count turns, op ≠ .step count turns) :
    d'.program = d.program ∧ d'.resumeAt = d.resumeAt := by
  cases performed_of_ok done with
  | proceed turns => exact absurd rfl (notProceed turns)
  | step count turns => exact absurd rfl (notStep count turns)
  | setBreakpoint | setWatch | setMemoryWatch => simp
  | remove | enable | clear | writeRegister | writeMemory | save => exact ⟨rfl, rfl⟩
  | jump inside => simp [moves, done, Except.isOk, Except.toBool] at stays
  | image asked read | snapshot asked read =>
    obtain rfl | ⟨rfl, -⟩ := asked <;> simp [moves, done, Except.isOk, Except.toBool] at stays

theorem after_stays {op : Operation} (stays : d.moves op = false)
    (notProceed : ∀ turns, op ≠ .proceed turns) (notStep : ∀ count turns, op ≠ .step count turns) :
    (d.after op).program = d.program ∧ (d.after op).resumeAt = d.resumeAt := by
  cases performed : d.perform op with
  | error e => rw [after_of_error performed]; exact ⟨rfl, rfl⟩
  | ok d' =>
    rw [after_of_ok performed]
    exact perform_stays performed stays notProceed notStep

theorem kept_other (kept : Kept past d) {d' : Debugger} (program : d'.program = d.program)
    (resumeAt : d'.resumeAt = d.resumeAt) :
    Kept (past ++ [⟨d.program, d.breakpoints, .other⟩]) d' := by
  refine ⟨?_, by rw [program, resumeAt]; exact kept.resumes⟩
  rw [program, resumeAt]
  exact kept.followed.stay rfl rfl fun addr => rfl

theorem kept_after {op : Operation} (kept : Kept past d) (notProceed : ∀ turns, op ≠ .proceed turns)
    (notStep : ∀ count turns, op ≠ .step count turns) :
    Kept (past ++ [⟨d.program, d.breakpoints, if d.moves op then .moved else .other⟩])
      (d.after op) := by
  cases moved : d.moves op with
  | true =>
    have dropped := resumeAt_of_moves moved
    refine ⟨?_, by simp [dropped]⟩
    rw [dropped]
    exact kept.followed.leave rfl (by simp) _
  | false =>
    obtain ⟨program, resumeAt⟩ := after_stays moved notProceed notStep
    exact kept_other kept program resumeAt

theorem kept_answer (r : Request) (kept : Kept past d) :
    Kept (past ++ d.moments r) (d.answer r) := by
  cases r with
  | attach devices => exact kept_other kept rfl rfl
  | operation op =>
    cases op with
    | proceed turns => exact kept_runFor (by simp) turns kept
    | step count turns =>
      have bounded : stepLimit count ≠ some 0 := by
        simp only [stepLimit, ne_eq, Option.some.injEq]
        omega
      exact kept_runFor bounded turns kept
    | _ => exact kept_after kept (by simp) (by simp)

end Kept

theorem kept_history {d : Debugger} {past : List Moment} (requests : List Request)
    (kept : Kept past d) : Kept (past ++ d.history requests) (d.afterAll requests) := by
  induction requests generalizing d past with
  | nil => simpa [history, afterAll] using kept
  | cons r more ih =>
    rw [history, ← List.append_assoc]
    exact ih (kept_answer r kept)

/-- Whatever is asked of a new debugger: in a visit at most one run stops on the breakpoint of its
address, no instruction under an enabled breakpoint is completed unless such a stop came before
it in the same visit, and what the next run is to pass over is where the program counter is. -/
theorem visits_stop_once (machine : Machine) (log : Log) (requests : List Request) :
    (∀ addr before visit after,
        history { machine, log } requests = before ++ visit ++ after → Visit addr visit →
          visit.countP (·.stopsFor addr) ≤ 1) ∧
      (∀ before m after, history { machine, log } requests = before ++ m :: after →
        m.deed = .completed → ∀ index b, Sits m.breakpoints m.program index b →
          ∃ earlier visit, before = earlier ++ visit ∧ Visit m.program visit ∧
            visit.any (·.stopsFor m.program) = true) ∧
      ((afterAll { machine, log } requests).resumeAt = none ∨
        (afterAll { machine, log } requests).resumeAt =
          some (afterAll { machine, log } requests).program) := by
  have start : Kept [] { machine, log } := ⟨followed_nil _, by simp⟩
  have kept := kept_history requests start
  refine ⟨kept.followed.once, kept.followed.noticed, ?_⟩
  cases pending : (afterAll { machine, log } requests).resumeAt with
  | none => exact .inl rfl
  | some addr => exact .inr (congrArg some (kept.resumes addr pending))

def cancelledBetween : List Request :=
  [.operation (.setBreakpoint 0), .operation (.proceed 1), .operation (.proceed 0),
    .operation (.proceed 1)]

theorem visits_stop_once_cancelled :
    history {} cancelledBetween =
        [⟨0, [], .other⟩,
          ⟨0, [{ trigger := .address 0 }], .returned ⟨.breakpoint 0 { trigger := .address 0 }, 0, 0⟩⟩,
          ⟨0, [{ trigger := .address 0 }], .returned ⟨.cancelled, 0, 0⟩⟩,
          ⟨0, [{ trigger := .address 0 }], .completed⟩,
          ⟨1, [{ trigger := .address 0 }], .returned ⟨.halted, 1, 1⟩⟩] ∧
      ∃ earlier visit, (history {} cancelledBetween).take 3 = earlier ++ visit ∧ Visit 0 visit ∧
        visit.any (·.stopsFor 0) = true :=
  ⟨rfl, (visits_stop_once {} {} cancelledBetween).2.1 _ ⟨0, _, .completed⟩ _ rfl rfl 0 _ ⟨rfl, rfl, rfl⟩⟩

end WordMachine.Debugger
