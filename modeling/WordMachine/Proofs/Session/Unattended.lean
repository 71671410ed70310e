import WordMachine.Proofs.Debugger.FirstStop
import WordMachine.Proofs.Machine.Run
import WordMachine.Session.Prompt

/-! A session that runs without a prompt is the machine running on its own. Breakpoints and
watches cut the run into rounds, and what a round leaves is a machine that the first one
reaches. A round that completes no instruction has stopped on a breakpoint, which the next
round passes over, so the rounds come to the end of the run if it has one. -/

namespace WordMachine

namespace Stop

/-- The reasons to stop that a session without a prompt passes over. -/
def isPassedOver : Stop → Bool
  | breakpoint _ _ | watch _ _ _ _ => true
  | _ => false

end Stop

namespace Debugger

inductive Settles : Stop → Machine → Machine.Ending → Prop
  | halted (m : Machine) : Settles .halted m (.finished m)
  | alreadyHalted (m : Machine) : Settles .alreadyHalted m (.finished m)
  | stalled (e : StepError) (m : Machine) : Settles (.stalled e) m (.failed e m)
  | fault (e : StepError) (m : Machine) : Settles (.fault e) m (.failed e m)

theorem Settles.ends {stop : Stop} {m : Machine} {ending : Machine.Ending}
    (settles : Settles stop m ending) (m' : Machine) : ending ≠ .unfinished m' := by
  cases settles <;> simp

theorem run?_of_halted {d : Debugger} (halted : d.machine.state.halted = true) (limit : Option Nat)
    (turns : Nat) : d.run? limit turns = some d.stopHalted := by
  rw [run?, if_pos halted]

/-- After a breakpoint the next run passes over it. -/
theorem run?_resumeAt {d d' : Debugger} {limit : Option Nat} {turns index k : Nat} {b : Breakpoint}
    {addr : UInt16} (ran : d.run? limit turns = some (⟨.breakpoint index b, addr, k⟩, d')) :
    d'.resumeAt = some d'.program := by
  unfold run? at ran
  split at ran
  · simp [stopHalted] at ran
  · dsimp only at ran
    split at ran
    · next stop p _ =>
      have returned := Option.some.inj ran
      obtain rfl : stop = .breakpoint index b := congrArg (·.1.stop) returned
      have left : (d.stopAt (d.planFor limit) (.breakpoint index b) p).2 = d' :=
        congrArg Prod.snd returned
      rw [← left, stopAt_resumeAt, stopAt_program, resumption]
    · simp at ran

theorem FirstStop.running {d : Debugger} {limit : Option Nat} {k : Nat} {m : Machine} {stop : Stop}
    (first : FirstStop d limit k m stop) (start : d.machine.state.halted = false)
    (late : 2 ≤ stop.rank) : m.state.halted = false := by
  cases k with
  | zero =>
    obtain rfl : d.machine = m := Option.some.inj first.reached
    exact start
  | succ k =>
    cases ended : m.state.halted with
    | false => rfl
    | true =>
      have rank := first.first .halted (.halted ended)
      exact absurd (Nat.le_trans late rank) (by decide)

theorem FirstStop.run_failed {d : Debugger} {limit : Option Nat} {k : Nat} {m m' : Machine}
    {stop : Stop} {e : StepError} (first : FirstStop d limit k m stop)
    (start : d.machine.state.halted = false) (late : 2 ≤ stop.rank) (fails : m.step = .failed e m') :
    d.machine.run (k + 1) = .failed e m' := by
  rw [Machine.run_of_reached first.reached]
  exact Machine.run_of_failed (first.running start late) fails 0

/-- What a round that came to a stop has done. -/
theorem round_cases {d d' : Debugger} {turns : Nat} {event : Event}
    (ran : d.run? none turns = some (event, d')) :
    (∃ fuel ending, Settles event.stop d'.machine ending ∧ d.machine.run fuel = ending) ∨
      event.stop.isPassedOver = true ∧ ∃ k, d.machine.reached k = some d'.machine ∧
        (k = 0 → d.resumeAt ≠ some d.program ∧ d'.resumeAt = some d'.program) := by
  cases halted : d.machine.state.halted with
  | true =>
    rw [run?_of_halted halted] at ran
    obtain ⟨rfl, rfl⟩ := Prod.mk.inj (Option.some.inj ran)
    refine .inl ⟨0, _, .alreadyHalted _, ?_⟩
    rw [close_machine]
    exact Machine.run_of_halted halted 0
  | false =>
    obtain ⟨k, m, stop, left, ran', first, machine, -⟩ | ⟨never, -⟩ := d.run?_cases none turns halted
    · rw [ran'] at ran
      obtain ⟨rfl, rfl⟩ := Prod.mk.inj (Option.some.inj ran)
      have reached := first.reached
      cases first.holds with
      | watch before changes least =>
        rw [← show left.machine = m from machine] at reached
        exact .inr ⟨rfl, _, reached, fun start => absurd start (Nat.succ_ne_zero _)⟩
      | @halted j _ ended =>
        refine .inl ⟨j + 1 + 0, _, .halted _, ?_⟩
        rw [machine]
        exact (Machine.run_of_reached reached 0).trans (Machine.run_of_halted ended 0)
      | step complete => simp at complete
      | breakpoint sits least visited =>
        rw [← show left.machine = m from machine] at reached
        refine .inr ⟨rfl, k, reached, fun start => ?_⟩
        subst start
        obtain rfl : d.machine = m := Option.some.inj first.reached
        exact ⟨fun pending => visited ⟨rfl, pending⟩, run?_resumeAt ran'⟩
      | stalled fails | fault fails =>
        have leaves : left.machine = _ := machine.trans (by rw [Stop.leaves, fails, Outcome.machine])
        refine .inl ⟨k + 1, _, by constructor, ?_⟩
        rw [leaves]
        exact first.run_failed halted (by simp [Stop.rank]) fails
    · simp [never] at ran

theorem round_of_run {d : Debugger} {fuel turns : Nat} (enough : fuel < turns)
    (ends : ∀ m, d.machine.run fuel ≠ .unfinished m) : ∃ r, d.run? none turns = some r := by
  cases halted : d.machine.state.halted with
  | true => exact ⟨_, run?_of_halted halted none turns⟩
  | false =>
    obtain ⟨k, m, stop, left, ran, -⟩ | ⟨-, never⟩ := d.run?_cases none turns halted
    · exact ⟨_, ran⟩
    · obtain ⟨k, m, le, reached, ended, -⟩ | ⟨k, m, e, m', lt, reached, running, fails, -⟩ |
        ⟨m, unfinished⟩ := d.machine.run_cases fuel
      · cases k with
        | zero =>
          obtain rfl : d.machine = m := Option.some.inj reached
          simp [halted] at ended
        | succ k => exact absurd (.halted ended) (never (k + 1) (by omega) m .halted reached)
      · exact absurd (failing_stops fails).1 (never k (by omega) m (failing e) reached)
      · exact absurd unfinished (ends m)

end Debugger

namespace Session

open Debugger

/-- What a session without a prompt returns, against the ending of a run of the machine. -/
inductive Agrees : Machine.Ending → Session × Option Bytes → Prop
  | finished (s : Session) : Agrees (.finished s.debugger.machine) (s, none)
  | failed (e : StepError) (s : Session) (message : Bytes) :
      Agrees (.failed e s.debugger.machine) (s, some message)

theorem adopt_debugger (s : Session) (d : Debugger) :
    (s.adopt d).debugger = { d with trace := d.trace.map fun _ => #[] } := by
  simp only [adopt]
  split <;> rfl

def afterRound (s : Session) (event : Event) (d : Debugger) : Session := (s.adopt d).note event.text

theorem afterRound_machine (s : Session) (event : Event) (d : Debugger) :
    (s.afterRound event d).debugger.machine = d.machine := by
  rw [afterRound, note_debugger, adopt_debugger]

theorem afterRound_resumeAt (s : Session) (event : Event) (d : Debugger) :
    (s.afterRound event d).debugger.resumeAt = d.resumeAt := by
  rw [afterRound, note_debugger, adopt_debugger]

/-- How many breakpoints the next run may stop on before it completes an instruction. -/
def pending (d : Debugger) : Nat := if d.resumeAt = some d.program then 0 else 1

theorem pending_le (d : Debugger) : pending d ≤ 1 := by
  unfold pending
  split <;> omega

theorem afterRound_pending (s : Session) (event : Event) (d : Debugger) :
    pending (s.afterRound event d).debugger = pending d := by
  rw [pending, afterRound_resumeAt, program, afterRound_machine, pending, program]

section Rounds

variable {s : Session} {turns rounds fuel : Nat} {event : Event} {d : Debugger}

theorem runThrough_none (stuck : s.debugger.run? none turns = none) :
    s.runThrough turns (rounds + 1) = none := by
  simp [runThrough, run?, stuck]

theorem runThrough_settled {ending : Machine.Ending}
    (ran : s.debugger.run? none turns = some (event, d)) (settles : Settles event.stop d.machine ending) :
    ∃ r, s.runThrough turns (rounds + 1) = some r ∧ Agrees ending r := by
  have machine : (s.adopt d).debugger.machine = d.machine := by rw [adopt_debugger]
  simp only [runThrough, run?, ran, Option.map_some]
  generalize event.stop = stop at settles
  cases settles with
  | halted | alreadyHalted => exact ⟨_, rfl, machine ▸ .finished _⟩
  | stalled e | fault e => exact ⟨_, rfl, machine ▸ .failed e _ _⟩

theorem runThrough_passed (ran : s.debugger.run? none turns = some (event, d))
    (passed : event.stop.isPassedOver = true) :
    s.runThrough turns (rounds + 1) = (s.afterRound event d).runThrough turns rounds := by
  simp only [runThrough, run?, ran, Option.map_some]
  cases stop : event.stop <;> simp [stop, Stop.isPassedOver] at passed <;> rfl

theorem runThrough_of_run (enough : fuel < turns) (room : 2 * fuel + pending s.debugger < rounds)
    (ends : ∀ m, s.debugger.machine.run fuel ≠ .unfinished m) :
    ∃ r, s.runThrough turns rounds = some r ∧ Agrees (s.debugger.machine.run fuel) r := by
  induction rounds generalizing s fuel with
  | zero => exact absurd room (Nat.not_lt_zero _)
  | succ rounds ih =>
    obtain ⟨⟨event, d⟩, ran⟩ := round_of_run enough ends
    obtain ⟨fuel', ending, settles, ended⟩ | ⟨passed, k, reached, still⟩ := round_cases ran
    · rw [Machine.run_unique ends (ended ▸ settles.ends), ended]
      exact runThrough_settled ran settles
    · rw [runThrough_passed ran passed]
      obtain later | within := Nat.lt_or_ge fuel k
      · obtain ⟨m, unfinished⟩ := Machine.run_of_reached_later reached later
        exact absurd unfinished (ends m)
      · have rest : s.debugger.machine.run fuel = d.machine.run (fuel - k) := by
          rw [← Machine.run_of_reached reached, Nat.add_sub_cancel' within]
        rw [rest, ← afterRound_machine s event d] at ends ⊢
        have fewer : 2 * (fuel - k) + pending (s.afterRound event d).debugger < rounds := by
          rw [afterRound_pending]
          obtain rfl | stepped := Nat.eq_zero_or_pos k
          · obtain ⟨fresh, resumes⟩ := still rfl
            rw [pending, if_neg fresh] at room
            rw [pending, if_pos resumes]
            omega
          · have one := pending_le d
            omega
        exact ih (by omega) fewer ends

theorem run_of_runThrough {r : Session × Option Bytes} (returned : s.runThrough turns rounds = some r) :
    ∃ fuel, Agrees (s.debugger.machine.run fuel) r := by
  induction rounds generalizing s with
  | zero => simp [runThrough] at returned
  | succ rounds ih =>
    cases ran : s.debugger.run? none turns with
    | none => simp [runThrough_none ran] at returned
    | some result =>
      obtain ⟨event, d⟩ := result
      obtain ⟨fuel, ending, settles, ended⟩ | ⟨passed, k, reached, -⟩ := round_cases ran
      · obtain ⟨r', returned', agrees⟩ := runThrough_settled ran settles
        obtain rfl := Option.some.inj (returned.symm.trans returned')
        exact ⟨fuel, ended ▸ agrees⟩
      · rw [runThrough_passed ran passed] at returned
        obtain ⟨fuel, agrees⟩ := ih returned
        rw [afterRound_machine] at agrees
        exact ⟨k + fuel, Machine.run_of_reached reached fuel ▸ agrees⟩

end Rounds

/-- A session without a prompt ends exactly if the machine on its own does, with the same
machine: state, what it has shown and what it has not read. It ends without a message exactly
if the machine has halted. -/
theorem runThrough_agrees (s : Session) :
    (∀ fuel m, s.debugger.machine.run fuel = .finished m →
        ∃ enough, ∀ turns rounds, enough ≤ turns → enough ≤ rounds →
          ∃ s', s.runThrough turns rounds = some (s', none) ∧ s'.debugger.machine = m) ∧
      (∀ fuel e m, s.debugger.machine.run fuel = .failed e m →
        ∃ enough, ∀ turns rounds, enough ≤ turns → enough ≤ rounds →
          ∃ s' message, s.runThrough turns rounds = some (s', some message) ∧
            s'.debugger.machine = m) ∧
      ((∀ fuel, ∃ m, s.debugger.machine.run fuel = .unfinished m) →
        ∀ turns rounds, s.runThrough turns rounds = none) := by
  have bound := pending_le s.debugger
  refine ⟨fun fuel m ended => ⟨2 * fuel + 2, fun turns rounds turns' rounds' => ?_⟩,
    fun fuel e m ended => ⟨2 * fuel + 2, fun turns rounds turns' rounds' => ?_⟩,
    fun endless turns rounds => ?_⟩
  · have turns'' : fuel < turns := by omega
    have rounds'' : 2 * fuel + pending s.debugger < rounds := by omega
    obtain ⟨r, returned, agrees⟩ := runThrough_of_run turns'' rounds'' (by simp [ended])
    rw [ended] at agrees
    cases agrees with
    | finished s' => exact ⟨s', returned, rfl⟩
  · have turns'' : fuel < turns := by omega
    have rounds'' : 2 * fuel + pending s.debugger < rounds := by omega
    obtain ⟨r, returned, agrees⟩ := runThrough_of_run turns'' rounds'' (by simp [ended])
    rw [ended] at agrees
    cases agrees with
    | failed _ s' message => exact ⟨s', message, returned, rfl⟩
  · cases returned : s.runThrough turns rounds with
    | none => rfl
    | some r =>
      obtain ⟨fuel, agrees⟩ := run_of_runThrough returned
      obtain ⟨m, unfinished⟩ := endless fuel
      rw [unfinished] at agrees
      cases agrees

def guarded : Session := { debugger := { breakpoints := [{ trigger := .address 0 }] }, files := {} }

theorem runThrough_agrees_guarded :
    ∃ enough, ∀ turns rounds, enough ≤ turns → enough ≤ rounds →
      ∃ s', guarded.runThrough turns rounds = some (s', none) ∧
        s'.debugger.machine = { state := { program := 1, halted := true } } :=
  (runThrough_agrees guarded).1 1 _ rfl

end Session

end WordMachine
