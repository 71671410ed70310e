import WordMachine.Proofs.Debugger.Edit
import WordMachine.Proofs.Debugger.FirstStop
import WordMachine.Proofs.Debugger.Visits

/-! What a debugger keeps to between operations, whatever is asked of it: its triggers are
distinct and within the machine, so that every watch has something to follow; it does not take
itself for running, and takes itself for halted only if its machine is. -/

namespace WordMachine

def Trigger.Inside : Trigger → Prop
  | address addr | memory addr => addr.toNat < memorySize
  | register r => r.val < registerCount

theorem Trigger.Inside.followed {t : Trigger} (inside : t.Inside) (watch : t.isWatch = true)
    (s : State) : (t.value? s).isSome = true := by
  cases t with
  | address addr => simp [isWatch] at watch
  | register r => rfl
  | memory addr =>
    have bound : addr.toNat < memorySize := inside
    simp [value?, bound]

namespace Debugger

structure Orderly (d : Debugger) : Prop where
  distinct : (d.breakpoints.map Breakpoint.trigger).Nodup
  inside : ∀ b ∈ d.breakpoints, b.trigger.Inside
  idle : d.mode = .stopped ∨ d.mode = .halted ∧ d.machine.state.halted = true

section Orderly

variable {d d' : Debugger}

theorem Orderly.congr (orderly : d.Orderly) (breakpoints : d'.breakpoints = d.breakpoints)
    (mode : d'.mode = d.mode) (halted : d'.machine.state.halted = d.machine.state.halted) : d'.Orderly where
  distinct := breakpoints ▸ orderly.distinct
  inside := breakpoints ▸ orderly.inside
  idle := by
    rw [mode, halted]
    exact orderly.idle

theorem Orderly.retrigger {list : List Breakpoint} (orderly : d.Orderly)
    (distinct : (list.map Breakpoint.trigger).Nodup) (inside : ∀ b ∈ list, b.trigger.Inside) :
    ({ d with breakpoints := list } : Debugger).Orderly :=
  ⟨distinct, inside, orderly.idle⟩

theorem fresh_orderly (machine : Machine) (log : Log) : ({ machine, log } : Debugger).Orderly :=
  ⟨List.nodup_nil, by simp, .inl rfl⟩

/-- A trigger that is there is found where it is, for it is nowhere else. -/
theorem addTrigger_of_present (orderly : d.Orderly) {index : Nat} {b : Breakpoint}
    (listed : d.breakpoints[index]? = some b) : d.addTrigger b.trigger = ((index, false), d) := by
  have found : d.breakpoints.findIdx? (·.trigger = b.trigger) = some index := by
    rw [List.findIdx?_eq_some_iff_getElem]
    obtain ⟨bound, rfl⟩ := List.getElem?_eq_some_iff.mp listed
    refine ⟨bound, by simp, fun j before => ?_⟩
    have other := List.pairwise_iff_getElem.mp orderly.distinct j index (by simp; omega) (by simpa) before
    simpa using other
  rw [addTrigger, found]

theorem addTrigger_of_absent {t : Trigger} (absent : ∀ b ∈ d.breakpoints, b.trigger ≠ t) :
    ∃ message fields, (d.addTrigger t).2 =
      ({ d with breakpoints := d.breakpoints ++ [{ trigger := t }] } : Debugger).record .debug message fields := by
  have missing : d.breakpoints.findIdx? (·.trigger = t) = none := by simpa using absent
  rw [addTrigger, missing]
  exact ⟨_, _, rfl⟩

theorem addTrigger_orderly (orderly : d.Orderly) {t : Trigger} (inside : t.Inside) :
    (d.addTrigger t).2.Orderly := by
  by_cases present : ∃ b ∈ d.breakpoints, b.trigger = t
  · obtain ⟨b, mem, rfl⟩ := present
    obtain ⟨index, listed⟩ := List.getElem?_of_mem mem
    rw [addTrigger_of_present orderly listed]
    exact orderly
  · have absent : ∀ b ∈ d.breakpoints, b.trigger ≠ t := fun b mem same => present ⟨b, mem, same⟩
    obtain ⟨message, fields, added⟩ := addTrigger_of_absent absent
    rw [added]
    have distinct : ((d.breakpoints ++ [({ trigger := t } : Breakpoint)]).map Breakpoint.trigger).Nodup := by
      rw [List.map_append, List.map_singleton, List.nodup_append]
      exact ⟨orderly.distinct, by simp, by simpa using absent⟩
    refine (orderly.retrigger distinct ?_).congr rfl rfl rfl
    simpa [or_imp, forall_and] using ⟨orderly.inside, inside⟩

theorem remove_orderly (orderly : d.Orderly) (k : Nat) :
    ({ d with breakpoints := d.breakpoints.eraseIdx k } : Debugger).Orderly := by
  refine orderly.retrigger ?_ fun b mem => orderly.inside b (List.mem_of_mem_eraseIdx mem)
  exact orderly.distinct.sublist ((List.eraseIdx_sublist _ k).map _)

theorem enable_orderly (orderly : d.Orderly) (k : Nat) (enabled : Bool) :
    ({ d with breakpoints := d.breakpoints.modify k ({ · with enabled }) } : Debugger).Orderly := by
  have triggers : (d.breakpoints.modify k ({ · with enabled })).map Breakpoint.trigger =
      d.breakpoints.map Breakpoint.trigger := by
    apply List.ext_getElem?
    intro j
    rw [List.getElem?_map, List.getElem?_modify, List.getElem?_map]
    cases d.breakpoints[j]? with
    | none => rfl
    | some b => by_cases here : k = j <;> simp [here]
  refine orderly.retrigger (triggers ▸ orderly.distinct) fun b mem => ?_
  have mapped : b.trigger ∈ d.breakpoints.map Breakpoint.trigger := triggers ▸ List.mem_map_of_mem mem
  obtain ⟨old, listed, same⟩ := List.mem_map.mp mapped
  exact same ▸ orderly.inside old listed

@[simp] theorem close_breakpoints (d : Debugger) (event : Event) (mode : Mode) (resumeAt : Option UInt16) :
    (d.close event mode resumeAt).breakpoints = d.breakpoints := by
  simp only [close]
  split <;> rfl

@[simp] theorem close_mode (d : Debugger) (event : Event) (mode : Mode) (resumeAt : Option UInt16) :
    (d.close event mode resumeAt).mode = mode := by
  simp only [close]
  split <;> rfl

theorem close_orderly (distinct : (d.breakpoints.map Breakpoint.trigger).Nodup)
    (inside : ∀ b ∈ d.breakpoints, b.trigger.Inside) (event : Event) {mode : Mode}
    (resumeAt : Option UInt16) (idle : mode = .stopped ∨ mode = .halted ∧ d.machine.state.halted = true) :
    (d.close event mode resumeAt).Orderly := by
  constructor
  · rwa [close_breakpoints]
  · rwa [close_breakpoints]
  · rwa [close_mode, close_machine]

theorem run_halted {limit : Option Nat} {turns : Nat} {q : Point} (running : d.machine.state.halted = false)
    (ran : (d.planFor limit).run turns ⟨d.machine, 0, #[]⟩ = .stop .halted q) :
    q.machine.state.halted = true := by
  have start : Passed d limit 0 d.machine := passed_start running
  obtain ⟨k, m, stop, q', ran', first, machine, -⟩ | ⟨q', ran', -⟩ := run_passed start turns #[]
  · obtain ⟨rfl, rfl⟩ := Turn.stop.inj (ran.symm.trans ran')
    rw [machine, first.holds.leaves_state]
    cases first.holds with
    | halted ended => exact ended
  · simp [ran] at ran'

theorem stopAt_orderly (orderly : d.Orderly) (plan : Plan) {stop : Stop} {q : Point}
    (ended : stop = .halted → q.machine.state.halted = true) : (d.stopAt plan stop q).2.Orderly := by
  refine close_orderly (d := { d with machine := q.machine, trace := _ }) orderly.distinct orderly.inside _ _ ?_
  by_cases halted : stop = .halted
  · exact .inr ⟨if_pos halted, ended halted⟩
  · exact .inl (if_neg halted)

theorem runFor_orderly (orderly : d.Orderly) (limit : Option Nat) (turns : Nat) :
    (d.runFor limit turns).2.Orderly := by
  rw [runFor]
  split
  · next halted =>
    have closed := close_orderly orderly.distinct orderly.inside ⟨.alreadyHalted, d.program, 0⟩ d.resumeAt
      (.inr ⟨rfl, halted⟩)
    exact closed
  · next going =>
    have running : d.machine.state.halted = false := by simpa using going
    dsimp only
    split
    · next ran => exact stopAt_orderly orderly _ fun halted => run_halted running (halted ▸ ran)
    · exact stopAt_orderly orderly _ (by simp)

theorem loaded_orderly (orderly : d.Orderly) (m : Machine) : (d.loaded m).Orderly :=
  ⟨orderly.distinct, orderly.inside, .inl rfl⟩

theorem perform_orderly (orderly : d.Orderly) {op : Operation} (done : d.perform op = .ok d') : d'.Orderly := by
  cases performed_of_ok done with
  | proceed turns => exact runFor_orderly orderly none turns
  | step count turns => exact runFor_orderly orderly (stepLimit count) turns
  | setBreakpoint inside | setMemoryWatch inside => exact addTrigger_orderly orderly inside
  | @setWatch n r known => exact addTrigger_orderly orderly r.isLt
  | @remove n k listed => exact remove_orderly orderly k
  | @enable n k enabled listed => exact enable_orderly orderly k enabled
  | clear => exact orderly.retrigger List.nodup_nil (by simp)
  | writeRegister | writeMemory | jump | save => exact orderly.congr rfl rfl rfl
  | @image _ _ m | @snapshot _ _ m => exact (loaded_orderly orderly m).congr rfl rfl rfl

theorem answer_orderly (orderly : d.Orderly) (r : Request) : (d.answer r).Orderly := by
  cases r with
  | attach devices => exact orderly.congr rfl rfl rfl
  | operation op =>
    cases performed : d.perform op with
    | error e =>
      rw [answer, after_of_error performed]
      exact orderly
    | ok d' =>
      rw [answer, after_of_ok performed]
      exact perform_orderly orderly performed

theorem afterAll_orderly (orderly : d.Orderly) (requests : List Request) : (d.afterAll requests).Orderly := by
  induction requests generalizing d with
  | nil => exact orderly
  | cons r more ih => exact ih (answer_orderly orderly r)

end Orderly

def set (d : Debugger) : Trigger → Except DebugError ((Nat × Bool) × Debugger)
  | .address addr => d.setBreakpoint addr
  | .register r => d.setWatch r.val
  | .memory addr => d.setMemoryWatch addr

theorem set_of_inside (d : Debugger) {t : Trigger} (inside : t.Inside) : d.set t = .ok (d.addTrigger t) := by
  cases t with
  | address addr => exact if_pos inside
  | memory addr => exact if_pos inside
  | register r =>
    have known : register? r.val = .ok r := by simp [register?]
    rw [set, setWatch, known]
    rfl

/-- After anything that can be asked of a new debugger: its triggers are distinct and within the
machine, no watch is without a value, it is stopped or halted, and halted only with its machine;
a trigger that is set again stays as it is, at its index; and an edit goes through exactly if it
is allowed, makes no access out of range, and changes nothing if it is refused. -/
theorem orderly_throughout {machine : Machine} {log : Log} {requests : List Request} {d : Debugger}
    (asked : afterAll { machine, log } requests = d) :
    (∀ (i j : Nat) (b c : Breakpoint), d.breakpoints[i]? = some b → d.breakpoints[j]? = some c →
        b.trigger = c.trigger → i = j) ∧
      (∀ b ∈ d.breakpoints, b.trigger.Inside ∧
        (b.trigger.isWatch = true → ∀ s, (b.trigger.value? s).isSome = true)) ∧
      d.mode ≠ .running ∧ (d.mode = .halted → d.machine.state.halted = true) ∧
      (∀ (index : Nat) (b : Breakpoint), d.breakpoints[index]? = some b → d.set b.trigger = .ok ((index, false), d)) ∧
      ∀ e : Edit, ∃ result, e.inPlace.exec d = some (result, d.after e.operation) ∧
        d.edit e = result.map (·, d.after e.operation) ∧ (result.isOk = true ↔ e.Allowed d) ∧
        (result.isOk = false → d.after e.operation = d) := by
  have orderly : d.Orderly := asked ▸ afterAll_orderly (fresh_orderly machine log) requests
  refine ⟨fun i j b c first second same => ?_, fun b mem => ?_, ?_, fun halted => ?_,
    fun index b listed => ?_, fun e => inPlace_atomic e d⟩
  · have bound := (List.getElem?_eq_some_iff.mp first).1
    apply (List.getElem?_inj (by simpa using bound) orderly.distinct).mp
    rw [List.getElem?_map, List.getElem?_map, first, second, Option.map_some, Option.map_some, same]
  · exact ⟨orderly.inside b mem, (orderly.inside b mem).followed⟩
  · obtain stopped | ⟨halted, -⟩ := orderly.idle
    · simp [stopped]
    · simp [halted]
  · obtain stopped | ⟨-, ended⟩ := orderly.idle
    · simp [stopped] at halted
    · exact ended
  · rw [set_of_inside _ (orderly.inside b (List.mem_of_getElem? listed)), addTrigger_of_present orderly listed]

def switchedOff : List Request :=
  [.operation (.setBreakpoint 0x7FFF), .operation (.setWatch 8), .operation (.setWatch 7),
    .operation (.enable 0 false)]

theorem orderly_throughout_switched :
    ∃ d : Debugger, afterAll {} switchedOff = d ∧
      d.breakpoints = [{ trigger := .address 0x7FFF, enabled := false },
        { trigger := .register ⟨7, by decide⟩ }] ∧
      d.setBreakpoint 0x7FFF = .ok ((0, false), d) ∧
      ∃ result, (Edit.jump 0x8000).inPlace.exec d = some (result, d) ∧ result.isOk = false := by
  obtain ⟨-, -, -, -, again, edits⟩ := @orderly_throughout {} {} switchedOff _ rfl
  obtain ⟨result, ran, -, allowed, kept⟩ := edits (.jump 0x8000)
  have failed : result.isOk = false := by
    rw [← Bool.not_eq_true, allowed]
    exact fun inside => absurd inside.2 (by decide)
  exact ⟨_, rfl, rfl, again 0 _ rfl, result, by rw [ran, kept failed], failed⟩

end Debugger

end WordMachine
