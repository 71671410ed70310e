import WordMachine.Proofs.InPlace.Load
import WordMachine.Proofs.Debugger.WellFormed

/-! Loading arbitrary bytes into a debugger, in place. Only once the machine has taken them is
the debugger set back; it either goes on exactly as it was, or has a machine in range, stopped,
with nothing to pass over. Which of the two happens is decided by the bytes and by whether a
run is going on. -/

namespace WordMachine

namespace Debugger

open InPlace

def loadInto (load : InPlace State LoadError Unit) (note : Debugger → Debugger) :
    InPlace Debugger DebugError Unit := do
  if (← look fun d => some d.mode) = .running then throw .running
  else do
    (within (·.machine.state) setState load).reporting .load
    change fun d => some { d with mode := .stopped }
    change fun d => some { d with resumeAt := none }
    change fun d => some (note d)

def noteImage (d : Debugger) : Debugger := d.record .info "image loaded"

def noteSnapshot (d : Debugger) : Debugger :=
  d.record .info "snapshot loaded"
    [("pc", .number d.program.toNat), ("stack", .number d.stack.length)]

def loadInPlace (bytes : Bytes) : InPlace Debugger DebugError Unit :=
  if looksLikeSnapshot bytes then loadInto (restoreSaved bytes) noteSnapshot
  else loadInto ((InPlace.loadImage bytes).reporting .image) noteImage

def held (bytes : Bytes) : Except LoadError State :=
  if looksLikeSnapshot bytes then State.ofSaved bytes else (State.ofImage bytes).mapError .image

/-- Bytes that hold a state: a sound snapshot, or words that fit into memory. -/
def Loadable (bytes : Bytes) : Prop :=
  if looksLikeSnapshot bytes then ∃ snap, Snapshot.decode bytes = .ok snap ∧ snap.defect? = none
  else bytes.length % 2 = 0 ∧ bytes.length ≤ memorySize * 2

theorem held_ok_iff (bytes : Bytes) : (∃ s, held bytes = .ok s) ↔ Loadable bytes := by
  unfold held Loadable
  split
  · exact State.ofSaved_ok_iff bytes
  · rw [← State.ofImage_ok_iff]
    exact ⟨fun ⟨s, loaded⟩ => ⟨s, ok_of_mapError loaded⟩, fun ⟨s, loaded⟩ => ⟨s, by rw [loaded]; rfl⟩⟩

theorem held_inside {bytes : Bytes} {s : State} (loaded : held bytes = .ok s) :
    s.WellFormed ∧ s.program.toNat < memorySize := by
  unfold held at loaded
  split at loaded
  · exact ⟨State.ofSaved_wellFormed loaded, State.ofSaved_program loaded⟩
  · have read := ok_of_mapError loaded
    refine ⟨State.ofImage_wellFormed read, ?_⟩
    rw [State.ofImage_program read]
    decide

theorem load_cases (d : Debugger) (bytes : Bytes) :
    (d.mode = .running ∧ d.load bytes = .error .running) ∨
    (∃ e, d.mode ≠ .running ∧ held bytes = .error e ∧ d.load bytes = .error (.load e)) ∨
    ∃ s message fields, d.mode ≠ .running ∧ held bytes = .ok s ∧
      d.load bytes = .ok ((d.loaded { d.machine with state := s }).record .info message fields) := by
  by_cases running : d.mode = .running
  · refine .inl ⟨running, ?_⟩
    unfold load
    split <;> simp [loadSnapshot, loadImage, whenIdle, running]
  · refine .inr ?_
    unfold load held
    split
    · unfold loadSnapshot Machine.loadSaved
      cases State.ofSaved bytes with
      | error e => exact .inl ⟨e, running, rfl, by simp [whenIdle, running, Machine.load]⟩
      | ok s => exact .inr ⟨s, _, _, running, rfl, by simp [whenIdle, running, Machine.load]; rfl⟩
    · unfold loadImage Machine.loadImage
      cases State.ofImage bytes with
      | error e => exact .inl ⟨.image e, running, rfl, by simp [whenIdle, running, Machine.load]⟩
      | ok s => exact .inr ⟨s, _, _, running, rfl, by simp [whenIdle, running, Machine.load]; rfl⟩

theorem exec_loadInto {load : InPlace State LoadError Unit} {new : Except LoadError State} {d : Debugger}
    (ran : load.exec d.machine.state = some (replaced new d.machine.state)) (note : Debugger → Debugger) :
    (loadInto load note).exec d = some (replaced (d.whenIdle (match new with
      | .error e => .error (.load e)
      | .ok s => .ok (note (d.loaded { d.machine with state := s })))) d) := by
  by_cases running : d.mode = .running
  · simp [loadInto, whenIdle, replaced, running]
  · cases new <;> simp [loadInto, whenIdle, replaced, running, ran, Except.mapError, setState, loaded]

theorem exec_loadInPlace (d : Debugger) (bytes : Bytes) :
    (loadInPlace bytes).exec d = some (replaced (d.load bytes) d) := by
  unfold loadInPlace load
  split
  · rw [exec_loadInto (exec_restoreSaved bytes d.machine.state), loadSnapshot, Machine.loadSaved]
    cases State.ofSaved bytes <;> rfl
  · rw [exec_loadInto (reporting_replaced LoadError.image (exec_loadImage bytes d.machine.state)),
      loadImage, Machine.loadImage]
    cases State.ofImage bytes <;> rfl

/-- Whatever the bytes, they are refused and the debugger is as it was, or they are loaded and
the machine is in range. -/
theorem load_atomic (d : Debugger) (bytes : Bytes) :
    ∃ result after, (loadInPlace bytes).exec d = some (result, after) ∧
      d.load bytes = result.map (fun _ => after) ∧
      (result = .ok () ↔ d.mode ≠ .running ∧ Loadable bytes) ∧
      (result ≠ .ok () → after = d) ∧
      (result = .ok () → after.machine.state.WellFormed ∧ after.program.toNat < memorySize ∧
        after.mode = .stopped ∧ after.resumeAt = none ∧ after.breakpoints = d.breakpoints) := by
  rw [exec_loadInPlace, ← held_ok_iff]
  obtain ⟨running, refused⟩ | ⟨e, idle, wrong, refused⟩ | ⟨s, message, fields, idle, right, done⟩ :=
    d.load_cases bytes
  · rw [refused]
    exact ⟨.error _, d, rfl, rfl, by simp [running], fun _ => rfl, by simp⟩
  · rw [refused]
    exact ⟨.error _, d, rfl, rfl, by simp [wrong], fun _ => rfl, by simp⟩
  · obtain ⟨wf, inside⟩ := held_inside right
    rw [done]
    exact ⟨.ok (), _, rfl, rfl, by simp [idle, right], fun failed => absurd rfl failed,
      fun _ => ⟨wf, inside, rfl, rfl, rfl⟩⟩

def onBreakpoint : Debugger :=
  { breakpoints := [{ trigger := .address 7 }], mode := .halted, resumeAt := some 7 }

theorem not_loadable_empty_map : ¬Loadable [0xA0] := by
  have decoded : Snapshot.decode [0xA0] = .ok {} := by rfl
  rintro ⟨snap, same, sound⟩
  obtain rfl : snap = {} := Except.ok.inj (same.symm.trans decoded)
  exact absurd sound (by decide)

theorem load_atomic_on_breakpoint :
    (∃ e, (loadInPlace [0xA0]).exec onBreakpoint = some (.error e, onBreakpoint)) ∧
      ∃ after, onBreakpoint.load [21, 0] = .ok after ∧ after.machine.state.WellFormed ∧
        after.mode = .stopped ∧ after.resumeAt = none ∧
        after.breakpoints = onBreakpoint.breakpoints := by
  constructor
  · obtain ⟨result, after, ran, -, fits, kept, -⟩ := load_atomic onBreakpoint [0xA0]
    have refused : result ≠ .ok () := fun done => not_loadable_empty_map (fits.mp done).2
    cases result with
    | ok _ => exact absurd rfl refused
    | error e => exact ⟨e, by rw [ran, kept refused]⟩
  · obtain ⟨result, after, -, load, fits, -, set⟩ := load_atomic onBreakpoint [21, 0]
    have done : result = .ok () := fits.mpr ⟨by decide, show _ ∧ _ by decide⟩
    obtain ⟨wf, -, mode, resumeAt, breakpoints⟩ := set done
    exact ⟨after, by rw [load, done]; rfl, wf, mode, resumeAt, breakpoints⟩

end Debugger

end WordMachine
