import WordMachine.Proofs.Machine.SnapshotForm
import WordMachine.Proofs.Machine.Step

/-! Saving a state and loading what was saved. A saved state loads, and loads as it was,
exactly if its words are in range, its program counter is within memory and its stack is
no longer than the reader allows. A run that executes the last cell of memory, or that
goes on pushing, leaves such states: what it saves cannot be loaded again. -/

namespace WordMachine

namespace State

structure Storable (s : State) : Prop where
  registers : ∀ r : Register, s.registers.get r ≤ wordMax
  stack : ∀ v ∈ s.stack, v ≤ wordMax
  program : s.program.toNat < memorySize
  short : s.stack.length ≤ Cbor.maxLength

theorem WellFormed.storable_iff {s : State} (wf : s.WellFormed) :
    s.Storable ↔ s.program.toNat < memorySize ∧ s.stack.length ≤ Cbor.maxLength :=
  ⟨fun storable => ⟨storable.program, storable.short⟩,
    fun ⟨program, short⟩ => ⟨wf.registers, wf.stack, program, short⟩⟩

theorem mem_registers {registers : Vector UInt16 registerCount} {v : UInt16}
    (stored : v ∈ registers.toList) : ∃ r, registers.get r = v := by
  obtain ⟨k, bound, rfl⟩ := List.getElem_of_mem stored
  exact ⟨⟨k, by simpa using bound⟩, by simp [get_registers]⟩

theorem dump_length (s : State) : s.dump.length = memorySize * 2 := by
  rw [dump, Image.toBytes_length, Vector.length_toList]

theorem snapshot_sound_iff (s : State) :
    s.snapshot.defect? = none ↔ (∀ r, s.registers.get r ≤ wordMax) ∧ (∀ v ∈ s.stack, v ≤ wordMax) ∧
      s.program.toNat < memorySize := by
  rw [Snapshot.defect?_eq_none_iff]
  constructor
  · intro ⟨_, _, program, registers, stack⟩
    refine ⟨fun r => registers _ ?_, fun v stored => stack v (List.mem_reverse.mpr stored), program⟩
    rw [get_registers]
    simp [snapshot]
  · intro ⟨registers, stack, program⟩
    refine ⟨rfl, s.dump_length, program, fun v stored => ?_,
      fun v stored => stack v (List.mem_reverse.mp stored)⟩
    obtain ⟨r, rfl⟩ := mem_registers stored
    exact registers r

theorem ofSnapshot_snapshot {s : State} (sound : s.snapshot.defect? = none) :
    ofSnapshot s.snapshot = .ok s := by
  have words : Image.ofBytes s.snapshot.memory = s.memory.toList := Image.ofBytes_toBytes _
  have length : s.memory.toList.length ≤ memorySize := by simp
  simp only [ofSnapshot, sound, words, length, ↓reduceDIte, Image.memory_toList]
  simp [snapshot]

theorem snapshot_version_lt (s : State) : s.snapshot.version < Cbor.headBound := by
  change 1 < Cbor.headBound
  decide

theorem snapshot_memory_lt (s : State) : s.snapshot.memory.length < Cbor.lengthBound := by
  change s.dump.length < Cbor.lengthBound
  rw [dump_length]
  decide

theorem decode_save {s : State} (short : s.stack.length ≤ Cbor.maxLength) :
    Snapshot.decode s.save = .ok s.snapshot :=
  Snapshot.decode_encode s.snapshot_version_lt (by simpa [snapshot] using short) s.snapshot_memory_lt

theorem ofSaved_save {s : State} (storable : s.Storable) : ofSaved s.save = .ok s := by
  have sound := s.snapshot_sound_iff.mpr ⟨storable.registers, storable.stack, storable.program⟩
  rw [ofSaved, decode_save storable.short]
  simp only [ofSnapshot_snapshot sound]
  rfl

theorem ofSaved_save_error {s : State} (unfit : ¬s.Storable) : ∃ e, ofSaved s.save = .error e := by
  by_cases short : s.stack.length ≤ Cbor.maxLength
  · cases defect : s.snapshot.defect? with
    | none =>
      obtain ⟨registers, stack, program⟩ := s.snapshot_sound_iff.mp defect
      exact absurd ⟨registers, stack, program, short⟩ unfit
    | some d =>
      refine ⟨.image ⟨s.snapshot.memory.length, d⟩, ?_⟩
      rw [ofSaved, decode_save short]
      simp only [ofSnapshot, defect]
      rfl
  · have long : Cbor.maxLength < s.snapshot.stack.length := by
      simpa [snapshot] using Nat.lt_of_not_le short
    obtain ⟨e, refused⟩ := Snapshot.decode_encode_long s.snapshot_version_lt long
    refine ⟨.format e, ?_⟩
    rw [ofSaved, save, refused]

end State

namespace Machine

theorem loadSaved_save {m other : Machine} (storable : m.state.Storable) :
    other.loadSaved m.state.save = .ok { other with state := m.state } := by
  rw [loadSaved, State.ofSaved_save storable]
  rfl

theorem loadSaved_save_error {m : Machine} (other : Machine) (unfit : ¬m.state.Storable) :
    ∃ e, other.loadSaved m.state.save = .error e := by
  obtain ⟨e, refused⟩ := State.ofSaved_save_error unfit
  refine ⟨e, ?_⟩
  rw [loadSaved, refused]
  rfl

/-- Machines that come of loading an image and stepping, with whatever devices at each step. -/
inductive Started : Machine → Prop
  | words {m m' : Machine} {words : List UInt16} (loaded : m.loadWords words = .ok m') : Started m'
  | image {m m' : Machine} {bytes : Bytes} (loaded : m.loadImage bytes = .ok m') : Started m'
  | attach {m : Machine} (devices : Devices) (before : Started m) : Started { m with devices }
  | step {m : Machine} (before : Started m) : Started m.step.machine

theorem Started.wellFormed {m : Machine} (history : Started m) : m.state.WellFormed := by
  induction history with
  | words loaded => exact loadWords_wellFormed loaded
  | image loaded => exact loadImage_wellFormed loaded
  | attach devices before wf => exact wf
  | step before wf => exact step_wellFormed wf

/-- What a started machine saves is restored exactly if its program counter is within memory
and its stack is no longer than an array may be; else it is refused. -/
theorem started_restores_iff {m : Machine} (history : Started m) (other : Machine) :
    ((∃ m', other.loadSaved m.state.save = .ok m') ↔
      m.state.program.toNat < memorySize ∧ m.state.stack.length ≤ Cbor.maxLength) ∧
    ∀ m', other.loadSaved m.state.save = .ok m' → m' = { other with state := m.state } := by
  rw [← history.wellFormed.storable_iff]
  by_cases storable : m.state.Storable
  · have loaded : other.loadSaved m.state.save = .ok { other with state := m.state } :=
      loadSaved_save storable
    exact ⟨⟨fun _ => storable, fun _ => ⟨_, loaded⟩⟩, fun m' same => Except.ok.inj (same.symm.trans loaded)⟩
  · obtain ⟨e, refused⟩ := loadSaved_save_error other storable
    constructor
    · exact ⟨fun ⟨m', loaded⟩ => by simp [refused] at loaded, fun fit => absurd fit storable⟩
    · intro m' loaded
      simp [refused] at loaded

end Machine

def lastCellWords : List UInt16 := 6 :: 0x7FFF :: (List.replicate (memorySize - 3) 0 ++ [21])

theorem lastCellWords_length : lastCellWords.length = memorySize := by
  rw [lastCellWords, List.length_cons, List.length_cons, List.length_append, List.length_replicate]
  rfl

theorem lastCellWords_last : lastCellWords[(0x7FFF : UInt16).toNat]? = some 21 := by
  have index : (0x7FFF : UInt16).toNat = 0x7FFD + 1 + 1 := rfl
  have inside : (List.replicate (memorySize - 3) (0 : UInt16)).length ≤ 0x7FFD := by
    rw [List.length_replicate]
    decide
  rw [lastCellWords, index, List.getElem?_cons_succ, List.getElem?_cons_succ,
    List.getElem?_append_right inside, List.length_replicate]
  rfl

def lastCellState (program : UInt16) : State :=
  { program, memory := Image.memory lastCellWords (Nat.le_of_eq lastCellWords_length) }

theorem lastCellState_fetch (program addr : UInt16) {k : Nat} {value : UInt16} (bound : k < memorySize)
    (has : lastCellWords[k]? = some value) : (lastCellState program).fetch addr k = .ok value := by
  have cell : (lastCellState program).memory[k] = lastCellWords[k]?.getD 0 :=
    Image.memory_getElem (Nat.le_of_eq lastCellWords_length) bound
  rw [State.fetch, dif_pos bound, cell, has]
  rfl

theorem lastCellState_jumps : ({ state := lastCellState 0 } : Machine).step =
    .done { state := lastCellState 0x7FFF } := by
  have decoded : (lastCellState 0).decode 0 = .ok (.ofOperands 0 .jmp [(0x7FFF, 0x7FFF)]) := by
    refine State.decode_of_operands (lastCellState_fetch 0 0 (by decide) rfl) rfl ?_
    simp only [Opcode.roles, State.operands, State.operandAt]
    rw [lastCellState_fetch 0 0 (by decide) rfl]
    rfl
  rw [Machine.step_of_decode (m := { state := lastCellState 0 }) rfl decoded]
  rfl

theorem lastCellState_leaves : ({ state := lastCellState 0x7FFF } : Machine).step =
    .done { state := lastCellState 0x8000 } := by
  have fetched := lastCellState_fetch 0x7FFF 0x7FFF (by decide) lastCellWords_last
  have decoded : (lastCellState 0x7FFF).decode 0x7FFF = .ok (.ofOperands 0x7FFF .noop []) :=
    State.decode_of_operands fetched rfl rfl
  rw [Machine.step_of_decode (m := { state := lastCellState 0x7FFF }) rfl decoded]
  rfl

theorem lastCellState_started_at_last : Machine.Started { state := lastCellState 0x7FFF } := by
  have loaded : ({} : Machine).loadWords lastCellWords = .ok { state := lastCellState 0 } := by
    rw [Machine.loadWords, State.ofWords, dif_pos (Nat.le_of_eq lastCellWords_length)]
    rfl
  have jumped := Machine.Started.step (.words loaded)
  rwa [lastCellState_jumps] at jumped

theorem lastCellState_started_past_last : Machine.Started { state := lastCellState 0x8000 } := by
  have left := Machine.Started.step lastCellState_started_at_last
  rwa [lastCellState_leaves] at left

namespace Machine

theorem started_restores_iff_at_last :
    Started { state := lastCellState 0x7FFF } ∧
      ∃ m', ({} : Machine).loadSaved (lastCellState 0x7FFF).save = .ok m' :=
  ⟨lastCellState_started_at_last,
    (started_restores_iff lastCellState_started_at_last {}).1.mpr
      ⟨show (0x7FFF : UInt16).toNat < memorySize by decide, Nat.zero_le _⟩⟩

/-- Past the last cell a state is saved and cannot be restored. -/
theorem started_not_restored :
    ¬∀ m : Machine, m.Started → ∀ other : Machine,
      other.loadSaved m.state.save = .ok { other with state := m.state } := by
  intro restored
  have unfit : ¬(lastCellState 0x8000).Storable := fun storable =>
    absurd storable.program (show ¬(0x8000 : UInt16).toNat < memorySize by decide)
  obtain ⟨e, refused⟩ := loadSaved_save_error (m := { state := lastCellState 0x8000 }) {} unfit
  have loaded := restored _ lastCellState_started_past_last {}
  simp [refused] at loaded

end Machine

end WordMachine
