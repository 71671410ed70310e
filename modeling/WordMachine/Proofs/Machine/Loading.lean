import WordMachine.Machine.Snapshot
import WordMachine.Proofs.Machine.WellFormed

/-! What can be loaded is well-formed: an image because everything but memory is reset, a
snapshot because it is refused otherwise. A snapshot is held to more than the machine
keeps to, for its program counter has to be within memory. -/

namespace WordMachine

namespace Image

theorem memory_getElem {words : List UInt16} (h : words.length ≤ memorySize) {k : Nat}
    (bound : k < memorySize) : (memory words h)[k] = words[k]?.getD 0 := by
  simp only [memory, Vector.getElem_mk, List.getElem_toArray]
  by_cases inside : k < words.length
  · rw [List.getElem_append_left inside]
    simp [inside]
  · rw [List.getElem_append_right (by omega)]
    simp [inside]

theorem wordOfBytes_toNat (low high : UInt8) :
    (wordOfBytes low high).toNat = low.toNat + high.toNat * 256 := by
  have below := low.toNat_lt
  have above := high.toNat_lt
  have shifted : (high.toUInt16 <<< 8).toNat = high.toNat <<< 8 := by
    simp [Nat.shiftLeft_eq]
    omega
  rw [wordOfBytes, UInt16.toNat_or, shifted, UInt8.toNat_toUInt16, Nat.or_comm,
    ← Nat.shiftLeft_add_eq_or_of_lt (by omega), Nat.shiftLeft_eq]
  omega

theorem ofBytes_length : (bytes : Bytes) → (ofBytes bytes).length = bytes.length / 2
  | [] => rfl
  | [_] => by simp [ofBytes]
  | low :: high :: rest => by
    rw [ofBytes, List.length_cons, ofBytes_length rest, List.length_cons, List.length_cons]
    omega

end Image

namespace State

theorem ofWords_wellFormed {words : List UInt16} {s : State} (loaded : ofWords words = .ok s) :
    s.WellFormed := by
  unfold ofWords at loaded
  split at loaded
  · exact Except.ok.inj loaded ▸ wellFormed_fresh _
  · simp at loaded

theorem ofImage_wellFormed {bytes : Bytes} {s : State} (loaded : ofImage bytes = .ok s) :
    s.WellFormed := by
  unfold ofImage at loaded
  split at loaded
  · simp at loaded
  · split at loaded
    · simp at loaded
    · exact ofWords_wellFormed loaded

theorem ofImage_program {bytes : Bytes} {s : State} (loaded : ofImage bytes = .ok s) : s.program = 0 := by
  unfold ofImage at loaded
  split at loaded
  · simp at loaded
  · split at loaded
    · simp at loaded
    · unfold ofWords at loaded
      split at loaded
      · exact Except.ok.inj loaded ▸ rfl
      · simp at loaded

theorem ofImage_ok_iff (bytes : Bytes) :
    (∃ s, ofImage bytes = .ok s) ↔ bytes.length % 2 = 0 ∧ bytes.length ≤ memorySize * 2 := by
  have halves := Image.ofBytes_length bytes
  unfold ofImage
  split
  · next odd => simp [odd]
  · next even =>
    split
    · next long => simp; omega
    · next short =>
      have fits : (Image.ofBytes bytes).length ≤ memorySize := by omega
      simp [ofWords, fits]
      omega

end State

namespace Snapshot

theorem firstExcess_eq_none_iff {values : List UInt16} :
    firstExcess values = none ↔ ∀ v ∈ values, v ≤ wordMax := by
  simp only [firstExcess, Option.map_eq_none_iff, List.find?_eq_none, decide_eq_true_eq,
    UInt16.not_lt]
  constructor
  · intro none v stored
    obtain ⟨k, inside, rfl⟩ := List.getElem_of_mem stored
    exact none (values[k], k) (List.mk_mem_zipIdx_iff_getElem?.mpr (by simp))
  · intro words (v, k) stored
    exact words v (List.fst_mem_of_mem_zipIdx stored)

theorem defect?_eq_none_iff {s : Snapshot} :
    s.defect? = none ↔ s.version = currentVersion ∧ s.memory.length = memorySize * 2 ∧
      s.program.toNat < memorySize ∧ (∀ v ∈ s.registers.toList, v ≤ wordMax) ∧
      ∀ v ∈ s.stack, v ≤ wordMax := by
  rw [← firstExcess_eq_none_iff, ← firstExcess_eq_none_iff]
  unfold defect?
  split
  · simp_all
  · split
    · simp_all
    · split
      · simp; omega
      · cases registers : firstExcess s.registers.toList <;>
          cases stack : firstExcess s.stack <;> simp_all

end Snapshot

namespace State

theorem ofSnapshot_sound {snap : Snapshot} {s : State} (loaded : ofSnapshot snap = .ok s) :
    snap.defect? = none ∧ s.registers = snap.registers ∧ s.program = snap.program ∧
      s.stack = snap.stack.reverse := by
  unfold ofSnapshot at loaded
  split at loaded
  · simp at loaded
  · next sound =>
    dsimp only at loaded
    split at loaded
    · exact Except.ok.inj loaded ▸ ⟨sound, rfl, rfl, rfl⟩
    · simp at loaded

theorem ofSnapshot_wellFormed {snap : Snapshot} {s : State} (loaded : ofSnapshot snap = .ok s) :
    s.WellFormed := by
  obtain ⟨sound, registers, program, stack⟩ := ofSnapshot_sound loaded
  obtain ⟨-, -, inside, words, held⟩ := Snapshot.defect?_eq_none_iff.mp sound
  refine ⟨fun r => ?_, fun v stored => ?_, ?_⟩
  · rw [registers, get_registers]
    exact words _ (by simp)
  · rw [stack] at stored
    exact held v (List.mem_reverse.mp stored)
  · rw [program]
    exact Nat.le_of_lt inside

theorem ofSnapshot_ok_iff (snap : Snapshot) : (∃ s, ofSnapshot snap = .ok s) ↔ snap.defect? = none := by
  constructor
  · rintro ⟨s, loaded⟩
    exact (ofSnapshot_sound loaded).1
  · intro sound
    obtain ⟨-, length, -⟩ := Snapshot.defect?_eq_none_iff.mp sound
    have fits : (Image.ofBytes snap.memory).length ≤ memorySize := by
      rw [Image.ofBytes_length, length]
      decide
    simp [ofSnapshot, sound, fits]

theorem ofSaved_ok_iff (bytes : Bytes) :
    (∃ s, ofSaved bytes = .ok s) ↔ ∃ snap, Snapshot.decode bytes = .ok snap ∧ snap.defect? = none := by
  constructor
  · rintro ⟨s, loaded⟩
    unfold ofSaved at loaded
    split at loaded
    · simp at loaded
    · next snap decoded => exact ⟨snap, decoded, (ofSnapshot_sound (ok_of_mapError loaded)).1⟩
  · rintro ⟨snap, decoded, sound⟩
    obtain ⟨s, loaded⟩ := (ofSnapshot_ok_iff snap).mpr sound
    refine ⟨s, ?_⟩
    simp only [ofSaved, decoded, loaded]
    rfl

theorem ofSaved_program {bytes : Bytes} {s : State} (loaded : ofSaved bytes = .ok s) :
    s.program.toNat < memorySize := by
  unfold ofSaved at loaded
  split at loaded
  · simp at loaded
  · obtain ⟨sound, -, program, -⟩ := ofSnapshot_sound (ok_of_mapError loaded)
    obtain ⟨-, -, inside, -⟩ := Snapshot.defect?_eq_none_iff.mp sound
    rwa [program]

theorem ofSaved_wellFormed {bytes : Bytes} {s : State} (loaded : ofSaved bytes = .ok s) :
    s.WellFormed := by
  unfold ofSaved at loaded
  split at loaded
  · simp at loaded
  · exact ofSnapshot_wellFormed (ok_of_mapError loaded)

end State

namespace Machine

theorem load_wellFormed {ε : Type} {m m' : Machine} {state : Except ε State}
    (sound : ∀ s, state = .ok s → s.WellFormed) (loaded : m.load state = .ok m') :
    m'.state.WellFormed := by
  cases state with
  | error e => simp [load] at loaded
  | ok s =>
    obtain rfl : { m with state := s } = m' := by simpa [load] using loaded
    exact sound s rfl

theorem loadWords_fetch (m : Machine) {words : List UInt16} (fits : words.length ≤ memorySize) :
    ∃ m', m.loadWords words = .ok m' ∧
      ∀ addr k w, words[k]? = some w → m'.state.fetch addr k = .ok w := by
  refine ⟨{ m with state := { memory := Image.memory words fits } }, ?_, fun addr k w listed => ?_⟩
  · simp [loadWords, State.ofWords, fits, load]
  · obtain ⟨inside, rfl⟩ := List.getElem?_eq_some_iff.mp listed
    have bound : k < memorySize := Nat.lt_of_lt_of_le inside fits
    simp [State.fetch, bound, Image.memory_getElem, inside]

theorem loadWords_wellFormed {m m' : Machine} {words : List UInt16}
    (loaded : m.loadWords words = .ok m') : m'.state.WellFormed :=
  load_wellFormed (fun _ => State.ofWords_wellFormed) loaded

theorem loadImage_wellFormed {m m' : Machine} {bytes : Bytes}
    (loaded : m.loadImage bytes = .ok m') : m'.state.WellFormed :=
  load_wellFormed (fun _ => State.ofImage_wellFormed) loaded

theorem loadSaved_wellFormed {m m' : Machine} {bytes : Bytes}
    (loaded : m.loadSaved bytes = .ok m') : m'.state.WellFormed :=
  load_wellFormed (fun _ => State.ofSaved_wellFormed) loaded

end Machine

end WordMachine
