import WordMachine.Proofs.InPlace.Basic
import WordMachine.Proofs.Machine.SaveRestore

/-! Loading in place. A state is written over part by part, its memory cell by cell, and
still a loader either replaces all of it or leaves all of it: whatever can be wrong with the
bytes is found out before the first write. -/

namespace WordMachine

namespace Image

theorem ofBytes_getElem? (bytes : Bytes) (k : Nat) {low high : UInt8}
    (hasLow : bytes[k * 2]? = some low) (hasHigh : bytes[k * 2 + 1]? = some high) :
    (ofBytes bytes)[k]? = some (wordOfBytes low high) := by
  induction k generalizing bytes with
  | zero =>
    obtain _ | ⟨b, _ | ⟨c, rest⟩⟩ := bytes
    · simp at hasLow
    · simp at hasHigh
    · simp_all [ofBytes]
  | succ k ih =>
    obtain _ | ⟨b, _ | ⟨c, rest⟩⟩ := bytes
    · simp at hasLow
    · simp at hasHigh
    · have low' : rest[k * 2]? = some low := by simpa [Nat.succ_mul] using hasLow
      have high' : rest[k * 2 + 1]? = some high := by
        simpa [Nat.succ_mul, Nat.add_right_comm] using hasHigh
      simpa [ofBytes] using ih rest low' high'

end Image

namespace InPlace

variable {σ ε ζ : Type}

def replaced (new : Except ε σ) (old : σ) : Except ε Unit × σ :=
  match new with
  | .ok s => (.ok (), s)
  | .error e => (.error e, old)

theorem reporting_replaced {p : InPlace σ ε Unit} {new : Except ε σ} {old : σ} (f : ε → ζ)
    (ran : p.exec old = some (replaced new old)) :
    (p.reporting f).exec old = some (replaced (new.mapError f) old) := by
  rw [exec_reporting, ran]
  cases new <;> rfl

def wordAt (bytes : Bytes) (k : Nat) : InPlace σ ε UInt16 := do
  let low ← look fun _ => bytes[k * 2]?
  let high ← look fun _ => bytes[k * 2 + 1]?
  pure (Image.wordOfBytes low high)

def copyWords (bytes : Bytes) : (k count : Nat) → InPlace State ε Unit
  | _, 0 => pure ()
  | k, count + 1 => do
    setCell k (← wordAt bytes k)
    copyWords bytes (k + 1) count

def restore (snap : Snapshot) : InPlace State InvalidImage Unit :=
  match snap.defect? with
  | some d => throw ⟨snap.memory.length, d⟩
  | none => do
    setProgram snap.program
    setHalted snap.halted
    change fun s => some { s with registers := snap.registers }
    change fun s => some { s with stack := snap.stack.reverse }
    copyWords snap.memory 0 memorySize

def restoreSaved (bytes : Bytes) : InPlace State LoadError Unit :=
  match Snapshot.decode bytes with
  | .error e => throw (.format e)
  | .ok snap => (restore snap).reporting .image

def loadImage (bytes : Bytes) : InPlace State InvalidImage Unit :=
  if bytes.length % 2 ≠ 0 then throw ⟨bytes.length, .partialWord⟩
  else if memorySize < bytes.length / 2 then throw ⟨bytes.length, .tooLong⟩
  else do
    change fun _ => some {}
    copyWords bytes 0 (bytes.length / 2)

theorem exec_wordAt (bytes : Bytes) (k : Nat) (inside : k * 2 + 1 < bytes.length) (s : σ) :
    ∃ w, (wordAt bytes k : InPlace σ ε UInt16).exec s = some (.ok w, s) ∧
      (Image.ofBytes bytes)[k]? = some w := by
  have hasLow : bytes[k * 2]? = some bytes[k * 2] := List.getElem?_eq_getElem (by omega)
  have hasHigh : bytes[k * 2 + 1]? = some bytes[k * 2 + 1] := List.getElem?_eq_getElem inside
  refine ⟨_, ?_, Image.ofBytes_getElem? bytes k hasLow hasHigh⟩
  simp [wordAt, hasLow, hasHigh]

theorem exec_copyWords (bytes : Bytes) (k count : Nat) (fits : k + count ≤ memorySize)
    (enough : (k + count) * 2 ≤ bytes.length) (s : State) :
    ∃ memory, (copyWords bytes k count : InPlace State ε Unit).exec s =
        some (.ok (), { s with memory }) ∧
      ∀ j (inside : j < memorySize), memory[j] =
        if k ≤ j ∧ j < k + count then (Image.ofBytes bytes)[j]?.getD 0 else s.memory[j] := by
  -- the cells below `k` are done; the word of cell `k` is the only one this turn writes
  induction count generalizing k s with
  | zero =>
    refine ⟨s.memory, rfl, fun j inside => ?_⟩
    rw [if_neg (by omega)]
  | succ count ih =>
    obtain ⟨w, read, isWord⟩ := exec_wordAt (ε := ε) bytes k (by omega) s
    obtain ⟨memory, rest, cells⟩ := ih (k + 1) (by omega) (by omega)
      { s with memory := s.memory.setIfInBounds k w }
    refine ⟨memory, ?_, fun j inside => ?_⟩
    · have here : k < memorySize := by omega
      simp [copyWords, read, here, rest]
    · rw [cells j inside]
      by_cases same : k = j
      · subst same
        simp [isWord]
      · have still : (k + 1 ≤ j ∧ j < k + 1 + count) ↔ (k ≤ j ∧ j < k + (count + 1)) := by omega
        have other : (s.memory.setIfInBounds k w)[j] = s.memory[j] := by
          rw [Vector.getElem_setIfInBounds, if_neg same]
        simp only [still, other]

theorem exec_copyWords_all {bytes : Bytes} {count : Nat} {s : State}
    (whole : (Image.ofBytes bytes).length = count) (fits : (Image.ofBytes bytes).length ≤ memorySize)
    (blank : ∀ j (inside : j < memorySize), count ≤ j → s.memory[j] = 0) :
    (copyWords bytes 0 count : InPlace State ε Unit).exec s =
      some (.ok (), { s with memory := Image.memory (Image.ofBytes bytes) fits }) := by
  have halves := Image.ofBytes_length bytes
  obtain ⟨memory, ran, cells⟩ := exec_copyWords (ε := ε) bytes 0 count (by omega) (by omega) s
  have same : memory = Image.memory (Image.ofBytes bytes) fits := by
    ext j inside
    rw [cells j inside, Image.memory_getElem fits inside]
    by_cases copied : j < count
    · rw [if_pos (by omega)]
    · have past : (Image.ofBytes bytes).length ≤ j := by omega
      rw [if_neg (by omega), blank j inside (by omega), List.getElem?_eq_none past, Option.getD_none]
  rw [ran, same]

theorem exec_restore (snap : Snapshot) (t : State) :
    (restore snap).exec t = some (replaced (State.ofSnapshot snap) t) := by
  cases defect : snap.defect? with
  | some d => simp [restore, State.ofSnapshot, replaced, defect]
  | none =>
    obtain ⟨-, length, -⟩ := Snapshot.defect?_eq_none_iff.mp defect
    have whole : (Image.ofBytes snap.memory).length = memorySize := by
      rw [Image.ofBytes_length, length]
      rfl
    have fits : (Image.ofBytes snap.memory).length ≤ memorySize := Nat.le_of_eq whole
    have copied := fun s => exec_copyWords_all (ε := InvalidImage) (s := s) whole fits
      fun j inside past => absurd inside (Nat.not_lt.mpr past)
    simp [restore, State.ofSnapshot, replaced, defect, copied, fits]

theorem exec_restoreSaved (bytes : Bytes) (t : State) :
    (restoreSaved bytes).exec t = some (replaced (State.ofSaved bytes) t) := by
  unfold restoreSaved State.ofSaved
  cases Snapshot.decode bytes with
  | error e => rfl
  | ok snap => exact reporting_replaced LoadError.image (exec_restore snap t)

theorem exec_loadImage (bytes : Bytes) (t : State) :
    (loadImage bytes).exec t = some (replaced (State.ofImage bytes) t) := by
  have halves := Image.ofBytes_length bytes
  by_cases odd : bytes.length % 2 ≠ 0
  · simp [loadImage, State.ofImage, replaced, odd]
  · by_cases long : memorySize < bytes.length / 2
    · simp [loadImage, State.ofImage, replaced, odd, long]
    · have fits : (Image.ofBytes bytes).length ≤ memorySize := by omega
      have copied := exec_copyWords_all (ε := InvalidImage) (s := {}) halves fits
        fun j inside past => by simp
      simp [loadImage, State.ofImage, State.ofWords, replaced, odd, long, copied, fits]

end InPlace

theorem State.storable_iff (s : State) :
    s.Storable ↔ (∀ r : Register, s.registers.get r ≤ 32767) ∧ (∀ v ∈ s.stack, v ≤ 32767) ∧
      s.program < 32768 ∧ s.stack.length ≤ 131072 :=
  ⟨fun storable => ⟨storable.registers, storable.stack, storable.program, storable.short⟩,
    fun ⟨registers, stack, program, short⟩ => ⟨registers, stack, program, short⟩⟩

namespace Machine

/-- A saved state written over the state of any machine: this succeeds exactly if all words
are in range and the stack has no more than 131072 entries, and then leaves the state that was
saved; otherwise it leaves the one that was there. -/
theorem restoreSaved_save (s : State) (m : Machine) :
    ∃ result after, (InPlace.restoreSaved s.save).exec m.state = some (result, after) ∧
      m.loadSaved s.save = result.map (fun _ => { m with state := after }) ∧
      (result = .ok () ↔ (∀ r : Register, s.registers.get r ≤ 32767) ∧ (∀ v ∈ s.stack, v ≤ 32767) ∧
        s.program < 32768 ∧ s.stack.length ≤ 131072) ∧
      (result = .ok () → after = s) ∧ (result ≠ .ok () → after = m.state) := by
  rw [InPlace.exec_restoreSaved, loadSaved, ← s.storable_iff]
  by_cases storable : s.Storable
  · rw [State.ofSaved_save storable]
    exact ⟨.ok (), s, rfl, rfl, by simp [storable], fun _ => rfl, fun failed => absurd rfl failed⟩
  · obtain ⟨e, refused⟩ := State.ofSaved_save_error storable
    rw [refused]
    exact ⟨.error e, m.state, rfl, rfl, by simp [storable], by simp, fun _ => rfl⟩

def brimful (program : UInt16) : State where
  registers := Vector.replicate registerCount 0x7FFF
  program := program
  stack := [0x7FFF]
  halted := true

theorem brimful_registers (program : UInt16) (r : Register) :
    (brimful program).registers.get r ≤ 32767 := by
  rw [get_registers]
  simp [brimful]

theorem restoreSaved_save_brimful :
    (InPlace.restoreSaved (brimful 0x7FFF).save).exec {} = some (.ok (), brimful 0x7FFF) ∧
      ∃ e, (InPlace.restoreSaved (brimful 0x8000).save).exec {} = some (.error e, {}) := by
  constructor
  · obtain ⟨result, after, ran, -, fits, saved, -⟩ := restoreSaved_save (brimful 0x7FFF) {}
    have stack : ∀ v ∈ (brimful 0x7FFF).stack, v ≤ 32767 := by simp [brimful]
    have done : result = .ok () := fits.mpr
      ⟨brimful_registers _, stack, show (0x7FFF : UInt16) < 32768 by decide, show 1 ≤ 131072 by decide⟩
    rw [ran, done, saved done]
  · obtain ⟨result, after, ran, -, fits, -, kept⟩ := restoreSaved_save (brimful 0x8000) {}
    have refused : result ≠ .ok () := fun done =>
      absurd (fits.mp done).2.2.1 (show ¬(0x8000 : UInt16) < 32768 by decide)
    cases result with
    | ok _ => exact absurd rfl refused
    | error e => exact ⟨e, by rw [ran, kept refused]⟩

end Machine

end WordMachine
