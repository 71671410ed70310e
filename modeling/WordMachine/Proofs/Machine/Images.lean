import WordMachine.Proofs.InPlace.Load

/-! Images as bytes. A text of even length stores words, two bytes to a word and the low one
first. Loading it puts these words at the beginning of a state that is fresh otherwise, and
goes through exactly if there is a cell for each of them; the bytes of a whole memory store
its cells, so they load and give the memory back. -/

namespace WordMachine

namespace Image

structure Stores (bytes : Bytes) (words : List UInt16) : Prop where
  length : bytes.length = 2 * words.length
  word : ∀ k w, words[k]? = some w → ∃ low high, bytes[2 * k]? = some low ∧
    bytes[2 * k + 1]? = some high ∧ w.toNat = low.toNat + 256 * high.toNat

theorem stores_ofBytes {bytes : Bytes} (even : bytes.length % 2 = 0) : Stores bytes (ofBytes bytes) := by
  have halves := ofBytes_length bytes
  refine ⟨by omega, fun k w listed => ?_⟩
  obtain ⟨inside, -⟩ := List.getElem?_eq_some_iff.mp listed
  have hasLow : bytes[k * 2]? = some bytes[k * 2] := List.getElem?_eq_getElem (by omega)
  have hasHigh : bytes[k * 2 + 1]? = some bytes[k * 2 + 1] := List.getElem?_eq_getElem (by omega)
  rw [ofBytes_getElem? bytes k hasLow hasHigh] at listed
  refine ⟨_, _, by rwa [Nat.mul_comm], by rwa [Nat.mul_comm], ?_⟩
  rw [← Option.some.inj listed, wordOfBytes_toNat, Nat.mul_comm 256]

theorem stores_toBytes (words : List UInt16) : Stores (toBytes words) words := by
  have even : (toBytes words).length % 2 = 0 := by rw [toBytes_length, Nat.mul_mod_left]
  simpa only [ofBytes_toBytes] using stores_ofBytes even

end Image

namespace State

/-- Memory begins with `words` and goes on with zeros, and all else is as it is at the start. -/
structure Begins (s : State) (words : List UInt16) : Prop where
  memory : s.memory.toList = words ++ List.replicate (memorySize - words.length) 0
  registers : ∀ r : Register, s.registers.get r = 0
  stack : s.stack = []
  program : s.program = 0
  halted : s.halted = false

theorem begins_memory {words : List UInt16} (fits : words.length ≤ memorySize) :
    ({ memory := Image.memory words fits } : State).Begins words :=
  ⟨by simp [Image.memory, Vector.toList], fun r => by rw [get_registers]; simp, rfl, rfl, rfl⟩

theorem ofWords_of_fits {words : List UInt16} (fits : words.length ≤ memorySize) :
    ∃ s, ofWords words = .ok s ∧ s.Begins words :=
  ⟨_, by rw [ofWords, dif_pos fits], begins_memory fits⟩

theorem ofImage_of_even {bytes : Bytes} (even : bytes.length % 2 = 0)
    (fits : bytes.length ≤ memorySize * 2) : ofImage bytes = ofWords (Image.ofBytes bytes) := by
  rw [ofImage, if_neg (by omega), if_neg (by omega)]

theorem ofImage_dump (s : State) : ∃ s', ofImage s.dump = .ok s' ∧ s'.memory = s.memory := by
  have length := s.dump_length
  have words : Image.ofBytes s.dump = s.memory.toList := Image.ofBytes_toBytes _
  have fits : s.memory.toList.length ≤ memorySize := by simp
  refine ⟨{ memory := Image.memory s.memory.toList fits }, ?_, Image.memory_toList _ fits⟩
  rw [ofImage_of_even (by omega) (by omega), words, ofWords, dif_pos fits]

end State

namespace Machine

/-- An image loads exactly if it has an even number of bytes and at most 65536 of them. The
state is then that of loading the words that the bytes store, and otherwise the one that was
there. The bytes of the whole memory of any state store its cells; every machine loads them,
has that memory then, and gives the same bytes again. -/
theorem images_exact (m : Machine) :
    (∀ bytes : Bytes, ∃ result after, (InPlace.loadImage bytes).exec m.state = some (result, after) ∧
      m.loadImage bytes = result.map (fun _ => { m with state := after }) ∧
      (result = .ok () ↔ bytes.length % 2 = 0 ∧ bytes.length ≤ 65536) ∧
      (result ≠ .ok () → after = m.state) ∧
      (result = .ok () → ∃ words, Image.Stores bytes words ∧
        m.loadWords words = .ok { m with state := after } ∧ after.Begins words)) ∧
    Image.Stores m.state.dump m.state.memory.toList ∧
    ∀ other : Machine, ∃ after, other.loadImage m.state.dump = .ok { other with state := after } ∧
      after.memory = m.state.memory ∧ after.dump = m.state.dump := by
  refine ⟨fun bytes => ?_, Image.stores_toBytes _, fun other => ?_⟩
  · have loads := State.ofImage_ok_iff bytes
    rw [InPlace.exec_loadImage, loadImage]
    by_cases fits : bytes.length % 2 = 0 ∧ bytes.length ≤ memorySize * 2
    · have halves := Image.ofBytes_length bytes
      have short : (Image.ofBytes bytes).length ≤ memorySize := by omega
      obtain ⟨s, loaded, begins⟩ := State.ofWords_of_fits short
      rw [State.ofImage_of_even fits.1 fits.2, loaded]
      refine ⟨.ok (), s, rfl, rfl, iff_of_true rfl fits, fun failed => absurd rfl failed, fun _ => ?_⟩
      exact ⟨_, Image.stores_ofBytes fits.1, by rw [loadWords, loaded]; rfl, begins⟩
    · cases refused : State.ofImage bytes with
      | ok s => exact absurd (loads.mp ⟨s, refused⟩) fits
      | error e =>
        have failed : (Except.error e : Except InvalidImage Unit) ≠ .ok () := by simp
        refine ⟨.error e, m.state, rfl, rfl, iff_of_false failed fits, fun _ => rfl, fun ok => ?_⟩
        exact absurd ok failed
  · obtain ⟨s, loaded, same⟩ := m.state.ofImage_dump
    exact ⟨s, by rw [loadImage, loaded]; rfl, same, by rw [State.dump, State.dump, same]⟩

end Machine

end WordMachine
