import WordMachine.Proofs.Debugger.Loading
import WordMachine.Proofs.Machine.SaveRestore

/-! Which of the two stored forms a debugger takes bytes for. A saved state begins with the head
of a map, whose upper three bits are 101; an image begins with an operation, and these are
numbered so low that the upper three bits of the first byte are clear. So neither is ever taken
for the other, and what is loaded is what was stored. -/

namespace WordMachine

namespace Image

theorem low_of_opcode {low high : UInt8} {op : Opcode}
    (known : Opcode.ofCode? (wordOfBytes low high) = some op) : low.toNat < 22 := by
  obtain ⟨inside, -⟩ := List.getElem?_eq_some_iff.mp known
  rw [wordOfBytes_toNat] at inside
  have count : Opcode.all.length = 22 := rfl
  omega

end Image

namespace Debugger

/-- Bytes as a program image may begin: with an operation, if there are any. -/
def StartsWithOperation (bytes : Bytes) : Prop :=
  ∀ b rest, bytes = b :: rest →
    ∃ high more op, rest = high :: more ∧ Opcode.ofCode? (Image.wordOfBytes b high) = some op

theorem looksLikeSnapshot_save (s : State) : looksLikeSnapshot s.save = true := by
  have marked : Cbor.Encode.head 5 6 = [0xA6] := by decide
  rw [State.save, Snapshot.encode_eq, Cbor.Encode.map, Snapshot.pairs_length, marked]
  rfl

theorem not_looksLikeSnapshot {bytes : Bytes} (starts : StartsWithOperation bytes) :
    looksLikeSnapshot bytes = false := by
  cases bytes with
  | nil => rfl
  | cons low rest =>
    obtain ⟨high, more, op, -, known⟩ := starts low rest rfl
    have clear : ∀ n : Fin 22, (UInt8.ofNat n &&& 0xE0 == 0xA0) = false := by decide
    have same := clear ⟨low.toNat, Image.low_of_opcode known⟩
    rwa [UInt8.ofNat_toNat] at same

theorem startsWithOperation_toBytes {words : List UInt16}
    (starts : ∀ w more, words = w :: more → ∃ op, Opcode.ofCode? w = some op) :
    StartsWithOperation (Image.toBytes words) := by
  intro b rest same
  cases words with
  | nil => simp [Image.toBytes] at same
  | cons w words =>
    rw [Image.toBytes_cons] at same
    obtain ⟨rfl, rfl⟩ := List.cons.inj same
    obtain ⟨op, known⟩ := starts w words rfl
    exact ⟨_, _, op, rfl, by rw [Image.wordOfBytes_wordBytes, known]⟩

theorem load_of_image {bytes : Bytes} (starts : StartsWithOperation bytes) (d : Debugger) :
    d.load bytes = d.loadImage bytes := by
  rw [load, not_looksLikeSnapshot starts, if_neg Bool.false_ne_true]

theorem load_save {s : State} (storable : s.Storable) (d : Debugger) :
    d.load s.save = d.whenIdle (.ok (noteSnapshot (d.loaded { d.machine with state := s }))) := by
  have restored : d.machine.loadSaved s.save = .ok { d.machine with state := s } :=
    Machine.loadSaved_save (m := { state := s }) storable
  rw [load, looksLikeSnapshot_save, if_pos rfl, loadSnapshot, restored]
  rfl

theorem loadImage_toBytes {words : List UInt16} (fits : words.length ≤ memorySize) (d : Debugger) :
    d.loadImage (Image.toBytes words) = d.whenIdle (.ok (noteImage
      (d.loaded { d.machine with state := { memory := Image.memory words fits } }))) := by
  have length := Image.toBytes_length words
  have read : State.ofImage (Image.toBytes words) = .ok { memory := Image.memory words fits } := by
    rw [State.ofImage, if_neg (by omega), if_neg (by omega), Image.ofBytes_toBytes, State.ofWords,
      dif_pos fits]
  rw [loadImage, Machine.loadImage, read]
  rfl

/-- A debugger takes a saved state for one, and bytes that begin with an operation for an image;
unless a run is going on, it then has that very state, or that image in an otherwise fresh one. -/
theorem load_recognizes (d : Debugger) :
    (∀ saver : Debugger, (∀ r, saver.machine.state.registers.get r ≤ 32767) →
      (∀ v ∈ saver.machine.state.stack, v ≤ 32767) → saver.machine.state.program < 32768 →
      saver.machine.state.stack.length ≤ 131072 →
      saver.save.map Prod.fst = saver.whenIdle (.ok saver.machine.state.save) ∧
      ∀ bytes saver', saver.save = .ok (bytes, saver') → ∃ d', d.load bytes = d.whenIdle (.ok d') ∧
        d'.machine = { d.machine with state := saver.machine.state }) ∧
    (∀ bytes, StartsWithOperation bytes → d.load bytes = d.loadImage bytes) ∧
    ∀ words : List UInt16, words.length ≤ memorySize →
      (∀ w more, words = w :: more → ∃ op, Opcode.ofCode? w = some op) →
      ∃ d', d.load (Image.toBytes words) = d.whenIdle (.ok d') ∧
        d'.machine.devices = d.machine.devices ∧
        d'.machine.state.memory.toList = words ++ List.replicate (memorySize - words.length) 0 ∧
        d'.machine.state.registers = Vector.replicate registerCount 0 ∧
        d'.machine.state.stack = [] ∧ d'.machine.state.program = 0 ∧ d'.machine.state.halted = false := by
  refine ⟨fun saver registers stack program short => ⟨?_, fun bytes saver' saved => ?_⟩,
    fun bytes starts => load_of_image starts d, fun words fits starts => ?_⟩
  · unfold save whenIdle
    split <;> rfl
  · have storable := saver.machine.state.storable_iff.mpr ⟨registers, stack, program, short⟩
    obtain rfl : saver.machine.state.save = bytes := by
      have written := ok_of_whenIdle saved
      exact congrArg Prod.fst (Except.ok.inj written)
    exact ⟨_, load_save storable d, rfl⟩
  · have image := load_of_image (startsWithOperation_toBytes starts) d
    exact ⟨_, image.trans (loadImage_toBytes fits d), rfl, rfl, rfl, rfl, rfl, rfl⟩

theorem load_recognizes_brimful :
    (∃ d', onBreakpoint.load (Machine.brimful 0x7FFF).save = .ok d' ∧
      d'.machine.state = Machine.brimful 0x7FFF) ∧
    ∃ d', onBreakpoint.load (Image.toBytes [19, 0xA6A6]) = .ok d' ∧
      d'.machine.state.memory.toList = [19, 0xA6A6] ++ List.replicate (memorySize - 2) 0 := by
  obtain ⟨saved, -, image⟩ := load_recognizes onBreakpoint
  constructor
  · obtain ⟨-, restored⟩ := saved { machine := { state := Machine.brimful 0x7FFF } }
      (Machine.brimful_registers _) (by simp [Machine.brimful])
      (show (0x7FFF : UInt16) < 32768 by decide) (show 1 ≤ 131072 by decide)
    obtain ⟨d', loaded, machine⟩ := restored _ _ rfl
    exact ⟨d', loaded, by rw [machine]⟩
  · obtain ⟨d', loaded, -, memory, -⟩ := image [19, 0xA6A6] (by decide)
      (fun w more same => ⟨.out, by rw [← (List.cons.inj same).1]; rfl⟩)
    exact ⟨d', loaded, memory⟩

end Debugger

end WordMachine
