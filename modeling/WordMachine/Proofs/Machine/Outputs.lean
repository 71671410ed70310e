import WordMachine.Proofs.Assembly.Printing
import WordMachine.Proofs.Assembly.Resolved
import WordMachine.Proofs.Machine.Images
import WordMachine.Proofs.Machine.Run

/-! Programs that do nothing but show characters, and halt. Each step shows the character of the two
words at the program counter and goes on behind them, so such a program takes one step for each
character and one to halt, and nothing but the display and the program counter changes. -/

namespace WordMachine

open Assembly Instruction

structure Display.Accepts (display : Display) (count : Nat) : Prop where
  flushes : display.flushFailure = none
  room : ∀ capacity ∈ display.capacity, display.shown.size + count ≤ capacity

namespace Display

def after (display : Display) (bytes : Bytes) : Display :=
  { display with shown := display.shown ++ bytes.toArray }

theorem after_nil (display : Display) : display.after [] = display := by
  simp [after]

theorem after_cons (display : Display) (b : UInt8) (bytes : Bytes) :
    display.after (b :: bytes) = (display.after [b]).after bytes := by
  simp [after]

theorem Accepts.write {display : Display} {count : Nat} (accepts : display.Accepts (count + 1)) (b : UInt8) :
    display.write b = (display.after [b], none) ∧ (display.after [b]).Accepts count := by
  have space : display.isFull = false := by
    unfold isFull
    split
    · next capacity bounded =>
      have room := accepts.room capacity bounded
      simp
      omega
    · rfl
  have room : ∀ capacity ∈ display.capacity, (display.after [b]).shown.size + count ≤ capacity := by
    intro capacity bounded
    have room := accepts.room capacity bounded
    simp [after]
    omega
  exact ⟨by simp [Display.write, space, accepts.flushes, after], accepts.flushes, room⟩

end Display

namespace State

variable {s : State}

theorem Holds.cons {base : Nat} {word : UInt16} {words : List UInt16} (holds : s.Holds base (word :: words)) :
    s.memory[base]? = some word ∧ s.Holds (base + 1) words := by
  refine ⟨holds 0 word rfl, fun n later listed => ?_⟩
  rw [Nat.add_right_comm]
  exact holds (n + 1) later listed

theorem Holds.append {base : Nat} {front back : List UInt16} (holds : s.Holds base (front ++ back)) :
    s.Holds base front ∧ s.Holds (base + front.length) back := by
  refine ⟨fun n word listed => holds n word ?_, fun n word listed => ?_⟩
  · obtain ⟨inside, -⟩ := List.getElem?_eq_some_iff.mp listed
    rw [List.getElem?_append_left inside, listed]
  · rw [Nat.add_assoc]
    refine holds _ word ?_
    rw [List.getElem?_append_right (by omega), Nat.add_sub_cancel_left, listed]

theorem Begins.cell {words : List UInt16} (begins : s.Begins words) {k : Nat} (inside : k < memorySize) :
    s.memory[k]? = some (words[k]?.getD 0) := by
  have cell : s.memory.toList[k]? = some (words[k]?.getD 0) := by
    rw [begins.memory]
    by_cases held : k < words.length
    · rw [List.getElem?_append_left held]
      simp [held]
    · rw [List.getElem?_append_right (by omega), List.getElem?_replicate_of_lt (by omega),
        List.getElem?_eq_none (by omega)]
      rfl
  simpa using cell

theorem Begins.holds {words : List UInt16} (begins : s.Begins words) (fits : words.length ≤ memorySize) :
    s.Holds 0 words := by
  intro n word listed
  obtain ⟨inside, -⟩ := List.getElem?_eq_some_iff.mp listed
  rw [Nat.zero_add, begins.cell (by omega), listed, Option.getD_some]

theorem toNat_of_cell {base : Nat} {word : UInt16} (cell : s.memory[base]? = some word) :
    base < memorySize ∧ base.toUInt16.toNat = base := by
  obtain ⟨inside, -⟩ := Vector.getElem?_eq_some_iff.mp cell
  refine ⟨inside, ?_⟩
  rw [memorySize] at inside
  simp
  omega

theorem decode_out {base : Nat} {c : UInt16} (code : s.memory[base]? = some Opcode.out.code)
    (operand : s.memory[base + 1]? = some c) (small : c < registerBase) :
    s.decode base.toUInt16 = .ok (.ofOperands base.toUInt16 .out [(c, c)]) := by
  obtain ⟨-, addr⟩ := toNat_of_cell code
  refine decode_of_operands (fetch_of_cell (by rwa [addr]) _) Opcode.out.ofCode?_code ?_
  have fetched : s.fetch base.toUInt16 (base.toUInt16.toNat + 0 + 1) = .ok c :=
    fetch_of_cell (by rwa [addr, Nat.add_zero]) _
  have first : s.operandAt base.toUInt16 .value 0 = .ok (c, c) := by
    rw [operandAt, fetched]
    simp [operandValue, resolve, Operand.ofRaw_literal small, Except.map]
  rw [Opcode.roles, operands, first]
  rfl

theorem decode_halt {base : Nat} (code : s.memory[base]? = some Opcode.halt.code) :
    s.decode base.toUInt16 = .ok (.ofOperands base.toUInt16 .halt []) := by
  obtain ⟨-, addr⟩ := toNat_of_cell code
  exact decode_of_operands (fetch_of_cell (by rwa [addr]) _) Opcode.halt.ofCode?_code rfl

end State

theorem Instruction.ofOperands_next (base : Nat) (op : Opcode) (list : List (UInt16 × UInt16)) :
    (ofOperands base.toUInt16 op list).addr + (ofOperands base.toUInt16 op list).size =
      (base + (1 + op.arity)).toUInt16 := by
  apply UInt16.toNat.inj
  rw [UInt16.toNat_add, ofOperands_size, ofOperands_addr]
  simp

namespace Machine

variable {s : State} {display : Display} {base : Nat}

theorem step_out (keyboard : Option Keyboard) {c : UInt16} (running : s.halted = false)
    (code : s.memory[base]? = some Opcode.out.code) (operand : s.memory[base + 1]? = some c)
    (small : c < registerBase)
    (wrote : display.write (outputByte c) = (display.after [outputByte c], none)) :
    (⟨{ s with program := base.toUInt16 }, ⟨keyboard, some display⟩⟩ : Machine).step =
      .done ⟨{ s with program := (base + 2).toUInt16 },
        ⟨keyboard, some (display.after [outputByte c])⟩⟩ := by
  have decoded := State.decode_out (s := { s with program := base.toUInt16 }) code operand small
  have next := ofOperands_next base .out [(c, c)]
  have first : (ofOperands base.toUInt16 .out [(c, c)]).first = c :=
    ofOperands_value _ _ [(c, c)] 0 (by simp) (by decide)
  rw [step_of_decode running decoded, execute, next]
  simp only [ofOperands_opcode, first, Devices.write, wrote]
  simp [Outcome.mapError, State.apply, running, Opcode.arity, Opcode.roles]

theorem step_halt {devices : Devices} (running : s.halted = false)
    (code : s.memory[base]? = some Opcode.halt.code) :
    (⟨{ s with program := base.toUInt16 }, devices⟩ : Machine).step =
      .done ⟨{ s with program := (base + 1).toUInt16, halted := true }, devices⟩ := by
  have decoded := State.decode_halt (s := { s with program := base.toUInt16 }) code
  have next := ofOperands_next base .halt []
  rw [step_of_decode running decoded, execute_of_effect (by simp) (by simp), State.effect, next]
  simp only [ofOperands_opcode]
  simp [Outcome.mapError, State.apply, Opcode.arity, Opcode.roles]

theorem reached_outputs (keyboard : Option Keyboard) {chars : List UInt16} (running : s.halted = false)
    (holds : s.Holds base (outputs chars)) (small : ∀ c ∈ chars, c < registerBase)
    (accepts : display.Accepts chars.length) :
    (⟨{ s with program := base.toUInt16 }, ⟨keyboard, some display⟩⟩ : Machine).reached chars.length =
      some ⟨{ s with program := (base + 2 * chars.length).toUInt16 },
        ⟨keyboard, some (display.after (chars.map outputByte))⟩⟩ := by
  induction chars generalizing base display with
  | nil => rw [List.map_nil, Display.after_nil]; rfl
  | cons c chars ih =>
    obtain ⟨code, holds⟩ := holds.cons
    obtain ⟨operand, holds⟩ := holds.cons
    obtain ⟨literal, others⟩ := List.forall_mem_cons.mp small
    obtain ⟨wrote, room⟩ := accepts.write (outputByte c)
    have behind : s.Holds (base + 2) (outputs chars) := holds
    have rest := ih behind others room
    rw [List.length_cons, reached_of_done (step_out keyboard running code operand literal wrote), rest,
      List.map_cons, display.after_cons (outputByte c) (chars.map outputByte), Nat.mul_succ, Nat.add_assoc,
      Nat.add_comm 2]

/-- A program that shows characters and halts, from its start to its end. -/
theorem reached_printed (keyboard : Option Keyboard) {chars : List UInt16} (begins : s.Begins (printed chars))
    (fits : 2 * chars.length + 1 ≤ memorySize) (small : ∀ c ∈ chars, c < registerBase)
    (accepts : display.Accepts chars.length) :
    (⟨s, ⟨keyboard, some display⟩⟩ : Machine).reached (chars.length + 1) =
      some ⟨{ s with program := (2 * chars.length + 1).toUInt16, halted := true },
        ⟨keyboard, some (display.after (chars.map outputByte))⟩⟩ := by
  have length := length_outputs chars
  obtain ⟨holds, rest⟩ := State.Holds.append (begins.holds (by simp [printed, length]; omega))
  have shows := reached_outputs keyboard begins.halted holds small accepts
  have start : ({ s with program := Nat.toUInt16 0 } : State) = s := by
    rw [show Nat.toUInt16 0 = s.program from begins.program.symm]
  rw [start, Nat.zero_add] at shows
  rw [length, Nat.zero_add] at rest
  exact reached_succ shows (step_halt begins.halted rest.cons.1)

end Machine

end WordMachine
