import WordMachine.Debugger.Listing
import WordMachine.Proofs.Debugger.Sniffing
import WordMachine.Proofs.Machine.Outputs
import WordMachine.Proofs.Path

/-! Text that is printed, from the literal in a source to the display, and to the strings that the
debugger finds in memory. What a program of this kind shows when it runs and what is collected from
its image without running it are the same bytes, for the characters are in the image as they stand
and nothing behind them is an output. -/

namespace WordMachine

open Assembly Text

/-- The lines of a text. What stands behind the last newline is one too if it is not empty. -/
def Lines (t : Bytes) (lines : List Bytes) : Prop :=
  ∃ closed last, t = (closed.flatMap fun line => line ++ [Bytes.newline]) ++ last ∧
    (∀ line ∈ closed, Bytes.newline ∉ line) ∧ Bytes.newline ∉ last ∧
    lines = closed ++ if last = [] then [] else [last]

theorem Bytes.splitAll_pieces (mark : UInt8) (t : Bytes) :
    ∃ closed last, splitAll mark t = closed ++ [last] ∧
      t = (closed.flatMap fun piece => piece ++ [mark]) ++ last ∧
      (∀ piece ∈ closed, mark ∉ piece) ∧ mark ∉ last := by
  induction t with
  | nil => exact ⟨[], [], rfl, rfl, by simp, by simp⟩
  | cons b t ih =>
    obtain ⟨closed, last, pieces, rfl, unmarked, unmarked'⟩ := ih
    by_cases marked : b = mark
    · refine ⟨[] :: closed, last, ?_, by simp [marked], by simpa using unmarked, unmarked'⟩
      rw [splitAll, if_pos marked, pieces, List.cons_append]
    · rw [splitAll, if_neg marked, pieces]
      cases closed with
      | nil => exact ⟨[], b :: last, rfl, rfl, by simp, by simp [Ne.symm marked, unmarked']⟩
      | cons piece closed =>
        obtain ⟨first, others⟩ := List.forall_mem_cons.mp unmarked
        have first' : mark ∉ b :: piece := by simp [Ne.symm marked, first]
        refine ⟨(b :: piece) :: closed, last, rfl, by simp, ?_, unmarked'⟩
        exact List.forall_mem_cons.mpr ⟨first', others⟩

theorem Bytes.splitAll_of_pieces {mark : UInt8} {closed : List Bytes} {last : Bytes}
    (unmarked : ∀ piece ∈ closed, mark ∉ piece) (unmarked' : mark ∉ last) :
    splitAll mark ((closed.flatMap fun piece => piece ++ [mark]) ++ last) = closed ++ [last] := by
  induction closed with
  | nil => exact splitAll_of_not_mem unmarked'
  | cons piece closed ih =>
    obtain ⟨first, others⟩ := List.forall_mem_cons.mp unmarked
    rw [List.flatMap_cons, List.append_assoc, List.append_assoc, List.singleton_append, splitAll_append,
      splitAll_of_not_mem first, ih others, List.singleton_append, List.cons_append]

theorem Lines.unique {t : Bytes} {lines other : List Bytes} (split : Lines t lines) (split' : Lines t other) :
    lines = other := by
  obtain ⟨closed, last, rfl, unmarked, unmarked', rfl⟩ := split
  obtain ⟨closed', last', same, other, other', rfl⟩ := split'
  have pieces := congrArg (Bytes.splitAll Bytes.newline) same
  rw [Bytes.splitAll_of_pieces unmarked unmarked', Bytes.splitAll_of_pieces other other'] at pieces
  obtain ⟨rfl, ends⟩ := List.append_inj' pieces rfl
  rw [List.singleton_inj.mp ends]

namespace Debugger

theorem strings_lines (d : Debugger) : Lines (outputFrom d.machine.state memorySize 0) d.strings := by
  obtain ⟨closed, last, pieces, whole, unmarked, unmarked'⟩ :=
    Bytes.splitAll_pieces Bytes.newline (outputFrom d.machine.state memorySize 0)
  refine ⟨closed, last, whole, unmarked, unmarked', ?_⟩
  simp only [strings, pieces, List.getLast?_concat, Option.some.injEq, List.dropLast_concat]
  split <;> simp

variable {s : State} {base : Nat}

theorem outputFrom_out {c : UInt16} (code : s.memory[base]? = some Opcode.out.code)
    (operand : s.memory[base + 1]? = some c) (small : c < registerBase) (fuel : Nat) :
    outputFrom s (fuel + 1) base = Instruction.outputByte c :: outputFrom s fuel (base + 2) := by
  have raw : (Instruction.ofOperands base.toUInt16 .out [(c, c)]).firstRaw = c :=
    (Instruction.ofOperands_get _ _ [(c, c)] 0 (by simp) (by decide)).1
  have size : (Instruction.ofOperands base.toUInt16 .out [(c, c)]).size.toNat = 2 :=
    Instruction.ofOperands_size _ _ _
  rw [outputFrom, if_pos (State.toNat_of_cell code).1, State.decode_out code operand small]
  simp [constantOutput?, raw, size, small]

theorem outputFrom_outputs {chars : List UInt16} (holds : s.Holds base (outputs chars))
    (small : ∀ c ∈ chars, c < registerBase) (fuel : Nat) :
    outputFrom s (chars.length + fuel) base =
      chars.map Instruction.outputByte ++ outputFrom s fuel (base + 2 * chars.length) := by
  induction chars generalizing base with
  | nil => simp
  | cons c chars ih =>
    obtain ⟨code, holds⟩ := holds.cons
    obtain ⟨operand, holds⟩ := holds.cons
    obtain ⟨literal, others⟩ := List.forall_mem_cons.mp small
    have behind : s.Holds (base + 2) (outputs chars) := holds
    have rest := ih behind others
    rw [List.length_cons, Nat.add_right_comm, outputFrom_out code operand literal, rest, List.map_cons,
      List.cons_append, Nat.mul_succ, Nat.add_assoc, Nat.add_comm 2]

theorem outputFrom_zeros (zeros : ∀ k, base ≤ k → k < memorySize → s.memory[k]? = some 0) (fuel : Nat) :
    outputFrom s fuel base = [] := by
  induction fuel generalizing base with
  | zero => rfl
  | succ fuel ih =>
    unfold outputFrom
    split
    · next inside =>
      have decoded := State.decode_halt (zeros base (Nat.le_refl _) inside)
      have size : (Instruction.ofOperands base.toUInt16 .halt []).size.toNat = 1 :=
        Instruction.ofOperands_size _ _ _
      have rest := ih fun k (above : base + 1 ≤ k) => zeros k (by omega)
      simp [decoded, constantOutput?, size, rest]
    · rfl

theorem outputFrom_printed {chars : List UInt16} (begins : s.Begins (printed chars))
    (fits : 2 * chars.length + 1 ≤ memorySize) (small : ∀ c ∈ chars, c < registerBase) :
    outputFrom s memorySize 0 = chars.map Instruction.outputByte := by
  have length : (printed chars).length = 2 * chars.length + 1 := by simp [printed, length_outputs]
  obtain ⟨holds, -⟩ := State.Holds.append (begins.holds (by omega))
  have zeros : ∀ k, 0 + 2 * chars.length ≤ k → k < memorySize → s.memory[k]? = some 0 := by
    intro k above inside
    rw [begins.cell inside, printed, List.getElem?_append_right (by rw [length_outputs]; omega)]
    cases k - (outputs chars).length <;> rfl
  have enough : memorySize = chars.length + (memorySize - chars.length) := by omega
  rw [enough, outputFrom_outputs holds small, outputFrom_zeros zeros, List.append_nil]

theorem strings_printed {d : Debugger} {chars : List UInt16} (begins : d.machine.state.Begins (printed chars))
    (fits : 2 * chars.length + 1 ≤ memorySize) (small : ∀ c ∈ chars, c < registerBase) :
    Lines (chars.map Instruction.outputByte) d.strings := by
  rw [← outputFrom_printed begins fits small]
  exact d.strings_lines

theorem loadImage_begins {d : Debugger} (idle : d.mode ≠ .running) {words : List UInt16}
    (fits : words.length ≤ memorySize) :
    ∃ d', d.loadImage (Image.toBytes words) = .ok d' ∧ d'.machine.state.Begins words := by
  refine ⟨_, by rw [loadImage_toBytes fits, whenIdle, if_neg idle], ?_⟩
  exact State.begins_memory fits

end Debugger

theorem toUInt16_lt_registerBase {c : Nat} (low : c ≤ 32767) : c.toUInt16 < registerBase := by
  have bound : registerBase.toNat = 32768 := by decide
  rw [UInt16.lt_iff_toNat_lt, bound, Nat.toUInt16_eq, UInt16.toNat_ofNat']
  omega

/-- Every literal of characters that fit into words, and whose program fits into memory, is printed.
Its source is assembled, and so is every source of the same tokens. The image shows the characters
on a display that has room for them, in one step for each and a last one that halts. In a debugger
its strings are the lines of the same bytes. -/
theorem printed_text {literal text : Bytes} (read : Quoted.unquoteString literal = some text)
    (sound : ∀ c ∈ Utf8.codes text, c ≠ 0xFFFD ∧ c ≤ 32767) {n : Nat}
    (count : (Utf8.codes text).length = n) (fits : 2 * n + 1 ≤ 32768) :
    Prints literal (Bytes.ofString ".print " ++ literal ++ Bytes.ofString "\nhalt\n") ∧
    ∃ image shown, shown = (Utf8.codes text).map (fun c => Instruction.outputByte c.toUInt16) ∧
      (∀ source, Prints literal source → ∀ table, (assemble source table).outcome = .ok image) ∧
      (∀ (m : Machine) (display : Display), m.devices.display = some display → display.Accepts n →
        ∃ loaded ended, m.loadWords image = .ok loaded ∧ loaded.reached (n + 1) = some ended ∧
          ended.state.halted = true ∧
          ended.devices = { m.devices with display := some (display.after shown) } ∧
          ∀ fuel, Machine.run fuel loaded = .finished ended ↔ n + 1 ≤ fuel) ∧
      ∀ d : Debugger, d.mode ≠ .running →
        ∃ d', d.loadImage (Image.toBytes image) = .ok d' ∧ Lines shown d'.strings := by
  obtain ⟨chars, same⟩ : ∃ chars, chars = (Utf8.codes text).map Nat.toUInt16 := ⟨_, rfl⟩
  have length : chars.length = n := by rw [same, List.length_map, count]
  have value : stringValue literal = .ok chars := by rw [same, stringValue_eq read sound]
  have small : ∀ c ∈ chars, c < registerBase := by
    intro c mem
    rw [same] at mem
    obtain ⟨code, listed, rfl⟩ := List.mem_map.mp mem
    exact toUInt16_lt_registerBase (sound code listed).2
  have shown : (Utf8.codes text).map (fun c => Instruction.outputByte c.toUInt16) =
      chars.map Instruction.outputByte := by rw [same, List.map_map]; rfl
  have whole : (printed chars).length ≤ memorySize := by
    rw [printed, List.length_append, length_outputs, length]
    exact fits
  have room : 2 * chars.length + 1 ≤ memorySize := by rw [length]; exact fits
  refine ⟨prints_printing read, printed chars, _, shown.symm, fun source prints table =>
    assemble_prints prints value room table, fun m display attached accepts => ?_, fun d idle => ?_⟩
  · obtain ⟨s, loaded, begins⟩ := State.ofWords_of_fits whole
    have reached := Machine.reached_printed m.devices.keyboard begins room small (length ▸ accepts)
    rw [length] at reached
    refine ⟨⟨s, ⟨m.devices.keyboard, some display⟩⟩, _, ?_, reached, rfl, rfl, fun fuel =>
      Machine.run_eq_finished_iff reached rfl⟩
    rw [Machine.loadWords, loaded, ← attached]
    rfl
  · obtain ⟨d', loaded, begins⟩ := Debugger.loadImage_begins idle whole
    exact ⟨d', loaded, Debugger.strings_printed begins room small⟩

def motto : Bytes := Bytes.ofString "\"h\\u0416\\n\\\"\""

theorem printed_text_motto :
    ∃ text image, Quoted.unquoteString motto = some text ∧
      (∀ c ∈ Utf8.codes text, c ≠ 0xFFFD ∧ c ≤ 32767) ∧ (Utf8.codes text).length = 4 ∧
      (assemble (Bytes.ofString ".print " ++ motto ++ Bytes.ofString "\nhalt\n") none).outcome = .ok image ∧
      (∃ loaded ended, ({} : Machine).loadWords image = .ok loaded ∧ loaded.reached 5 = some ended ∧
        ended.state.halted = true ∧ ended.devices.shown = #[104, 63, 10, 34]) ∧
      ∃ d', ({} : Debugger).loadImage (Image.toBytes image) = .ok d' ∧ d'.strings = [[104, 63], [34]] := by
  have read : Quoted.unquoteString motto = some [104, 0xD0, 0x96, 10, 34] := by decide
  have sound : ∀ c ∈ Utf8.codes [104, 0xD0, 0x96, 10, 34], c ≠ 0xFFFD ∧ c ≤ 32767 := by decide
  have count : (Utf8.codes [104, 0xD0, 0x96, 10, 34]).length = 4 := by decide
  obtain ⟨prints, image, shown, bytes, assembles, runs, strings⟩ :=
    printed_text read sound count (by decide)
  have same : shown = [104, 63, 10, 34] := by
    rw [bytes]
    decide
  have accepts : ({} : Display).Accepts 4 := ⟨rfl, by simp⟩
  obtain ⟨loaded, ended, words, reached, halted, devices, -⟩ := runs {} {} rfl accepts
  obtain ⟨d', installed, lines⟩ := strings {} (by decide)
  have split : Lines shown [[104, 63], [34]] := by
    rw [same]
    exact ⟨[[104, 63]], [34], rfl, by decide, by decide, rfl⟩
  refine ⟨_, image, read, sound, count, assembles _ prints none,
    ⟨loaded, ended, words, reached, halted, ?_⟩, d', installed, lines.unique split⟩
  rw [devices, same]
  rfl

end WordMachine
