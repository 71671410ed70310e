import WordMachine.Debugger.Listing
import WordMachine.Machine.Image
import WordMachine.Proofs.Assembly.Reassembly

/-! Listings and assembly are inverse. A listing covers memory cell by cell from its first
address, and the source that its lines make is assembled to the very words it was made from,
also where the words are no instruction or the end of memory cuts one off. -/

namespace WordMachine

open Text Assembly

namespace Debugger

structure Lists (s : State) (cell : Nat) (l : Listed) : Prop where
  addr : l.addr.toNat = cell
  filled : l.words ≠ []
  within : cell + l.words.length ≤ memorySize
  words : l.words = (s.memory.toList.drop cell).take l.words.length
  written : ∃ w : Written, w.text = l.text ∧ w.Stands l.words

inductive Covers (s : State) : (cell : Nat) → List Listed → Prop
  | nil {cell : Nat} (within : cell ≤ memorySize) : Covers s cell []
  | cons {cell : Nat} {l : Listed} {more : List Listed} (first : Lists s cell l)
      (rest : Covers s (cell + l.words.length) more) : Covers s cell (l :: more)

namespace Covers

variable {s : State} {cell : Nat} {lines : List Listed}

theorem within (covers : Covers s cell lines) :
    cell + (lines.flatMap Listed.words).length ≤ memorySize := by
  induction covers with
  | nil within => simpa using within
  | cons first rest ih =>
    rw [List.flatMap_cons, List.length_append]
    omega

theorem words (covers : Covers s cell lines) :
    lines.flatMap Listed.words =
      (s.memory.toList.drop cell).take (lines.flatMap Listed.words).length := by
  induction covers with
  | nil within => simp
  | @cons cell l more first rest ih =>
    rw [List.flatMap_cons, List.length_append, List.take_add, ← first.words, List.drop_drop, ← ih]

theorem written (covers : Covers s cell lines) :
    ∃ written : List Written, written.map Written.text = lines.map Listed.text ∧
      List.Forall₂ Written.Stands written (lines.map Listed.words) := by
  induction covers with
  | nil within => exact ⟨[], rfl, .nil⟩
  | cons first rest ih =>
    obtain ⟨w, text, stands⟩ := first.written
    obtain ⟨more, texts, all⟩ := ih
    exact ⟨w :: more, by simp [text, texts], .cons stands all⟩

end Covers

end Debugger

end WordMachine
