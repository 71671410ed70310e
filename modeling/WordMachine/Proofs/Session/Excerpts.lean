import WordMachine.Proofs.Debugger.Strings
import WordMachine.Session.Inspect
import WordMachine.SymbolTable
import Mathlib.Algebra.Order.BigOperators.Group.List

/-! What the source command shows. It says a line or two of its own, or it shows lines of the source from
a recorded offset on, never more than it was asked for. Offsets are read from files, and only those
past the end of the source are looked for: one that lies before its beginning leaves nothing to show. -/

namespace WordMachine.Session

open Text

inductive Remarks (s : Session) : Session → Prop
  | note (message : Bytes) : Remarks s (s.note message)
  | notes (first second : Bytes) : Remarks s ((s.note first).note second)
  | line (message : Bytes) : Remarks s (s.printLine message)

/-- The arguments of the source command lead to an offset in the source of the program, and ask for a
number of lines. -/
structure Points (f : SymbolTable.Finder) (s : Session) (args : List Bytes) (text : Bytes) (count offset : Int) :
    Prop where
  few : args.length ≤ 2
  recorded : ∃ table addr, s.debugger.symbols = some table ∧ table.source ≠ [] ∧
    s.loadSource table.source = .ok (text, { s with sourceText := some text }) ∧
    readRangeBy f s args 3 = .ok (addr, count) ∧ table.offset? addr = some offset

theorem loadSource_ok {s s' : Session} {path text : Bytes} (loaded : s.loadSource path = .ok (text, s')) :
    s' = { s with sourceText := some text } := by
  unfold loadSource at loaded
  split at loaded
  · next kept there =>
    obtain ⟨rfl, rfl⟩ := Prod.mk.inj (Except.ok.inj loaded)
    rw [← there]
  · obtain ⟨read, -, same⟩ := ok_of_map loaded
    obtain ⟨rfl, rfl⟩ := Prod.mk.inj same
    rfl

section Shown

variable (f : SymbolTable.Finder) (s : Session) (args : List Bytes)

/-- Whatever stands behind the source command, it says something, it shows lines from within the
source, or the offset that it has come to lies before the source. -/
theorem source_cases :
    (∃ kept s', Remarks { s with sourceText := kept } s' ∧ sourceBy f s args = (s', none)) ∨
      ∃ text count offset, Points f s args text count offset ∧
        (offset < 0 ∧ sourceBy f s args = ({ s with sourceText := some text }, some offset) ∨
          0 ≤ offset ∧ offset < text.length ∧
            sourceBy f s args =
              ({ s with sourceText := some text }.print (sourceLines (text.drop offset.toNat) count), none)) := by
  unfold sourceBy
  split
  · exact .inl ⟨s.sourceText, _, .note _, rfl⟩
  · next few =>
    split
    · exact .inl ⟨s.sourceText, _, .line _, rfl⟩
    · next table symbols =>
      split
      · exact .inl ⟨s.sourceText, _, .line _, rfl⟩
      · next named =>
        split
        · exact .inl ⟨s.sourceText, _, .notes _ _, rfl⟩
        · next text s' loaded =>
          obtain rfl := loadSource_ok loaded
          split
          · exact .inl ⟨some text, _, .note _, rfl⟩
          · next addr count range =>
            split
            · exact .inl ⟨some text, _, .line _, rfl⟩
            · next offset found =>
              split
              · exact .inl ⟨some text, _, .line _, rfl⟩
              · next inside =>
                have points : Points f s args text count offset :=
                  ⟨by omega, table, addr, symbols, by simpa using named, loaded, range, found⟩
                refine .inr ⟨text, count, offset, points, ?_⟩
                by_cases before : offset < 0
                · exact .inl ⟨before, by simp only [sourceFrom?, if_pos before]⟩
                · exact .inr ⟨by omega, by omega, by simp only [sourceFrom?, if_neg before]⟩

variable {f s args}

theorem source_of_before {text : Bytes} {count offset : Int} (points : Points f s args text count offset)
    (before : offset < 0) : sourceBy f s args = ({ s with sourceText := some text }, some offset) := by
  obtain ⟨table, addr, symbols, named, loaded, range, found⟩ := points.recorded
  have range' : readRangeBy f { s with sourceText := some text } args 3 = .ok (addr, count) := range
  have few := points.few
  rw [sourceBy, if_neg (by omega), symbols]
  simp only [List.isEmpty_iff, named, if_false, loaded, range', found, sourceFrom?, if_pos before]
  exact if_neg (by omega)

end Shown

theorem count_flatMap_le {α : Type} {mark : UInt8} {f : α → Bytes} {l : List α}
    (each : ∀ a ∈ l, (f a).count mark ≤ 1) : (l.flatMap f).count mark ≤ l.length := by
  rw [List.count_flatMap]
  have bound := List.sum_le_card_nsmul (l.map (List.count mark ∘ f)) 1 (by simpa using each)
  simpa using bound

theorem count_newline_sourceLines (text : Bytes) (count : Int) :
    (sourceLines text count).count Bytes.newline ≤ count.toNat := by
  obtain ⟨closed, last, pieces, -, unmarked, unmarked'⟩ := Bytes.splitAll_pieces Bytes.newline text
  have single : ∀ line ∈ Bytes.splitAll Bytes.newline text, line.count Bytes.newline = 0 := by
    intro line mem
    rw [pieces, List.mem_append, List.mem_singleton] at mem
    refine List.count_eq_zero.mpr ?_
    obtain mem | rfl := mem
    · exact unmarked line mem
    · exact unmarked'
  have marks : ∀ k : Nat, (if k = 0 then cursorMark else Bytes.ofString "  ").count Bytes.newline = 0 := by
    intro k
    split <;> decide
  refine Nat.le_trans (count_flatMap_le ?_) ?_
  · rintro ⟨line, k⟩ mem
    have listed := List.mem_of_mem_take ((List.mem_zipIdx' mem).2 ▸ List.getElem_mem _)
    simp only [List.count_append, single line listed, marks k]
    decide
  · rw [List.length_zipIdx]
    exact List.length_take_le _ _

/-- The source command comes to an offset before the source exactly if this is what the symbol table has
on record, at any of the addresses that a name may stand for. Otherwise it says something or shows at most
as many lines as it was asked for. -/
theorem source_outside_iff (f : SymbolTable.Finder) (s : Session) (args : List Bytes) :
    (∀ offset, (sourceBy f s args).2 = some offset ↔
      ∃ text count, Points f s args text count offset ∧ offset < 0) ∧
    ((sourceBy f s args).2.isSome = true ∨
      (∃ kept, Remarks { s with sourceText := kept } (sourceBy f s args).1) ∨
      ∃ text count offset shown, Points f s args text count offset ∧ 0 ≤ offset ∧ offset < text.length ∧
        (sourceBy f s args).1 = { s with sourceText := some text }.print shown ∧
        shown = sourceLines (text.drop offset.toNat) count ∧ shown.count Bytes.newline ≤ count.toNat) := by
  constructor
  · refine fun offset => ⟨fun outside => ?_, fun ⟨_, _, points, before⟩ => by rw [source_of_before points before]⟩
    obtain ⟨kept, s', remarks, shown⟩ | ⟨text, count, offset', points, ⟨before, shown⟩ | ⟨-, -, shown⟩⟩ :=
      source_cases f s args
    · simp [shown] at outside
    · obtain rfl : offset' = offset := by simpa [shown] using outside
      exact ⟨text, count, points, before⟩
    · simp [shown] at outside
  · obtain ⟨kept, s', remarks, shown⟩ | ⟨text, count, offset, points, ⟨before, shown⟩ | ⟨within, inside, shown⟩⟩ :=
      source_cases f s args
    · exact .inr (.inl ⟨kept, by rwa [shown]⟩)
    · exact .inl (by rw [shown]; rfl)
    · exact .inr (.inr ⟨text, count, offset, _, points, within, inside, by rw [shown], rfl,
        count_newline_sourceLines _ _⟩)

/-- A stored symbol table can lead the source command out of the source. -/
theorem source_outside_stored :
    ¬∀ (bytes : Bytes) (table : SymbolTable) (s : Session) (args : List Bytes),
      SymbolTable.decode bytes = .ok table → s.debugger.symbols = some table →
      (s.source args).2 = none := by
  intro inside
  let table : SymbolTable := { source := [97], symbols := some [(0, -1)], labels := some [] }
  have stored : SymbolTable.decode table.encode = .ok table := ok_of_toOption (by decide +kernel)
  let s : Session := { debugger := { symbols := some table }, files := {}, sourceText := some [10] }
  have points : Points .lowest s [] [10] 3 (-1) :=
    ⟨Nat.zero_le 2, table, 0, rfl, by simp [table], rfl, rfl, by decide⟩
  have left := inside _ table s [] stored rfl
  simp [source, source_of_before points (by decide)] at left

end WordMachine.Session
