import WordMachine.Proofs.Assembly.LineStarts
import WordMachine.Proofs.Location.Spelled
import WordMachine.Session.Inspect

/-! The source lines behind addresses. A symbol table records for an address where the last line begins
that has a statement there, and a session shows the source from that line on. -/

namespace WordMachine

open Text

namespace Assembly

open Act

def recordedOffsets (entries : List (Nat × Act)) : List (UInt16 × Int) :=
  ((entries.filterMap recorded?).filter fun e => e.1 < memorySize).map fun (addr, start) =>
    (addr.toUInt16, (Cursor.of start 1).lineByte)

namespace Draft

theorem declare_symbols {d : Draft} {before : SymbolTable} (attached : d.table = some before) (t : Token) :
    ∃ after, (d.declare t).table = some after ∧ after.source = before.source ∧
      after.symbols = before.symbols := by
  simp only [declare]
  split
  · exact ⟨before, attached, rfl, rfl⟩
  · split
    · exact ⟨before, attached, rfl, rfl⟩
    · split
      · exact ⟨before, attached, rfl, rfl⟩
      · exact ⟨before.addLabel d.addr.toUInt16 (labelName t), by rw [attached]; rfl, rfl, rfl⟩

end Draft

theorem Draft.perform_symbols {d : Draft} {before : SymbolTable} (attached : d.table = some before)
    (e : Nat × Act) :
    ∃ after, (d.perform e).table = some after ∧ after.source = before.source ∧ after.symbols =
      before.symbols.map fun m => (recordedOffsets [e]).foldl (fun m p => AddressMap.insert p.1 p.2 m) m := by
  obtain ⟨addr, act⟩ := e
  have unrecorded : recorded? (addr, act) = none →
      (∃ after, (d.perform (addr, act)).table = some after ∧ after.source = before.source ∧
        after.symbols = before.symbols) →
      ∃ after, (d.perform (addr, act)).table = some after ∧ after.source = before.source ∧ after.symbols =
        before.symbols.map fun m =>
          (recordedOffsets [(addr, act)]).foldl (fun m p => AddressMap.insert p.1 p.2 m) m := by
    rintro none' ⟨after, same, source, symbols⟩
    refine ⟨after, same, source, ?_⟩
    rw [symbols, recordedOffsets, List.filterMap_cons_none none']
    exact Option.map_id'.symm
  cases act with
  | refuse t cause => exact unrecorded rfl ⟨before, attached, rfl, rfl⟩
  | fill cell => exact unrecorded rfl ⟨before, ((d.moveTo addr).fill_keeps cell).1.trans attached, rfl, rfl⟩
  | declare t => exact unrecorded rfl (declare_symbols (d := d.moveTo addr) attached t)
  | record start =>
    simp only [perform, act, recordLine]
    by_cases inside : addr < memorySize
    · refine ⟨before.addSymbol addr.toUInt16 (Cursor.of start 1).lineByte, ?_, rfl, ?_⟩
      · simp [moveTo, inside, attached]
      · simp [recordedOffsets, recorded?, inside, SymbolTable.addSymbol]
    · refine ⟨before, ?_, rfl, ?_⟩
      · simp [moveTo, inside, attached]
      · simp [recordedOffsets, recorded?, inside]

theorem drafted_offsets (origin : Bytes) (entries : List (Nat × Act)) :
    ∃ table, (drafted (some { source := origin }) entries).table = some table ∧ table.source = origin ∧
      table.symbols = some (AddressMap.ofPairs (recordedOffsets entries)) := by
  induction entries using List.reverseRecOn with
  | nil => exact ⟨_, rfl, rfl, rfl⟩
  | append_singleton entries e ih =>
    obtain ⟨table, attached, source, symbols⟩ := ih
    obtain ⟨after, attached', source', symbols'⟩ := Draft.perform_symbols attached e
    have split : recordedOffsets (entries ++ [e]) = recordedOffsets entries ++ recordedOffsets [e] := by
      rw [recordedOffsets, List.filterMap_append, List.filter_append, List.map_append]
      rfl
    refine ⟨after, by rw [drafted_concat, attached'], source'.trans source, ?_⟩
    rw [symbols', symbols, split, AddressMap.ofPairs, AddressMap.ofPairs, List.foldl_append]
    rfl

theorem assemble_offsets {source : Bytes} (origin : Bytes) {lines : List Line}
    (parsed : parse source = .ok lines) :
    ∃ table, (assemble source (some { source := origin })).table = some table ∧ table.source = origin ∧
      ∀ a, table.offset? a = (recordedOffsets (script (course 0 lines))).reverse.lookup a := by
  obtain ⟨table, attached, named, symbols⟩ := drafted_offsets origin (script (course 0 lines))
  refine ⟨table, ?_, named, fun a => ?_⟩
  · rw [assemble_script parsed]
    split <;> exact (Draft.finish_table _).trans attached
  · rw [SymbolTable.offset?, SymbolTable.symbolMap, symbols]
    exact AddressMap.get?_ofPairs _ a

theorem recordedOffsets_script (placed : List (Nat × Line)) :
    recordedOffsets (script placed) = placed.filterMap fun (base, l) =>
      if l.begins = true ∧ base < memorySize then some (base.toUInt16, ((Cursor.of l.start 1).lineByte : Int))
      else none := by
  rw [recordedOffsets, script_recorded, records, List.filter_filterMap, List.map_filterMap]
  refine List.filterMap_congr fun e _ => ?_
  obtain ⟨base, l⟩ := e
  cases begins : l.begins with
  | false => simp [begins]
  | true => by_cases inside : base < memorySize <;> simp [begins, inside, Nat.le_of_not_lt]

theorem lookup_reverse_last {α β : Type} [BEq α] [LawfulBEq α] (front : List (α × β)) {back : List (α × β)}
    {a : α} {b : β} (last : ∀ e ∈ back, e.1 ≠ a) : (front ++ (a, b) :: back).reverse.lookup a = some b := by
  have none' : back.reverse.lookup a = none := by
    rw [List.lookup_eq_none_iff]
    intro e mem
    simpa using Ne.symm (last e (List.mem_reverse.mp mem))
  rw [List.reverse_append, List.reverse_cons, List.append_assoc, List.lookup_append, none']
  simp

theorem isSome_lookup_recordedOffsets {placed : List (Nat × Line)} {a : UInt16} :
    ((recordedOffsets (script placed)).reverse.lookup a).isSome ↔
      a.toNat < memorySize ∧ ∃ l, (a.toNat, l) ∈ placed ∧ l.begins = true := by
  rw [recordedOffsets_script, ← not_iff_not, Bool.not_eq_true, Option.isSome_eq_false_iff, Option.isNone_iff_eq_none,
    List.lookup_eq_none_iff]
  constructor
  · rintro missing ⟨inside, l, listed, begins⟩
    have here := missing (a, ((Cursor.of l.start 1).lineByte : Int)) (List.mem_reverse.mpr
      (List.mem_filterMap.mpr ⟨_, listed, by simp [begins, inside]⟩))
    simp at here
  · intro none' e mem
    obtain ⟨⟨base, l⟩, listed, recorded⟩ := List.mem_filterMap.mp (List.mem_reverse.mp mem)
    obtain ⟨⟨begins, inside⟩, rfl⟩ := Option.ite_some_none_eq_some.mp recorded
    rw [bne_iff_ne]
    intro same
    have here : base = a.toNat := (Location.toUInt16_eq_iff (inside.trans (by decide))).mp same.symm
    exact none' ⟨here ▸ inside, l, here ▸ listed, begins⟩

theorem lookup_recordedOffsets {earlier later : List (Nat × Line)} {l : Line} {a : UInt16}
    (inside : a.toNat < memorySize) (begins : l.begins = true)
    (last : ∀ e ∈ later, e.2.begins = true → e.1 ≠ a.toNat) :
    (recordedOffsets (script (earlier ++ (a.toNat, l) :: later))).reverse.lookup a =
      some ((Cursor.of l.start 1).lineByte : Int) := by
  have here : a.toNat.toUInt16 = a := (Location.toUInt16_eq_iff a.toNat_lt).mpr rfl
  rw [recordedOffsets_script, List.filterMap_append, List.filterMap_cons]
  simp only [begins, inside, and_self, if_true, here]
  refine lookup_reverse_last _ ?_
  intro e mem
  obtain ⟨⟨base, m⟩, listed, recorded⟩ := List.mem_filterMap.mp mem
  obtain ⟨⟨begins', inside'⟩, rfl⟩ := Option.ite_some_none_eq_some.mp recorded
  exact fun same => last _ listed begins' ((Location.toUInt16_eq_iff (inside'.trans (by decide))).mp same)

end Assembly

namespace Session

theorem sourceLines_cons {text line : Bytes} {more : List Bytes} {count : Int}
    (lines : Assembly.textLines text = line :: more) (some' : 0 < count) :
    ∃ others, sourceLines text count = cursorMark ++ " " ++ line ++ "\n" ++ others := by
  obtain ⟨n, counted⟩ : ∃ n, count.toNat = n + 1 := ⟨count.toNat - 1, by omega⟩
  rw [sourceLines, ← Assembly.textLines, lines, counted, List.take_succ_cons, List.zipIdx_cons, List.flatMap_cons]
  exact ⟨_, rfl⟩

theorem source_eq {s s' : Session} {args : List Bytes} {table : SymbolTable} {text : Bytes} {addr : UInt16}
    {count : Int} {offset : Nat} (symbols : s.debugger.symbols = some table) (named : table.source ≠ [])
    (loaded : s.loadSource table.source = .ok (text, s')) (few : args.length ≤ 2)
    (range : s'.readRange args 3 = .ok (addr, count)) (found : table.offset? addr = some (offset : Int))
    (inside : offset < text.length) :
    s.source args = (s'.print (sourceLines (text.drop offset) count), none) := by
  have filled : table.source.isEmpty = false := by simpa using named
  have within : ¬(text.length : Int) ≤ offset := by omega
  have from' : sourceFrom? text offset = some (text.drop offset) := by simp [sourceFrom?]
  have range' : readRangeBy .lowest s' args 3 = .ok (addr, count) := range
  rw [source, sourceBy, if_neg (by omega), symbols]
  simp only [filled, loaded, range', found, within, from', Bool.false_eq_true, if_false]

end Session

namespace Assembly

/-- In the symbol table of a source that can be read, accepted or not, there is an entry for an address
exactly if the statement of some line begins there. It is the start of the last such line, which is
what a session shows first of the source at that address. -/
theorem assemble_lineStarts {source : Bytes} (origin : Bytes) {lines : List Line}
    (parsed : parse source = .ok lines) :
    ∃ table, (assemble source (some { source := origin })).table = some table ∧ ∀ a : UInt16,
      ((table.offset? a).isSome ↔
        a.toNat < memorySize ∧ ∃ l, (a.toNat, l) ∈ course 0 lines ∧ l.begins = true) ∧
      ∀ earlier l later, course 0 lines = earlier ++ (a.toNat, l) :: later → a.toNat < memorySize →
        l.begins = true → (∀ e ∈ later, e.2.begins = true → e.1 ≠ a.toNat) →
        ∃ shown, (textLines source)[earlier.length]? = some shown ∧ l.start.line = earlier.length + 1 ∧
          table.offset? a = some (lineOffset source earlier.length : Int) ∧
          (lineOffset source earlier.length = 0 ∨
            ∃ n, lineOffset source earlier.length = n + 1 ∧ source[n]? = some Bytes.newline) ∧
          ∀ (s s' : Session) (args : List Bytes) (count : Int), s.debugger.symbols = some table →
            origin ≠ [] → s.loadSource origin = .ok (source, s') → args.length ≤ 2 →
            s'.readRange args 3 = .ok (a, count) → 0 < count →
            ∃ more, s.source args =
              (s'.print (Session.cursorMark ++ " " ++ shown ++ "\n" ++ more), none) := by
  obtain ⟨table, attached, named, offsets⟩ := assemble_offsets origin parsed
  refine ⟨table, attached, fun a => ⟨by rw [offsets]; exact isSome_lookup_recordedOffsets, ?_⟩⟩
  intro earlier l later placed inside begins last
  have read := map_snd_course 0 lines
  rw [placed, List.map_append, List.map_cons] at read
  have stated : l.statement.isSome := by
    cases statement : l.statement with
    | none => simp [Line.begins, statement] at begins
    | some s => rfl
  obtain ⟨before, blanks, rest, starts⟩ := line_starts (read ▸ parsed) stated
  rw [List.length_map] at starts
  obtain ⟨recorded, offset, lines', line⟩ := starts.lineByte
  have follows := starts.whole.follows (blanks ++ rest)
  rw [← starts.text] at follows
  obtain ⟨shown, more, first⟩ := List.exists_cons_of_ne_nil
    (Bytes.splitAll_ne_nil Bytes.newline (blanks ++ rest))
  have found : table.offset? a = some (lineOffset source earlier.length : Int) := by
    rw [offsets, placed, lookup_recordedOffsets inside begins last, recorded]
  have here : (textLines source)[earlier.length]? = some shown := by
    have head := congrArg List.head? (lines'.trans first)
    rwa [List.head?_drop] at head
  refine ⟨shown, here, line, found, offset ▸ follows, ?_⟩
  intro s s' args count symbols filled loaded few range some'
  have within : lineOffset source earlier.length < source.length := by
    have length := congrArg List.length starts.text
    have some'' := List.length_pos_iff.mpr starts.filled
    rw [List.length_append, List.length_append] at length
    omega
  have left : textLines (source.drop (lineOffset source earlier.length)) = shown :: more := by
    rw [offset, starts.text, List.drop_left]
    exact first
  obtain ⟨others, printed⟩ := Session.sourceLines_cons left some'
  refine ⟨others, ?_⟩
  rw [Session.source_eq symbols (named ▸ filled) (named ▸ loaded) few range found within, printed]

def overlaid : Bytes := Bytes.ofString "; \u00e9\n\tx: noop\r\n.orig 0\n\tout '\u00e9'\n"

theorem assemble_lineStarts_overlaid :
    ∃ table, (assemble overlaid (some { source := [97] })).table = some table ∧
      table.offset? 0 = some 23 ∧ table.offset? 2 = none ∧
      ∀ s : Session, s.debugger.symbols = some table → s.sourceText = some overlaid →
        s.debugger.program = 0 →
        ∃ more, s.source [] = (s.print ("=> \tout '\u00e9'\n" ++ more), none) := by
  obtain ⟨lines, parsed⟩ : ∃ lines, parse overlaid = .ok lines := exists_ok_of_toOption (by decide +kernel)
  have facts : (parse overlaid).toOption.map (fun lines =>
      (course 0 lines).map fun (base, l) => (base, l.begins)) =
        some ([(0, false), (0, true), (0, false)] ++ [(0, true)]) := by
    decide +kernel
  rw [parsed] at facts
  obtain ⟨earlier, last, placed, before, here⟩ := List.map_eq_append_iff.mp (Option.some.inj facts)
  obtain ⟨⟨base, l⟩, rfl, same⟩ := List.map_eq_singleton_iff.mp here
  obtain ⟨rfl, begins⟩ := Prod.mk.inj same
  have length : earlier.length = 3 := by simpa using congrArg List.length before
  obtain ⟨table, attached, found⟩ := assemble_lineStarts [97] parsed
  obtain ⟨shown, line, -, offset, -, session⟩ := (found 0).2 earlier l [] placed (by decide) begins (by simp)
  rw [length] at line offset
  refine ⟨table, attached, offset.trans (by decide), ?_, ?_⟩
  · rw [← Option.not_isSome_iff_eq_none, (found 2).1]
    rintro ⟨-, m, listed, -⟩
    have seen := List.mem_map_of_mem (f := fun (e : Nat × Line) => (e.1, e.2.begins)) listed
    rw [show (course 0 lines).map (fun e => (e.1, e.2.begins)) = _ from Option.some.inj facts] at seen
    simp at seen
  · intro s symbols text program
    obtain ⟨more, printed⟩ := session s s [] 3 symbols (by simp) (by simp [Session.loadSource, text])
      (Nat.zero_le _) (by simp only [Session.readRange, Session.readRangeBy, program]; rfl) (by decide)
    obtain rfl : Bytes.ofString "\tout '\u00e9'" = shown := Option.some.inj ((by decide : _ = _).trans line)
    exact ⟨more, printed⟩

end Assembly

end WordMachine
