import WordMachine.Proofs.Assembly.Labels
import WordMachine.Proofs.Location
import WordMachine.Session.Change
import WordMachine.Session.Triggers
import WordMachine.Settings

/-! Labels as the places that settings and commands name. Texts that read as addresses are
addresses, whatever the labels of the program are, so a label stands for its own address only if
it is not spelled like a number. -/

namespace WordMachine

open Assembly

def withTrigger (bs : List Breakpoint) (t : Trigger) : List Breakpoint :=
  if bs.any (·.trigger = t) then bs else bs ++ [{ trigger := t }]

theorem Session.printMemory_debugger (s : Session) (addr : UInt16) (count : Int) :
    (s.printMemory addr count).debugger = s.debugger := by
  unfold printMemory
  split <;> rfl

namespace Debugger

variable {d : Debugger} {t : Bytes} {addr : UInt16}

theorem addTrigger_breakpoints (d : Debugger) (t : Trigger) :
    (d.addTrigger t).2.breakpoints = withTrigger d.breakpoints t := by
  unfold addTrigger withTrigger
  split
  · next k found =>
    have there : d.breakpoints.any (·.trigger = t) = true := by
      rw [← List.findIdx?_isSome, found]
      rfl
    rw [if_pos there]
  · next missing =>
    have absent : d.breakpoints.any (·.trigger = t) = false := by
      rw [← List.findIdx?_isSome, missing]
      rfl
    rw [absent]
    rfl

/-- An address that a text stands for wherever only addresses are taken. -/
structure Denotes (d : Debugger) (t : Bytes) (addr : UInt16) : Prop where
  breakpoint : ∃ d', Settings.install { breakpoints := [t] } d = (d', none) ∧
    d'.breakpoints = withTrigger d.breakpoints (.address addr)
  location : ∀ s : Session, s.debugger = d → s.location t = .ok addr
  jump : ∀ s : Session, s.debugger = d → d.mode ≠ .running → (s.jump [t]).debugger.program = addr
  set : ∀ (s : Session) (value : Bytes) (w : UInt16), s.debugger = d → d.mode ≠ .running →
    Location.readWord value = .ok w →
    (s.setMemory [t, value]).debugger.machine.state.memory[addr.toNat]? = some w

structure DenotesCell (d : Debugger) (t : Bytes) (addr : UInt16) : Prop where
  watch : ∃ d', Settings.install { watches := [t] } d = (d', none) ∧
    d'.breakpoints = withTrigger d.breakpoints (.memory addr)
  breakAdd : ∀ s : Session, s.debugger = d →
    (s.breakpoints [Bytes.ofString "add", t]).debugger.breakpoints =
      withTrigger d.breakpoints (.address addr)
  watches : ∀ s : Session, s.debugger = d →
    (s.watches [t]).debugger.breakpoints = withTrigger d.breakpoints (.memory addr)
  print : ∀ s : Session, s.debugger = d → ∃ word, d.machine.state.memory[addr.toNat]? = some word ∧
    s.inspect [t] = s.printLine ((Location.Target.address addr).text ++ ": " ++
      Text.Numeral.decimal word.toNat ++ " (" ++ Instruction.formatOperand word ++ ")")

theorem setBreakpoint_eq (inside : addr.toNat < memorySize) :
    d.setBreakpoint addr = .ok (d.addTrigger (.address addr)) := if_pos inside

theorem setMemoryWatch_eq (inside : addr.toNat < memorySize) :
    d.setMemoryWatch addr = .ok (d.addTrigger (.memory addr)) := if_pos inside

theorem readMemory_one (inside : addr.toNat < memorySize) :
    d.readMemory addr 1 = .ok [d.machine.state.memory[addr.toNat]] := by
  have short : ¬memorySize < addr.toNat + Int.toNat 1 := by
    rw [Int.toNat_one]
    omega
  have there : addr.toNat < d.machine.state.memory.toList.length := by simpa using inside
  rw [readMemory, if_neg (by decide), if_neg short, List.drop_eq_getElem_cons there]
  simp

theorem location_eq {s : Session} (located : s.debugger.locate? t = some addr) : s.location t = .ok addr := by
  have located' : s.debugger.locateBy .lowest t = some addr := located
  rw [Session.location, Session.locationBy, located']

theorem denotes_of_locate? (located : d.locate? t = some addr) (inside : addr.toNat < memorySize) :
    d.Denotes t addr where
  breakpoint := by
    refine ⟨(d.addTrigger (.address addr)).2, ?_, d.addTrigger_breakpoints _⟩
    simp [Settings.install, Settings.installEach, Settings.installBreakpoint, located,
      setBreakpoint_eq inside]
  location := by
    rintro s rfl
    exact location_eq located
  jump := by
    rintro s rfl idle
    simp [Session.jump, location_eq located, Session.withOk, Session.changed, Debugger.jump, whenIdle,
      idle, inside, Session.printLine, Session.print_debugger, program, setState]
  set := by
    rintro s value w rfl idle read
    have small : ¬wordMax < w := UInt16.not_lt.mpr (Location.readWord_le read)
    have word : Session.readWord value = .ok w := by rw [Session.readWord, read]; rfl
    simp [Session.setMemory, location_eq located, word, Session.withOk, Session.changed,
      Debugger.writeMemory, whenIdle, idle, small, Machine.write, inside, Session.printMemory_debugger, record, State.setMemory]

theorem denotesCell_of_locate? (located : d.locate? t = some addr) (inside : addr.toNat < memorySize)
    (cell : Location.register? t = none) : d.DenotesCell t addr where
  watch := by
    refine ⟨(d.addTrigger (.memory addr)).2, ?_, d.addTrigger_breakpoints _⟩
    simp [Settings.install, Settings.installEach, Settings.installWatch, watch?, cell, located,
      setMemoryWatch_eq inside]
  breakAdd := by
    rintro s rfl
    have verb : Session.named? Session.BreakVerb.names (Bytes.ofString "add") = some .add := by decide
    have added : s.addTrigger t = .ok ((s.debugger.addTrigger (.address addr)).1,
        { s with debugger := (s.debugger.addTrigger (.address addr)).2 }) := by
      simp [Session.addTrigger, cell, location_eq located, setBreakpoint_eq inside, Except.mapError,
        Except.map]
    simp [Session.breakpoints, verb, Session.breakAdd, added, Session.withOk, Session.printLine,
      Session.print_debugger, addTrigger_breakpoints]
  watches := by
    rintro s rfl
    have added : s.addWatch t = .ok ((s.debugger.addTrigger (.memory addr)).1,
        { s with debugger := (s.debugger.addTrigger (.memory addr)).2 }) := by
      simp [Session.addWatch, watch?, cell, located, setMemoryWatch_eq inside, Except.mapError, Except.map]
    simp only [Session.watches, added, Session.withOk]
    split <;> simp [Session.printLine, Session.print_debugger, addTrigger_breakpoints]
  print := by
    rintro s rfl
    refine ⟨s.debugger.machine.state.memory[addr.toNat], by simp [inside], ?_⟩
    simp only [Session.inspect, cell, location_eq located, Session.withOk, readMemory_one inside]
    rfl

theorem locate?_of_readAddress_error (unread : ∀ v, Location.readAddress t ≠ .ok v) :
    d.locate? t = d.labelled? t := by
  unfold locate? locateBy
  split
  · next v read => exact absurd read (unread v)
  · rfl

end Debugger

theorem Location.SpellsHex.register? {t : Bytes} (spells : Location.SpellsHex t) :
    Location.register? t = none := by
  obtain ⟨mark, digits, rfl, hex, -⟩ := spells
  unfold Location.register?
  split
  · next target =>
    obtain ⟨b, rest, same, letter, -⟩ := Location.readTarget_register target
    obtain ⟨rfl, -⟩ := List.cons.inj same
    obtain rfl | rfl := letter <;> exact absurd hex (by decide)
  · rfl

/-- A label of a program stands for its address, unless it is spelled like an address itself, and
then it stands for that one. It is taken for a register only if it has both letters of one. -/
theorem labels_denote {source origin : Bytes} {image : List UInt16}
    (accepted : (assemble source (some { source := origin })).outcome = .ok image) :
    ∃ table, (assemble source (some { source := origin })).table = some table ∧
      ∀ name addr, table.lookup name = some addr → ∀ d : Debugger, d.symbols = some table →
        ((∀ v, Location.readAddress name ≠ .ok v) →
          d.Denotes name addr ∧ (Location.register? name = none → d.DenotesCell name addr)) ∧
        (∀ v, Location.readAddress name = .ok v →
          Location.SpellsHex name ∧ d.Denotes name v ∧ d.DenotesCell name v) ∧
        ∀ r, Location.register? name = some r →
          ∃ digits, name = Bytes.ascii 'r' :: Bytes.ascii 'R' :: digits ∧
            ∀ b ∈ digits, Bytes.isDigit b = true := by
  obtain ⟨table, attached, labels⟩ := assemble_label accepted
  refine ⟨table, attached, fun name addr looked d symbols => ?_⟩
  obtain ⟨inside, named, free⟩ := labels name addr looked
  refine ⟨fun unread => ?_, fun v read => ?_, fun r read => Location.register?_name free read⟩
  · have located : d.locate? name = some addr := by
      rw [Debugger.locate?_of_readAddress_error unread, Debugger.labelled?, Debugger.labelledBy, symbols]
      exact looked
    exact ⟨Debugger.denotes_of_locate? located inside, Debugger.denotesCell_of_locate? located inside⟩
  · have spells := Location.readAddress_name named read
    have located := d.locate?_of_readAddress read
    have small : v.toNat < memorySize := by
      have bound : v.toNat ≤ wordMax.toNat := UInt16.le_iff_toNat_le.mp (Location.readWord_le read)
      exact Nat.lt_succ_of_le bound
    exact ⟨spells, Debugger.denotes_of_locate? located small,
      Debugger.denotesCell_of_locate? located small spells.register?⟩

def numbering : Bytes := Bytes.ofString "noop\nx10: noop\nloop: halt\n"

theorem numbering_accepted : ∃ image, (assemble numbering (some { source := [] })).outcome = .ok image :=
  exists_ok_of_toOption (by decide +kernel)

theorem numbering_lookup {table : SymbolTable}
    (attached : (assemble numbering (some { source := [] })).table = some table) :
    table.lookup (Bytes.ofString "x10") = some 1 ∧ table.lookup (Bytes.ofString "loop") = some 2 := by
  have facts : (assemble numbering (some { source := [] })).table.map (fun table =>
      (table.lookup (Bytes.ofString "x10"), table.lookup (Bytes.ofString "loop"))) =
        some (some 1, some 2) := by
    decide +kernel
  simpa [attached] using facts

theorem labels_denote_numbering :
    ∃ table, (assemble numbering (some { source := [] })).table = some table ∧
      ∀ d : Debugger, d.symbols = some table →
        d.Denotes (Bytes.ofString "loop") 2 ∧ d.DenotesCell (Bytes.ofString "loop") 2 ∧
          d.Denotes (Bytes.ofString "x10") 16 := by
  obtain ⟨image, accepted⟩ := numbering_accepted
  obtain ⟨table, attached, labels⟩ := labels_denote accepted
  obtain ⟨spelled, plain⟩ := numbering_lookup attached
  refine ⟨table, attached, fun d symbols => ?_⟩
  have unread : ∀ v, Location.readAddress (Bytes.ofString "loop") ≠ .ok v := by
    intro v read
    have refused : (Location.readAddress (Bytes.ofString "loop")).toOption = none := by decide
    simp [read, Except.toOption] at refused
  obtain ⟨denotes, cell⟩ := (labels _ _ plain d symbols).1 unread
  obtain ⟨-, other, -⟩ := (labels _ _ spelled d symbols).2.1 16 (ok_of_toOption (by decide))
  exact ⟨denotes, cell (by decide), other⟩

/-- A label need not be the place that its own name denotes. -/
theorem label_overruled :
    ¬∀ (source origin : Bytes) (image : List UInt16) (table : SymbolTable) (name : Bytes) (addr : UInt16)
      (d : Debugger), (assemble source (some { source := origin })).outcome = .ok image →
      (assemble source (some { source := origin })).table = some table →
      table.lookup name = some addr → d.symbols = some table →
      ∃ d', Settings.install { breakpoints := [name] } d = (d', none) ∧
        d'.breakpoints = withTrigger d.breakpoints (.address addr) := by
  intro denote
  obtain ⟨image, accepted⟩ := numbering_accepted
  obtain ⟨table, attached, -⟩ := assemble_label accepted
  have located := Debugger.locate?_of_readAddress { symbols := some table }
    (ok_of_toOption (by decide) : Location.readAddress (Bytes.ofString "x10") = .ok 16)
  obtain ⟨d', installed, there⟩ := (Debugger.denotes_of_locate? located (by decide)).breakpoint
  obtain ⟨d'', installed', here⟩ := denote numbering [] image table (Bytes.ofString "x10") 1
    { symbols := some table } accepted attached (numbering_lookup attached).1 rfl
  obtain rfl : d' = d'' := congrArg Prod.fst (installed.symm.trans installed')
  have same : withTrigger [] (.address 16) = withTrigger [] (.address 1) := there.symm.trans here
  exact absurd same (by decide)

end WordMachine
