import WordMachine.Proofs.Location.Spelled
import WordMachine.Proofs.Session.Places

/-! What the settings install. A request asks for one trigger at most, however it is spelled, and
requests of different spelling may ask for the same one; installing goes on to the first that asks
for none. The list of breakpoints gains the triggers asked for that it does not have, in the
order in which they are first asked for, so installing once more finds nothing left to add. -/

namespace WordMachine

open Location

def SymbolTable.Unambiguous (table : SymbolTable) : Prop :=
  ∀ a b name, (a, name) ∈ table.labelMap → (b, name) ∈ table.labelMap → a = b

theorem SymbolTable.Unambiguous.lookup_eq_some_iff {table : SymbolTable} (single : table.Unambiguous)
    {name : Bytes} {addr : UInt16} : table.lookup name = some addr ↔ (addr, name) ∈ table.labelMap := by
  refine ⟨SymbolTable.mem_of_lookup, fun listed => ?_⟩
  cases looked : table.lookup name with
  | none => exact absurd listed (SymbolTable.not_mem_of_lookup looked addr)
  | some a => rw [single a addr name (SymbolTable.mem_of_lookup looked) listed]

inductive Names (symbols : Option SymbolTable) (t : Bytes) (addr : UInt16) : Prop
  | number (spells : SpellsAddress t addr)
  | label {table : SymbolTable} (unspelled : ∀ a, ¬SpellsAddress t a) (attached : symbols = some table)
      (listed : (addr, t) ∈ table.labelMap)

theorem Debugger.locate?_eq_some_iff {d : Debugger} (single : ∀ table ∈ d.symbols, table.Unambiguous)
    {t : Bytes} {addr : UInt16} : d.locate? t = some addr ↔ Names d.symbols t addr := by
  unfold locate? locateBy
  cases read : readAddress t with
  | ok a =>
    have spells := readAddress_ok_iff.mp read
    constructor
    · rintro ⟨⟩
      exact .number spells
    · rintro (other | ⟨unspelled, -, -⟩)
      · rw [← readAddress_ok_iff, read] at other
        rw [Except.ok.inj other]
      · exact absurd spells (unspelled a)
  | error e =>
    have unspelled : ∀ a, ¬SpellsAddress t a := fun a spells => by
      rw [readAddress_ok_iff.mpr spells] at read
      exact nomatch read
    constructor
    · intro labelled
      obtain ⟨table, attached, looked⟩ := Option.bind_eq_some_iff.mp labelled
      exact .label unspelled attached ((single table attached).lookup_eq_some_iff.mp looked)
    · rintro (spells | ⟨-, attached, listed⟩)
      · exact absurd spells (unspelled addr)
      · exact Option.bind_eq_some_iff.mpr ⟨_, attached, (single _ attached).lookup_eq_some_iff.mpr listed⟩

namespace Settings

inductive Request where
  | breakpoint (t : Bytes)
  | watch (t : Bytes)
  deriving DecidableEq, Repr

/-- The trigger that a request asks for. A watch is on a register if it spells one. -/
inductive Request.Asks (symbols : Option SymbolTable) : Request → Trigger → Prop
  | address {t : Bytes} {addr : UInt16} (named : Names symbols t addr) (inside : addr.toNat < 32768) :
      Asks symbols (.breakpoint t) (.address addr)
  | register {t : Bytes} {r : Register} (spells : SpellsRegister t r) : Asks symbols (.watch t) (.register r)
  | memory {t : Bytes} {addr : UInt16} (cell : ∀ r, ¬SpellsRegister t r) (named : Names symbols t addr)
      (inside : addr.toNat < 32768) : Asks symbols (.watch t) (.memory addr)

end Settings

/-- The triggers of a list that no breakpoint has yet, each where it comes first, switched on. -/
def newBreakpoints (bs : List Breakpoint) (triggers : List Trigger) : List Breakpoint :=
  ((triggers.filter fun t => t ∉ bs.map Breakpoint.trigger).eraseDups).map
    fun t => { trigger := t, enabled := true }

theorem newBreakpoints_cons (bs : List Breakpoint) (t : Trigger) (triggers : List Trigger) :
    bs ++ newBreakpoints bs (t :: triggers) =
      withTrigger bs t ++ newBreakpoints (withTrigger bs t) triggers := by
  by_cases present : t ∈ bs.map Breakpoint.trigger
  · have there : bs.any (·.trigger = t) = true := by simpa using present
    rw [withTrigger, if_pos there, newBreakpoints, List.filter_cons_of_neg (by simpa using present),
      newBreakpoints]
  · have absent : ¬bs.any (·.trigger = t) = true := by simpa using present
    have later : (triggers.filter fun u => u ∉ bs.map Breakpoint.trigger).filter (fun u => !u == t) =
        triggers.filter fun u => u ∉ (bs ++ [({ trigger := t } : Breakpoint)]).map Breakpoint.trigger := by
      rw [List.filter_filter]
      refine List.filter_congr fun u _ => ?_
      rw [Bool.eq_iff_iff, List.map_append]
      simp only [Bool.and_eq_true, Bool.not_eq_true', beq_eq_false_iff_ne, decide_eq_true_eq,
        List.mem_append, List.map_cons, List.map_nil, List.mem_singleton, not_or]
      exact and_comm
    rw [withTrigger, if_neg absent, newBreakpoints, List.filter_cons_of_pos (by simpa using present),
      List.eraseDups_cons, later, List.map_cons, newBreakpoints, List.append_assoc, List.singleton_append]

theorem exists_mem_newBreakpoints (bs : List Breakpoint) {triggers : List Trigger} {t : Trigger}
    (asked : t ∈ triggers) : ∃ b ∈ bs ++ newBreakpoints bs triggers, b.trigger = t := by
  by_cases present : t ∈ bs.map Breakpoint.trigger
  · obtain ⟨b, listed, same⟩ := List.mem_map.mp present
    exact ⟨b, List.mem_append_left _ listed, same⟩
  · have kept : t ∈ (triggers.filter fun t => t ∉ bs.map Breakpoint.trigger).eraseDups := by
      rw [List.mem_eraseDups, List.mem_filter]
      exact ⟨asked, decide_eq_true present⟩
    exact ⟨_, List.mem_append_right _ (List.mem_map.mpr ⟨t, kept, rfl⟩), rfl⟩

namespace Debugger

variable {d : Debugger} {t : Trigger}

def addAll (d : Debugger) (triggers : List Trigger) : Debugger :=
  triggers.foldl (fun d t => (d.addTrigger t).2) d

theorem addTrigger_eq (d : Debugger) (t : Trigger) :
    ∃ log, (d.addTrigger t).2 = { d with breakpoints := withTrigger d.breakpoints t, log } := by
  refine ⟨(d.addTrigger t).2.log, ?_⟩
  rw [← d.addTrigger_breakpoints t]
  unfold addTrigger
  split <;> rfl

theorem addTrigger_symbols (d : Debugger) (t : Trigger) : (d.addTrigger t).2.symbols = d.symbols := by
  obtain ⟨log, added⟩ := d.addTrigger_eq t
  rw [added]

theorem addTrigger_of_mem (present : ∃ b ∈ d.breakpoints, b.trigger = t) : (d.addTrigger t).2 = d := by
  unfold addTrigger
  split
  · rfl
  · next missing =>
    obtain ⟨b, listed, rfl⟩ := present
    simpa using List.findIdx?_eq_none_iff.mp missing b listed

theorem addAll_eq (d : Debugger) (triggers : List Trigger) :
    ∃ log, d.addAll triggers =
      { d with breakpoints := d.breakpoints ++ newBreakpoints d.breakpoints triggers, log } := by
  induction triggers generalizing d with
  | nil => exact ⟨d.log, by simp [addAll, newBreakpoints]⟩
  | cons t triggers ih =>
    obtain ⟨log, added⟩ := d.addTrigger_eq t
    obtain ⟨log', rest⟩ := ih (d.addTrigger t).2
    refine ⟨log', ?_⟩
    rw [newBreakpoints_cons, addAll, List.foldl_cons, ← addAll, rest, added]

theorem addAll_symbols (d : Debugger) (triggers : List Trigger) :
    (d.addAll triggers).symbols = d.symbols := by
  obtain ⟨log, added⟩ := d.addAll_eq triggers
  rw [added]

theorem addAll_of_mem {triggers : List Trigger}
    (present : ∀ t ∈ triggers, ∃ b ∈ d.breakpoints, b.trigger = t) : d.addAll triggers = d := by
  induction triggers with
  | nil => rfl
  | cons t triggers ih =>
    obtain ⟨first, rest⟩ := List.forall_mem_cons.mp present
    rw [addAll, List.foldl_cons, addTrigger_of_mem first]
    exact ih rest

theorem addAll_addAll (d : Debugger) (triggers : List Trigger) :
    (d.addAll triggers).addAll triggers = d.addAll triggers := by
  obtain ⟨log, added⟩ := d.addAll_eq triggers
  refine addAll_of_mem fun t asked => ?_
  rw [added]
  exact exists_mem_newBreakpoints d.breakpoints asked

end Debugger

namespace Settings.Request

variable {d : Debugger} {e : Request} {t u : Trigger}

theorem Asks.unique (single : ∀ table ∈ d.symbols, table.Unambiguous) (asks : e.Asks d.symbols t)
    (other : e.Asks d.symbols u) : t = u := by
  cases asks with
  | address named =>
    cases other with
    | address named' =>
      rw [← Debugger.locate?_eq_some_iff single] at named named'
      rw [Option.some.inj (named.symm.trans named')]
  | register spells =>
    cases other with
    | register spells' =>
      rw [← register?_eq_some_iff] at spells spells'
      rw [Option.some.inj (spells.symm.trans spells')]
    | memory cell' => exact absurd spells (cell' _)
  | memory cell named =>
    cases other with
    | register spells' => exact absurd spells' (cell _)
    | memory cell' named' =>
      rw [← Debugger.locate?_eq_some_iff single] at named named'
      rw [Option.some.inj (named.symm.trans named')]

def install (d : Debugger) : Request → Except InstallError Debugger
  | .breakpoint t => Settings.installBreakpoint d t
  | .watch t => Settings.installWatch d t

theorem register?_eq_none {t : Bytes} (cell : ∀ r, ¬SpellsRegister t r) : register? t = none := by
  cases read : register? t with
  | none => rfl
  | some r => exact absurd (register?_eq_some_iff.mp read) (cell r)

theorem install_of_asks (single : ∀ table ∈ d.symbols, table.Unambiguous) (asks : e.Asks d.symbols t) :
    e.install d = .ok (d.addTrigger t).2 := by
  cases asks with
  | address named inside =>
    have located := (Debugger.locate?_eq_some_iff single).mpr named
    simp [install, Settings.installBreakpoint, located, Debugger.setBreakpoint_eq inside]
  | @register t r spells =>
    have set : d.setWatch r.val = .ok (d.addTrigger (.register r)) := by
      simp [Debugger.setWatch, Debugger.register?, Except.map]
    simp [install, Settings.installWatch, Debugger.watch?, register?_eq_some_iff.mpr spells, set]
  | memory cell named inside =>
    have located := (Debugger.locate?_eq_some_iff single).mpr named
    simp [install, Settings.installWatch, Debugger.watch?, register?_eq_none cell, located,
      Debugger.setMemoryWatch_eq inside]

/-- A request that asks for nothing names no address, or one beyond memory. -/
theorem install_of_not_asks (single : ∀ table ∈ d.symbols, table.Unambiguous)
    (none : ∀ t, ¬e.Asks d.symbols t) : ∃ failure, e.install d = .error failure := by
  cases e with
  | breakpoint t =>
    cases located : d.locate? t with
    | none => exact ⟨.breakpointUnknown t, by simp [install, Settings.installBreakpoint, located]⟩
    | some addr =>
      have beyond : ¬addr.toNat < memorySize := fun inside =>
        none _ (.address ((Debugger.locate?_eq_some_iff single).mp located) inside)
      exact ⟨.breakpointRefused t (d.outOfBounds addr.toUInt32), by
        simp [install, Settings.installBreakpoint, located, Debugger.setBreakpoint, beyond]⟩
  | watch t =>
    have cell : ∀ r, ¬SpellsRegister t r := fun r spells => none _ (.register spells)
    cases located : d.locate? t with
    | none =>
      exact ⟨.watchUnknown t, by
        simp [install, Settings.installWatch, Debugger.watch?, register?_eq_none cell, located]⟩
    | some addr =>
      have beyond : ¬addr.toNat < memorySize := fun inside =>
        none _ (.memory cell ((Debugger.locate?_eq_some_iff single).mp located) inside)
      exact ⟨.watchRefused t (d.outOfBounds addr.toUInt32), by
        simp [install, Settings.installWatch, Debugger.watch?, register?_eq_none cell, located,
          Debugger.setMemoryWatch, beyond]⟩

def installAll (d : Debugger) : List Request → Debugger × Option InstallError
  | [] => (d, none)
  | e :: more =>
    match e.install d with
    | .ok d => installAll d more
    | .error failure => (d, some failure)

theorem installAll_append (d : Debugger) (first second : List Request) :
    installAll d (first ++ second) =
      match installAll d first with
      | (d, some failure) => (d, some failure)
      | (d, none) => installAll d second := by
  induction first generalizing d with
  | nil => rfl
  | cons e more ih =>
    simp only [List.cons_append, installAll]
    cases e.install d with
    | ok d => exact ih d
    | error failure => rfl

theorem installEach_eq (one : Debugger → Bytes → Except InstallError Debugger) (kind : Bytes → Request)
    (same : ∀ d t, one d t = (kind t).install d) (d : Debugger) (ts : List Bytes) :
    Settings.installEach one d ts = installAll d (ts.map kind) := by
  induction ts generalizing d with
  | nil => rfl
  | cons t ts ih =>
    rw [Settings.installEach, List.map_cons, installAll, same]
    cases (kind t).install d with
    | ok d => exact ih d
    | error failure => rfl

theorem installAll_of_asks (single : ∀ table ∈ d.symbols, table.Unambiguous) {requests : List Request}
    {triggers : List Trigger} (asked : List.Forall₂ (Asks d.symbols) requests triggers) :
    installAll d requests = (d.addAll triggers, none) := by
  induction requests generalizing d triggers with
  | nil =>
    cases asked
    rfl
  | cons e more ih =>
    obtain ⟨t, rest, first, others, rfl⟩ := List.forall₂_cons_left_iff.mp asked
    have symbols := d.addTrigger_symbols t
    rw [installAll, install_of_asks single first]
    exact ih (by rwa [symbols]) (by rwa [symbols])

theorem installAll_stops (single : ∀ table ∈ d.symbols, table.Unambiguous) {before : List Request}
    {triggers : List Trigger} (asked : List.Forall₂ (Asks d.symbols) before triggers)
    (none : ∀ t, ¬e.Asks d.symbols t) (after : List Request) :
    ∃ failure, installAll d (before ++ e :: after) = (d.addAll triggers, some failure) := by
  have symbols := d.addAll_symbols triggers
  obtain ⟨failure, refused⟩ :=
    install_of_not_asks (d := d.addAll triggers) (by rwa [symbols]) (by rwa [symbols])
  refine ⟨failure, ?_⟩
  rw [installAll_append, installAll_of_asks single asked]
  simp only [installAll, refused]

theorem asks_or_stops (symbols : Option SymbolTable) (requests : List Request) :
    (∃ triggers, List.Forall₂ (Asks symbols) requests triggers) ∨
      ∃ before e after triggers, requests = before ++ e :: after ∧
        List.Forall₂ (Asks symbols) before triggers ∧ ∀ t, ¬Asks symbols e t := by
  induction requests with
  | nil => exact .inl ⟨[], .nil⟩
  | cons e more ih =>
    by_cases asking : ∃ t, Asks symbols e t
    · obtain ⟨t, asks⟩ := asking
      obtain ⟨triggers, asked⟩ | ⟨before, e', after, triggers, rfl, asked, none⟩ := ih
      · exact .inl ⟨t :: triggers, .cons asks asked⟩
      · exact .inr ⟨e :: before, e', after, t :: triggers, rfl, .cons asks asked, none⟩
    · exact .inr ⟨[], e, more, [], rfl, .nil, not_exists.mp asking⟩

end Settings.Request

namespace Settings

def requests (s : Settings) : List Request := s.breakpoints.map .breakpoint ++ s.watches.map .watch

theorem install_eq (s : Settings) (d : Debugger) : s.install d = Request.installAll d s.requests := by
  have breakpoints := Request.installEach_eq installBreakpoint .breakpoint fun _ _ => rfl
  have watches := Request.installEach_eq installWatch .watch fun _ _ => rfl
  rw [install, breakpoints, requests, Request.installAll_append]
  obtain ⟨d', _ | failure⟩ := Request.installAll d (s.breakpoints.map .breakpoint)
  · exact watches d' s.watches
  · rfl

/-- Installing succeeds exactly if every request asks for a trigger, and each asks for one at most.
The breakpoints are then those there were, and behind them the triggers asked for that were not
there, in the order in which they come first; installing again changes nothing. Otherwise they are
what the requests in front of the first one that asks for none make of them. -/
theorem install_exact (s : Settings) (d : Debugger) (single : ∀ table ∈ d.symbols, table.Unambiguous) :
    (∀ e t u, Request.Asks d.symbols e t → Request.Asks d.symbols e u → t = u) ∧
    ((∃ d' triggers, s.install d = (d', none) ∧
        List.Forall₂ (Request.Asks d.symbols) s.requests triggers ∧
        d' = { d with
          breakpoints := d.breakpoints ++ newBreakpoints d.breakpoints triggers, log := d'.log } ∧
        s.install d' = (d', none)) ∨
      ∃ d' failure before e after triggers, s.install d = (d', some failure) ∧
        s.requests = before ++ e :: after ∧ List.Forall₂ (Request.Asks d.symbols) before triggers ∧
        (∀ t, ¬Request.Asks d.symbols e t) ∧
        d' = { d with
          breakpoints := d.breakpoints ++ newBreakpoints d.breakpoints triggers, log := d'.log }) := by
  refine ⟨fun e t u asks other => asks.unique single other, ?_⟩
  obtain ⟨triggers, asked⟩ | ⟨before, e, after, triggers, same, asked, none⟩ :=
    Request.asks_or_stops d.symbols s.requests
  · obtain ⟨log, added⟩ := d.addAll_eq triggers
    have symbols := d.addAll_symbols triggers
    refine .inl ⟨d.addAll triggers, triggers, ?_, asked, ?_, ?_⟩
    · rw [install_eq, Request.installAll_of_asks single asked]
    · rw [added]
    · rw [install_eq, Request.installAll_of_asks (by rwa [symbols]) (by rwa [symbols]), d.addAll_addAll]
  · obtain ⟨log, added⟩ := d.addAll_eq triggers
    obtain ⟨failure, stops⟩ := Request.installAll_stops single asked none after
    refine .inr ⟨d.addAll triggers, failure, before, e, after, triggers, ?_, same, asked, none, ?_⟩
    · rw [install_eq, same, stops]
    · rw [added]

def charted : Debugger where
  breakpoints := [{ trigger := .memory 2, enabled := false }]
  symbols := some { labels := some [(2, Bytes.ofString "loop")] }

def spellings : Settings where
  breakpoints := [Bytes.ofString "@0x0_4", Bytes.ofString "#4", Bytes.ofString "loop"]
  watches := [Bytes.ofString "r1", Bytes.ofString "loop", Bytes.ofString "X2", Bytes.ofString "rR1"]

theorem charted_unambiguous : ∀ table ∈ charted.symbols, table.Unambiguous := by
  rintro table ⟨⟩ a b name here there
  simp only [SymbolTable.labelMap, Option.getD_some, List.mem_singleton, Prod.mk.injEq] at here there
  rw [here.1, there.1]

theorem install_exact_spellings :
    (∀ table ∈ charted.symbols, table.Unambiguous) ∧
      ∃ d', spellings.install charted = (d', none) ∧ spellings.install d' = (d', none) ∧
        d'.breakpoints = [{ trigger := .memory 2, enabled := false }, { trigger := .address 4 },
          { trigger := .address 2 }, { trigger := .register ⟨1, by decide⟩ }] := by
  refine ⟨charted_unambiguous, ?_⟩
  have complete : (spellings.install charted).2 = none := by decide
  have listed : (spellings.install charted).1.breakpoints = [{ trigger := .memory 2, enabled := false },
      { trigger := .address 4 }, { trigger := .address 2 }, { trigger := .register ⟨1, by decide⟩ }] := by
    decide
  obtain ⟨-, ⟨d', -, installed, -, -, again⟩ | ⟨d', failure, -, -, -, -, stopped, -⟩⟩ :=
    install_exact spellings charted charted_unambiguous
  · exact ⟨d', installed, again, by rw [← listed, installed]⟩
  · rw [stopped] at complete
    exact nomatch complete

end Settings

end WordMachine
