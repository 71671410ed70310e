import WordMachine.Command.Runner
import WordMachine.Proofs.Debugger.WellFormed
import WordMachine.Proofs.Session.Excerpts
import WordMachine.Proofs.Session.Places

/-! What leaves the devices of the machine alone: of the operations of a debugger all but runs, of the
commands of a session all but those that run and the one that queues text, and everything that is done
before a session starts. -/

namespace WordMachine

theorem Machine.load_devices {ε : Type} {m m' : Machine} {state : Except ε State}
    (loaded : m.load state = .ok m') : m'.devices = m.devices := by
  unfold load at loaded
  split at loaded
  · exact Except.ok.inj loaded ▸ rfl
  · simp at loaded

namespace Debugger

variable {d d' : Debugger}

def Operation.runs : Operation → Bool
  | proceed _ | step _ _ => true
  | _ => false

theorem perform_devices (op : Operation) (idle : op.runs = false) (done : d.perform op = .ok d') :
    d'.machine.devices = d.machine.devices := by
  cases performed_of_ok done with
  | proceed | step => simp [Operation.runs] at idle
  | setBreakpoint | setWatch | setMemoryWatch => rw [addTrigger_machine]
  | remove | enable | clear | writeRegister | writeMemory | jump | save => rfl
  | image asked read | snapshot asked read => exact Machine.load_devices read

theorem setBreakpoint_devices {addr : UInt16} {r : Nat × Bool} (set : d.setBreakpoint addr = .ok (r, d')) :
    d'.machine.devices = d.machine.devices :=
  perform_devices (.setBreakpoint addr) rfl (congrArg (·.map Prod.snd) set)

theorem setWatch_devices {n : Int} {r : Nat × Bool} (set : d.setWatch n = .ok (r, d')) :
    d'.machine.devices = d.machine.devices :=
  perform_devices (.setWatch n) rfl (congrArg (·.map Prod.snd) set)

theorem watch?_devices {t : Bytes} {r : Nat × Bool} (watched : d.watch? t = some (.ok (r, d'))) :
    d'.machine.devices = d.machine.devices := by
  unfold watch? at watched
  split at watched
  · exact setWatch_devices (Option.some.inj watched)
  · obtain ⟨addr, -, set⟩ := Option.map_eq_some_iff.mp watched
    exact perform_devices (.setMemoryWatch addr) rfl (congrArg (·.map Prod.snd) set)

end Debugger

namespace Session

variable {s : Session}

def devices (s : Session) : Devices := s.debugger.machine.devices

@[simp] theorem print_devices (t : Bytes) : (s.print t).devices = s.devices := by
  rw [devices, print_debugger, devices]

@[simp] theorem printLine_devices (t : Bytes) : (s.printLine t).devices = s.devices := print_devices _

@[simp] theorem note_devices (t : Bytes) : (s.note t).devices = s.devices := print_devices _

theorem withOk_devices {α : Type} {value : Except Bytes α} {go : α → Session}
    (kept : ∀ a, value = .ok a → (go a).devices = s.devices) : (s.withOk value go).devices = s.devices := by
  unfold withOk
  split
  · next a => exact kept a rfl
  · exact note_devices _

theorem changed_devices (op : Debugger.Operation) {go : Session → Session} (idle : op.runs = false)
    (tells : ∀ s', (go s').devices = s'.devices) :
    (s.changed (s.debugger.perform op) go).devices = s.devices := by
  unfold changed
  split
  · next done => exact (tells _).trans (Debugger.perform_devices op idle done)
  · exact note_devices _

@[simp] theorem printCurrent_devices : s.printCurrent.devices = s.devices := by
  unfold printCurrent
  split <;> simp

@[simp] theorem printMemory_devices (addr : UInt16) (count : Int) :
    (s.printMemory addr count).devices = s.devices :=
  congrArg (·.machine.devices) (s.printMemory_debugger addr count)

theorem memory_devices (args : List Bytes) : (s.memory args).devices = s.devices := by
  unfold memory
  split
  · exact note_devices _
  · exact withOk_devices fun (addr, count) _ => printMemory_devices addr count

theorem inspect_devices (args : List Bytes) : (s.inspect args).devices = s.devices := by
  unfold inspect
  split
  · split
    · exact printLine_devices _
    · refine withOk_devices fun addr _ => ?_
      split <;> simp
  · exact note_devices _

theorem printStack_devices : s.printStack.devices = s.devices := by
  unfold printStack
  split <;> simp

theorem disassemble_devices (args : List Bytes) : (s.disassemble args).devices = s.devices := by
  unfold disassemble
  split
  · exact note_devices _
  · exact withOk_devices fun _ _ => print_devices _

theorem printLabels_devices (args : List Bytes) : (s.printLabels args).devices = s.devices := by
  unfold printLabels
  split
  · exact printLine_devices _
  · split <;> simp

theorem source_devices (args : List Bytes) : (s.source args).1.devices = s.devices := by
  have kept : ∀ kept, devices { s with sourceText := kept } = s.devices := fun _ => rfl
  obtain ⟨_, s', remarks, shown⟩ | ⟨text, count, offset, -, ⟨-, shown⟩ | ⟨-, -, shown⟩⟩ :=
    source_cases .lowest s args
  · rw [source, shown]
    cases remarks <;> simp [kept]
  · rw [source, shown, kept]
  · rw [source, shown, print_devices, kept]

theorem writeRegister_devices (register value : Bytes) :
    (s.writeRegister register value).devices = s.devices :=
  withOk_devices fun r _ => withOk_devices fun w _ =>
    changed_devices (.writeRegister r.val w) rfl fun _ => printLine_devices _

theorem registers_devices (args : List Bytes) : (s.registers args).devices = s.devices := by
  unfold registers
  split
  · exact print_devices _
  · exact writeRegister_devices _ _
  · exact note_devices _

theorem setMemory_devices (args : List Bytes) : (s.setMemory args).devices = s.devices := by
  unfold setMemory
  split
  · exact withOk_devices fun addr _ => withOk_devices fun w _ =>
      changed_devices (.writeMemory addr w) rfl fun _ => printMemory_devices addr 1
  · exact note_devices _

theorem write_devices (args : List Bytes) : (s.write args).devices = s.devices := by
  unfold write
  split
  · split
    · exact writeRegister_devices _ _
    · exact setMemory_devices _
  · exact note_devices _

theorem jump_devices (args : List Bytes) : (s.jump args).devices = s.devices := by
  unfold jump
  split
  · exact withOk_devices fun addr _ => changed_devices (.jump addr) rfl fun _ => printLine_devices _
  · exact printLine_devices _

theorem withDebugger_devices {debugger : Debugger} (kept : debugger.machine.devices = s.devices) :
    devices { s with debugger } = s.devices := kept

theorem addTrigger_devices {s' : Session} {t : Bytes} {r : Nat × Bool}
    (added : s.addTrigger t = .ok (r, s')) : s'.devices = s.devices := by
  obtain ⟨⟨r', d⟩, set, same⟩ := ok_of_map added
  obtain ⟨-, rfl⟩ := Prod.mk.inj same
  apply withDebugger_devices
  split at set
  · exact Debugger.setWatch_devices (ok_of_mapError set)
  · split at set
    · exact Debugger.setBreakpoint_devices (ok_of_mapError set)
    · simp at set

theorem addWatch_devices {s' : Session} {t : Bytes} {r : Nat × Bool}
    (added : s.addWatch t = .ok (r, s')) : s'.devices = s.devices := by
  unfold addWatch at added
  split at added
  · simp at added
  · next watched =>
    obtain ⟨⟨r', d⟩, set, same⟩ := ok_of_map added
    obtain ⟨-, rfl⟩ := Prod.mk.inj same
    rw [ok_of_mapError set] at watched
    exact withDebugger_devices (Debugger.watch?_devices watched)

theorem breakAdd_devices (t : Bytes) : (s.breakAdd t).devices = s.devices :=
  withOk_devices fun (_, _) added => (printLine_devices _).trans (addTrigger_devices added)

theorem breakRemove_devices (args : List Bytes) : (s.breakRemove args).devices = s.devices := by
  refine withOk_devices fun n _ => ?_
  split
  · next removed => exact (printLine_devices _).trans (Debugger.perform_devices (.remove n) rfl removed)
  · exact note_devices _

theorem breakEnable_devices (args : List Bytes) (enabled : Bool) :
    (s.breakEnable args enabled).devices = s.devices := by
  refine withOk_devices fun n _ => ?_
  split
  · next switched =>
    exact (printLine_devices _).trans (Debugger.perform_devices (.enable n enabled) rfl switched)
  · exact note_devices _

theorem breakpoints_devices (args : List Bytes) : (s.breakpoints args).devices = s.devices := by
  have listed : (s.listed fun _ => true).devices = s.devices := print_devices _
  unfold breakpoints
  split
  · exact listed
  · split
    · split
      · exact breakAdd_devices _
      · exact note_devices _
    · split
      · exact listed
      · exact note_devices _
    · exact breakRemove_devices _
    · exact breakEnable_devices _ true
    · exact breakEnable_devices _ false
    · exact printLine_devices _
    · split
      · exact breakAdd_devices _
      · exact note_devices _

theorem watches_devices (args : List Bytes) : (s.watches args).devices = s.devices := by
  unfold watches
  split
  · exact print_devices _
  · refine withOk_devices fun (⟨k, new⟩, s') added => ?_
    have kept := addWatch_devices added
    dsimp only
    split
    · exact (printLine_devices _).trans kept
    · exact kept
  · exact note_devices _

theorem loadWith_ok {files : Files} {path : Bytes} {load : Bytes → Except DebugError Debugger} {d : Debugger}
    (loaded : loadWith files path load = .ok d) : ∃ contents, load contents = .ok d := by
  unfold loadWith at loaded
  split at loaded
  · simp at loaded
  · simp at loaded
  · exact ⟨_, ok_of_mapError loaded⟩

theorem load_devices (args : List Bytes) : (s.load args).devices = s.devices := by
  unfold load
  dsimp only
  split
  · exact note_devices _
  · refine withOk_devices fun debugger loaded => ?_
    obtain ⟨contents, done⟩ := loadWith_ok loaded
    rw [printCurrent_devices, printLine_devices]
    exact Debugger.perform_devices (.load contents) rfl done

theorem store_devices {path remark : Bytes} {contents : Bytes × Debugger}
    (kept : contents.2.machine.devices = s.devices) : (s.store path contents remark).devices = s.devices :=
  withOk_devices fun _ _ => (printLine_devices _).trans kept

theorem save_devices (args : List Bytes) : (s.save args).devices = s.devices := by
  unfold save
  split
  · split
    · next saved =>
      have done := congrArg (·.map Prod.snd) saved
      exact store_devices (Debugger.perform_devices .save rfl done)
    · exact withOk_devices fun (_, _) _ => note_devices _
  · exact note_devices _

theorem dump_devices (args : List Bytes) : (s.dump args).devices = s.devices := by
  unfold dump
  split
  · exact store_devices rfl
  · exact note_devices _

theorem openTrace_devices {s' : Session} {path : Bytes} {sink : Sink} {w : Option Writer}
    (opened : s.openTrace path sink = .ok (w, s')) : s'.devices = s.devices := by
  unfold openTrace at opened
  split at opened
  · obtain ⟨-, rfl⟩ := Prod.mk.inj (Except.ok.inj opened)
    rfl
  · split at opened
    · obtain ⟨-, rfl⟩ := Prod.mk.inj (Except.ok.inj opened)
      rfl
    · obtain ⟨_, -, same⟩ := ok_of_map opened
      obtain ⟨-, rfl⟩ := Prod.mk.inj same
      rfl

theorem stopTracing_devices : s.stopTracing.devices = s.devices := by
  unfold stopTracing
  split <;> rfl

theorem trace_devices (args : List Bytes) : (s.trace args).devices = s.devices := by
  unfold trace
  split
  · refine (printLine_devices _).trans ?_
    split <;> rfl
  · split
    · refine (printLine_devices _).trans ?_
      exact stopTracing_devices
    · dsimp only
      split
      · exact (note_devices _).trans stopTracing_devices
      · next opened =>
        refine (printLine_devices _).trans ?_
        exact (openTrace_devices opened).trans stopTracing_devices
  · exact note_devices _

theorem report_devices (e : Event) : (s.report e).devices = s.devices := by
  unfold report
  dsimp only
  split <;> split <;> simp

/-! Setting up a session. -/

open Command

theorem loadSymbols_devices (s : Session) (path : Bytes) :
    (Runner.loadSymbols s path).devices = s.devices := by
  unfold Runner.loadSymbols
  split
  · rfl
  · split
    · rfl
    · rw [note_devices, note_devices]

theorem loadMachine_devices {settings : Settings} {d : Debugger}
    (loaded : Runner.loadMachine settings s = .ok d) : d.machine.devices = s.devices := by
  unfold Runner.loadMachine at loaded
  dsimp only at loaded
  split at loaded
  · obtain ⟨contents, done⟩ := loadWith_ok loaded
    exact Debugger.perform_devices (.loadSnapshot contents) rfl done
  · split at loaded
    · obtain ⟨contents, done⟩ := loadWith_ok loaded
      exact Debugger.perform_devices (.loadImage contents) rfl done
    · simp at loaded

theorem installBreakpoint_devices {d d' : Debugger} {t : Bytes}
    (done : Settings.installBreakpoint d t = .ok d') : d'.machine.devices = d.machine.devices := by
  unfold Settings.installBreakpoint at done
  split at done
  · simp at done
  · split at done
    · next set => exact Except.ok.inj done ▸ Debugger.setBreakpoint_devices set
    · simp at done

theorem installWatch_devices {d d' : Debugger} {t : Bytes} (done : Settings.installWatch d t = .ok d') :
    d'.machine.devices = d.machine.devices := by
  unfold Settings.installWatch at done
  split at done
  · simp at done
  · next watched => exact Except.ok.inj done ▸ Debugger.watch?_devices watched
  · simp at done

theorem installEach_devices (install : Debugger → Bytes → Except InstallError Debugger)
    (kept : ∀ d d' t, install d t = .ok d' → d'.machine.devices = d.machine.devices)
    (d : Debugger) (entries : List Bytes) :
    (Settings.installEach install d entries).1.machine.devices = d.machine.devices := by
  induction entries generalizing d with
  | nil => rfl
  | cons entry entries ih =>
    rw [Settings.installEach]
    split
    · next done => exact (ih _).trans (kept d _ entry done)
    · rfl

theorem install_devices (settings : Settings) (d : Debugger) :
    (settings.install d).1.machine.devices = d.machine.devices := by
  have breakpoints := installEach_devices Settings.installBreakpoint
    (fun _ _ _ => installBreakpoint_devices) d settings.breakpoints
  have watches := fun d => installEach_devices Settings.installWatch
    (fun _ _ _ => installWatch_devices) d settings.watches
  unfold Settings.install
  split
  · next installed => rwa [installed] at breakpoints
  · next installed =>
    rw [installed] at breakpoints
    exact (watches _).trans breakpoints

end Session

end WordMachine
