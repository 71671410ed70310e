import WordMachine.Proofs.Machine.Intake
import WordMachine.Proofs.Session.Frame
import WordMachine.Proofs.Session.Unattended

/-! The input of a whole session. Of all that can be asked of a debugger only runs and the command
that queues text come to the keyboard, and the prompt takes a line for each round. What they do makes
the history of a session, which its keyboard goes through from the settings on; so the prompt and the
program share the standard input and the queue without losing a byte or using one twice. -/

namespace WordMachine

open Text

def Stop.intake : Stop → List Intake
  | .stalled _ => [.stalled]
  | _ => []

namespace Debugger

variable {d d' : Debugger} {k : Keyboard}

def intake (d : Debugger) (limit : Option Nat) (turns : Nat) : List Intake :=
  match d.run? limit turns with
  | some (event, _) => d.machine.intake event.steps ++ event.stop.intake
  | none => d.machine.intake turns

theorem intake_arrivedText (d : Debugger) (limit : Option Nat) (turns : Nat) :
    (d.intake limit turns).flatMap Intake.arrivedText = [] := by
  unfold intake
  split
  · next event _ _ =>
    rw [List.flatMap_append, Machine.intake_arrivedText, List.nil_append]
    cases event.stop <;> rfl
  · exact Machine.intake_arrivedText _ turns

theorem StopsAt.takes {limit : Option Nat} {n : Nat} {m : Machine} {stop : Stop}
    (stops : StopsAt d limit n m stop) (keyboard : m.devices.keyboard = some k) :
    k.Follows stop.intake k ∧ (stop.leaves m).devices.keyboard = some k := by
  have left : ∀ {e m'}, m.step = .failed e m' → m.step.machine.devices.keyboard = some k := by
    intro e m' fails
    rw [fails, Outcome.machine, (m.step_atomic.2.1 e m' fails).2.1, keyboard]
  cases stops with
  | stalled fails stall => exact ⟨(Machine.stall_takes keyboard fails stall).follows, left fails⟩
  | fault fails _ => exact ⟨.nil k, left fails⟩
  | watch | halted | step | breakpoint => exact ⟨.nil k, keyboard⟩

theorem intake_follows (keyboard : d.machine.devices.keyboard = some k) (limit : Option Nat) (turns : Nat) :
    ∃ k', k.Follows (d.intake limit turns) k' ∧ ∀ event d', d.run? limit turns = some (event, d') →
      d'.machine.devices.keyboard = some k' := by
  unfold intake
  cases halted : d.machine.state.halted with
  | true =>
    rw [run?_of_halted halted]
    refine ⟨k, .nil k, fun event d' ran => ?_⟩
    obtain ⟨-, rfl⟩ := Prod.mk.inj (Option.some.inj ran)
    rw [close_machine, keyboard]
  | false =>
    obtain ⟨n, m, stop, left, ran, first, machine, -⟩ | ⟨never, -⟩ := d.run?_cases limit turns halted
    · obtain ⟨k', follows, last⟩ := Machine.intake_follows keyboard n
      obtain ⟨stays, leaves⟩ := first.holds.takes (last m first.reached)
      rw [ran]
      refine ⟨k', follows.append stays, fun event d' ran' => ?_⟩
      obtain ⟨-, rfl⟩ := Prod.mk.inj (Option.some.inj ran')
      rw [machine, leaves]
    · obtain ⟨k', follows, -⟩ := Machine.intake_follows keyboard turns
      rw [never]
      exact ⟨k', follows, fun event d' ran => nomatch ran⟩

end Debugger

namespace Session

variable {s : Session} {k : Keyboard}

def keyboard (s : Session) : Option Keyboard := s.devices.keyboard

def stepIntake (s : Session) (args : List Bytes) (turns : Nat) : List Intake :=
  match args with
  | [] => s.debugger.intake (Debugger.stepLimit 1) turns
  | [t] =>
    match Rejected.readNat 10 64 t with
    | .ok count => s.debugger.intake (Debugger.stepLimit count) turns
    | .error _ => []
  | _ => []

def performIntake (s : Session) (verb : Verb) (args : List Bytes) (turns : Nat) : List Intake :=
  match verb with
  | .input => [.queued (Bytes.join [Bytes.space] args ++ [Bytes.newline])]
  | .resume => s.debugger.intake none turns
  | .step => s.stepIntake args turns
  | _ => []

def obeyIntake (s : Session) (words : List Bytes) (turns : Nat) : List Intake :=
  match words with
  | [] => []
  | word :: args =>
    match named? Verb.names word with
    | some verb => s.performIntake verb args turns
    | none => []

def askIntake (s : Session) (turns : Nat) : List Intake :=
  let (line, s) := (s.print "(dbg) ").takeLine
  if line.isEmpty then []
  else
    let words := Blank.words line
    let words := if words.isEmpty then s.last else words
    .line line :: { s with last := words }.obeyIntake words turns

/-- More comes to the standard input, as it may at a terminal after its end. -/
def arrive (s : Session) (t : Bytes) : Session := s.setStdin (s.stdin ++ t)

def askOn (turns : Nat) : (arriving : List Bytes) → Session → Session × Next
  | [], s => (s, .quit)
  | t :: later, s =>
    match (s.arrive t).ask turns with
    | (s, .ask) => askOn turns later s
    | ended => ended

def history (turns : Nat) : (arriving : List Bytes) → Session → List Intake
  | [], _ => []
  | t :: later, s =>
    .arrived t :: (s.arrive t).askIntake turns ++
      match (s.arrive t).ask turns with
      | (s, .ask) => history turns later s
      | _ => []

/-- The keyboard of a session goes through a history up to what became of it. Of a session that is
still running there is no keyboard to tell of. -/
def Goes (s : Session) (h : List Intake) (result : Session × Next) : Prop :=
  ∀ k, s.keyboard = some k → ∃ k', k.Follows h k' ∧
    (result.2 = .unfinished ∨ result.1.keyboard = some k')

section Rounds

variable {turns : Nat}

theorem goes_of_devices {result : Session × Next} (kept : result.1.devices = s.devices) :
    s.Goes [] result :=
  fun k there => ⟨k, .nil k, .inr ((congrArg Devices.keyboard kept).trans there)⟩

theorem runAndReport_goes (limit : Option Nat) :
    s.Goes (s.debugger.intake limit turns) (s.runAndReport limit turns) := by
  intro k there
  obtain ⟨k', follows, last⟩ := Debugger.intake_follows there limit turns
  refine ⟨k', follows, ?_⟩
  unfold runAndReport run?
  cases ran : s.debugger.run? limit turns with
  | none => exact .inl rfl
  | some stopped =>
    obtain ⟨event, d⟩ := stopped
    refine .inr ?_
    have adopted : (s.adopt d).devices = d.machine.devices := by rw [devices, adopt_debugger]
    exact (congrArg Devices.keyboard ((report_devices event).trans adopted)).trans (last event d ran)

theorem step_goes (args : List Bytes) : s.Goes (s.stepIntake args turns) (s.step args turns) := by
  rcases args with _ | ⟨t, _ | ⟨t', more⟩⟩
  · exact runAndReport_goes _
  · simp only [stepIntake, step]
    cases Rejected.readNat 10 64 t with
    | ok count => exact runAndReport_goes _
    | error r => exact goes_of_devices (note_devices _)
  · exact goes_of_devices (note_devices _)

theorem input_goes (args : List Bytes) :
    s.Goes [.queued (Bytes.join [Bytes.space] args ++ [Bytes.newline])] (s.input args, .ask) := by
  intro k there
  refine ⟨_, (Keyboard.Takes.queued k _).follows, .inr ?_⟩
  rw [keyboard, input, printLine_devices]
  exact congrArg (Option.map _) there

theorem perform_goes (verb : Verb) (args : List Bytes) (turns : Nat) :
    s.Goes (s.performIntake verb args turns) (s.perform verb args turns) := by
  cases verb with
  | input => exact input_goes args
  | resume => exact runAndReport_goes none
  | step => exact step_goes args
  | breakpoints => exact goes_of_devices (breakpoints_devices args)
  | watches => exact goes_of_devices (watches_devices args)
  | registers => exact goes_of_devices (registers_devices args)
  | memory => exact goes_of_devices (memory_devices args)
  | set => exact goes_of_devices (setMemory_devices args)
  | write => exact goes_of_devices (write_devices args)
  | inspect => exact goes_of_devices (inspect_devices args)
  | stack => exact goes_of_devices printStack_devices
  | jump => exact goes_of_devices (jump_devices args)
  | disassemble => exact goes_of_devices (disassemble_devices args)
  | peek => exact goes_of_devices printCurrent_devices
  | strings => exact goes_of_devices (print_devices _)
  | labels => exact goes_of_devices (printLabels_devices args)
  | source => exact goes_of_devices (source_devices args)
  | load => exact goes_of_devices (load_devices args)
  | save => exact goes_of_devices (save_devices args)
  | dump => exact goes_of_devices (dump_devices args)
  | trace => exact goes_of_devices (trace_devices args)
  | quit => exact goes_of_devices rfl
  | clear => exact goes_of_devices (print_devices _)

theorem obey_goes (words : List Bytes) (turns : Nat) :
    s.Goes (s.obeyIntake words turns) (s.obey words turns) := by
  cases words with
  | nil => exact goes_of_devices rfl
  | cons word args =>
    simp only [obeyIntake, obey]
    cases named? Verb.names word with
    | some verb => exact perform_goes verb args turns
    | none => exact goes_of_devices (printLine_devices _)

theorem setStdin_keyboard (there : s.keyboard = some k) (rest : Bytes) :
    (s.setStdin rest).keyboard = some { k with source := rest } :=
  congrArg (Option.map _) there

theorem stdin_eq (there : s.keyboard = some k) : s.stdin = k.source := by
  have there' : s.debugger.machine.devices.keyboard = some k := there
  rw [stdin, there']

theorem takeLine_eq (there : s.keyboard = some k) :
    ∃ line rest, s.takeLine = (line, s.setStdin rest) ∧ k.source = line ++ rest := by
  refine ⟨(splitLine s.stdin).1, (splitLine s.stdin).2, rfl, ?_⟩
  rw [splitLine_append, stdin_eq there]

theorem ask_goes (s : Session) (turns : Nat) : s.Goes (s.askIntake turns) (s.ask turns) := by
  intro k there
  have there' : (s.print "(dbg) ").keyboard = some k := there
  obtain ⟨line, rest, taken, split⟩ := takeLine_eq there'
  have left := setStdin_keyboard there' rest
  simp only [askIntake, ask, taken]
  by_cases empty : line.isEmpty = true
  · rw [if_pos empty, if_pos empty]
    obtain rfl := List.isEmpty_iff.mp empty
    refine ⟨k, .nil k, .inr ?_⟩
    rw [keyboard, printLine_devices]
    exact left.trans (by rw [← List.nil_append rest, ← split])
  · rw [if_neg empty, if_neg empty]
    generalize (if (Blank.words line).isEmpty = true then _ else Blank.words line) = words
    have left' : keyboard { (s.print "(dbg) ").setStdin rest with last := words } = _ := left
    obtain ⟨k', follows, last⟩ := obey_goes words turns _ left'
    exact ⟨k', .cons (.line split) follows, last⟩

theorem askOn_goes (s : Session) (turns : Nat) (arriving : List Bytes) :
    s.Goes (s.history turns arriving) (s.askOn turns arriving) := by
  induction arriving generalizing s with
  | nil => exact goes_of_devices rfl
  | cons t later ih =>
    intro k there
    have arrived : (s.arrive t).keyboard = some { k with source := k.source ++ t } := by
      rw [arrive, stdin_eq there, setStdin_keyboard there]
    obtain ⟨k₁, asked, left⟩ := ask_goes (s.arrive t) turns _ arrived
    have first := Keyboard.Follows.cons (.arrived k t) asked
    simp only [history, askOn]
    generalize (s.arrive t).ask turns = result at left
    match result, left with
    | (s₁, .unfinished), _ => exact ⟨k₁, by simpa using first, .inl rfl⟩
    | (s₁, .ask), .inr there₁ =>
      obtain ⟨k', rest, last⟩ := ih s₁ k₁ there₁
      exact ⟨k', first.append rest, last⟩
    | (s₁, .quit), .inr there₁ => exact ⟨k₁, by simpa using first, .inr there₁⟩
    | (s₁, .crash _), .inr there₁ => exact ⟨k₁, by simpa using first, .inr there₁⟩

/-! Nothing arrives while a line is taken and obeyed. -/

theorem stepIntake_arrivedText (s : Session) (args : List Bytes) :
    (s.stepIntake args turns).flatMap Intake.arrivedText = [] := by
  unfold stepIntake
  split
  · exact s.debugger.intake_arrivedText _ turns
  · split
    · exact s.debugger.intake_arrivedText _ turns
    · rfl
  · rfl

theorem obeyIntake_arrivedText (s : Session) (words : List Bytes) :
    (s.obeyIntake words turns).flatMap Intake.arrivedText = [] := by
  unfold obeyIntake
  split
  · rfl
  · split
    · unfold performIntake
      split
      · rfl
      · exact s.debugger.intake_arrivedText none turns
      · exact stepIntake_arrivedText s _
      · rfl
    · rfl

theorem askIntake_arrivedText (s : Session) :
    (s.askIntake turns).flatMap Intake.arrivedText = [] := by
  unfold askIntake
  dsimp only
  split
  · rfl
  · exact obeyIntake_arrivedText _ _

theorem history_arrivedText (s : Session) (arriving : List Bytes) :
    (s.history turns arriving).flatMap Intake.arrivedText <+: arriving.flatten := by
  induction arriving generalizing s with
  | nil => exact List.prefix_rfl
  | cons t later ih =>
    have first : [Intake.arrived t].flatMap Intake.arrivedText = t := by simp [Intake.arrivedText]
    rw [history, List.cons_append, ← List.singleton_append, List.flatMap_append, first, List.flatMap_append,
      askIntake_arrivedText, List.nil_append, List.flatten_cons, List.prefix_append_right_inj]
    split
    · exact ih _
    · exact List.nil_prefix

theorem arrive_nil (s : Session) : s.arrive [] = s := by
  obtain ⟨⟨⟨state, ⟨keyboard, display⟩⟩, _, _, _, _, _, _, _⟩, _, _, _, _, _, _, _, _⟩ := s
  cases keyboard with
  | none => rfl
  | some k => simp [arrive, setStdin, stdin]

/-- With nothing arriving, the rounds are those of the prompt. -/
theorem askOn_replicate (s : Session) (turns rounds : Nat) :
    s.askOn turns (List.replicate rounds []) = askAll turns rounds s := by
  induction rounds generalizing s with
  | zero => rfl
  | succ rounds ih =>
    rw [List.replicate_succ, askOn, arrive_nil, askAll]
    match s.ask turns with
    | (s, .ask) => exact ih s
    | (_, .quit) | (_, .crash _) | (_, .unfinished) => rfl

end Rounds

theorem start_keyboard (settings : Settings) (stdin : Bytes) (files : Files) :
    (Command.Runner.start settings stdin files).1.keyboard =
      some { queue := settings.input, source := stdin } := by
  have fresh : (Command.Runner.fresh settings stdin files).keyboard =
      some { queue := settings.input, source := stdin } := rfl
  have symbols := loadSymbols_devices (Command.Runner.fresh settings stdin files)
    (Command.Runner.symbolsPath settings files)
  have kept : ∀ s : Session, s.devices = (Command.Runner.fresh settings stdin files).devices →
      s.keyboard = some { queue := settings.input, source := stdin } :=
    fun s same => (congrArg Devices.keyboard same).trans fresh
  unfold Command.Runner.start
  dsimp only
  split
  · exact kept _ symbols
  · next d loaded =>
    have installed := (install_devices settings d).trans ((loadMachine_devices loaded).trans symbols)
    split
    · exact kept _ installed
    · split
      · exact kept _ installed
      · next opened => exact kept _ ((openTrace_devices opened).trans installed)

/-- Whatever is typed, queued, loaded and run, the history of a session that has been set up is in
order. The bytes that are taken as lines or delivered off the standard input are how it begins, and
the keyboard is left with the rest of it and of the queue. The prompt is the case in which nothing
more arrives. -/
theorem prompt_in_order (settings : Settings) (stdin : Bytes) (files : Files) (turns : Nat)
    (arriving : List Bytes) :
    let started := (Command.Runner.start settings stdin files).1
    let start : Ledger := { queue := settings.input, source := stdin }
    let s := started.printCurrent
    let h := s.history turns arriving
    start.InOrder h ∧ (start.after h).taken <+: stdin ++ arriving.flatten ∧
      ((s.askOn turns arriving).2 = .unfinished ∨
        ∃ k, (s.askOn turns arriving).1.keyboard = some k ∧ k.Balances (start.after h)) ∧
      started.prompt turns = s.askOn turns (List.replicate (stdin.length + 1) []) := by
  intro started start s h
  have there : s.keyboard = some { queue := settings.input, source := stdin } :=
    (congrArg Devices.keyboard printCurrent_devices).trans (start_keyboard settings stdin files)
  obtain ⟨k', follows, last⟩ := s.askOn_goes turns arriving _ there
  have balances : Keyboard.Balances { queue := settings.input, source := stdin } start := ⟨rfl, rfl⟩
  have left := follows.balances balances
  refine ⟨follows.inOrder balances, ?_, last.imp_right fun there' => ⟨k', there', left⟩, ?_⟩
  · have taken : (start.after h).taken <+: (start.after h).source := ⟨k'.source, left.source⟩
    rw [Ledger.source_after] at taken
    exact taken.trans ((List.prefix_append_right_inj _).mpr (s.history_arrivedText arriving))
  · rw [prompt, askOn_replicate, stdin_eq there]

example :
    let state : State := { memory := Image.memory [20, 0x8000, 20, 0x8000, 20, 0x8000] (by decide) }
    let keyboard : Keyboard := { queue := [97], source := "c\nz" }
    let s : Session := { debugger := { machine := ⟨state, { keyboard := some keyboard }⟩ }, files := {} }
    s.history 3 [[], "input hi\n", "c\n"] =
      [.arrived [], .line "c\n", .delivered 97, .delivered 122, .stalled,
       .arrived "input hi\n", .line "input hi\n", .queued "hi\n",
       .arrived "c\n", .line "c\n", .delivered 104] := by
  decide +kernel

end Session

end WordMachine
