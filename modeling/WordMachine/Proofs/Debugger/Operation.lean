import WordMachine.Debugger.Run
import WordMachine.Proofs.Success

/-! Everything that can be asked of a debugger, as data, so that histories are lists of
operations. An operation that fails gives no new debugger, and the old one goes on; what one that
succeeds leaves is said once, by a relation with a constructor for each way. A run comes with the
number of turns after which it is cancelled; one that stops earlier does not notice. -/

namespace WordMachine.Debugger

inductive Operation where
  | proceed (turns : Nat)
  | step (count turns : Nat)
  | setBreakpoint (addr : UInt16)
  | setWatch (register : Int)
  | setMemoryWatch (addr : UInt16)
  | remove (index : Int)
  | enable (index : Int) (enabled : Bool)
  | clear
  | writeRegister (register : Int) (value : UInt16)
  | writeMemory (addr value : UInt16)
  | jump (addr : UInt16)
  | load (bytes : Bytes)
  | loadImage (bytes : Bytes)
  | loadSnapshot (bytes : Bytes)
  | save
  deriving DecidableEq, Repr

def perform (d : Debugger) : Operation → Except DebugError Debugger
  | .proceed turns => .ok (d.runFor none turns).2
  | .step count turns => .ok (d.runFor (stepLimit count) turns).2
  | .setBreakpoint addr => (d.setBreakpoint addr).map Prod.snd
  | .setWatch register => (d.setWatch register).map Prod.snd
  | .setMemoryWatch addr => (d.setMemoryWatch addr).map Prod.snd
  | .remove index => d.remove index
  | .enable index enabled => d.enable index enabled
  | .clear => .ok d.clear
  | .writeRegister register value => d.writeRegister register value
  | .writeMemory addr value => d.writeMemory addr value
  | .jump addr => d.jump addr
  | .load bytes => d.load bytes
  | .loadImage bytes => d.loadImage bytes
  | .loadSnapshot bytes => d.loadSnapshot bytes
  | .save => d.save.map Prod.snd

def after (d : Debugger) (op : Operation) : Debugger :=
  match d.perform op with
  | .ok d => d
  | .error _ => d

theorem after_of_error {d : Debugger} {op : Operation} {e : DebugError}
    (failed : d.perform op = .error e) : d.after op = d := by
  rw [after, failed]

theorem after_of_ok {d d' : Debugger} {op : Operation} (done : d.perform op = .ok d') :
    d.after op = d' := by
  rw [after, done]

section Performed

variable {d d' : Debugger} {bytes : Bytes}

/-- What an operation that goes through leaves, new entries of the log aside. A load is of an image
or of a snapshot, whether it was asked for as such or found out. -/
inductive Performed (d : Debugger) : Operation → Debugger → Prop
  | proceed (turns : Nat) : Performed d (.proceed turns) (d.runFor none turns).2
  | step (count turns : Nat) : Performed d (.step count turns) (d.runFor (stepLimit count) turns).2
  | setBreakpoint {addr : UInt16} (inside : addr.toNat < memorySize) :
      Performed d (.setBreakpoint addr) (d.addTrigger (.address addr)).2
  | setWatch {n : Int} {r : Register} (known : register? n = .ok r) :
      Performed d (.setWatch n) (d.addTrigger (.register r)).2
  | setMemoryWatch {addr : UInt16} (inside : addr.toNat < memorySize) :
      Performed d (.setMemoryWatch addr) (d.addTrigger (.memory addr)).2
  | remove {n : Int} {k : Nat} (listed : d.index? n = .ok k) :
      Performed d (.remove n) { d with breakpoints := d.breakpoints.eraseIdx k }
  | enable {n : Int} {k : Nat} {enabled : Bool} (listed : d.index? n = .ok k) :
      Performed d (.enable n enabled) { d with breakpoints := d.breakpoints.modify k ({ · with enabled }) }
  | clear : Performed d .clear d.clear
  | writeRegister {n : Int} {r : Register} {value : UInt16} {log : Log} (known : register? n = .ok r)
      (word : value ≤ wordMax) : Performed d (.writeRegister n value) { d.setState { d.machine.state with
        registers := d.machine.state.registers.set r value r.isLt } with log }
  | writeMemory {addr value : UInt16} {log : Log} (inside : addr.toNat < memorySize)
      (word : value ≤ wordMax) : Performed d (.writeMemory addr value)
        { d.setState (d.machine.state.setMemory addr value) with log }
  | jump {addr : UInt16} (inside : addr.toNat < memorySize) : Performed d (.jump addr)
      { d.setState { d.machine.state with program := addr } with resumeAt := none }
  | image {op : Operation} {bytes : Bytes} {m : Machine} {log : Log}
      (asked : op = .loadImage bytes ∨ op = .load bytes ∧ looksLikeSnapshot bytes = false)
      (read : d.machine.loadImage bytes = .ok m) : Performed d op { d.loaded m with log }
  | snapshot {op : Operation} {bytes : Bytes} {m : Machine} {log : Log}
      (asked : op = .loadSnapshot bytes ∨ op = .load bytes ∧ looksLikeSnapshot bytes = true)
      (read : d.machine.loadSaved bytes = .ok m) : Performed d op { d.loaded m with log }
  | save {log : Log} : Performed d .save { d with log }

theorem ok_of_whenIdle {α : Type} {act : Except DebugError α} {a : α} (done : d.whenIdle act = .ok a) :
    act = .ok a := by
  unfold whenIdle at done
  split at done
  · simp at done
  · exact done

theorem performed_writeRegister {n : Int} {value : UInt16} (done : d.writeRegister n value = .ok d') :
    Performed d (.writeRegister n value) d' := by
  have written := ok_of_whenIdle done
  split at written
  · simp at written
  · next r known =>
    split at written
    · simp at written
    · next word =>
      obtain rfl := Except.ok.inj written
      exact .writeRegister known (UInt16.not_lt.mp word)

theorem performed_writeMemory {addr value : UInt16} (done : d.writeMemory addr value = .ok d') :
    Performed d (.writeMemory addr value) d' := by
  have written := ok_of_whenIdle done
  split at written
  · simp at written
  · next word =>
    split at written
    · simp at written
    · next stored =>
      unfold Machine.write at stored
      obtain ⟨inside, rfl⟩ := ok_of_ite stored
      obtain rfl := Except.ok.inj written
      exact .writeMemory inside (UInt16.not_lt.mp word)

theorem performed_image {op : Operation}
    (asked : op = .loadImage bytes ∨ op = .load bytes ∧ looksLikeSnapshot bytes = false)
    (done : d.loadImage bytes = .ok d') : Performed d op d' := by
  have loaded := ok_of_whenIdle done
  split at loaded
  · simp at loaded
  · next read =>
    obtain rfl := Except.ok.inj loaded
    exact .image asked read

theorem performed_snapshot {op : Operation}
    (asked : op = .loadSnapshot bytes ∨ op = .load bytes ∧ looksLikeSnapshot bytes = true)
    (done : d.loadSnapshot bytes = .ok d') : Performed d op d' := by
  have loaded := ok_of_whenIdle done
  split at loaded
  · simp at loaded
  · next read =>
    obtain rfl := Except.ok.inj loaded
    exact .snapshot asked read

theorem performed_load (done : d.load bytes = .ok d') : Performed d (.load bytes) d' := by
  unfold load at done
  split at done
  · next sniffed => exact performed_snapshot (.inr ⟨rfl, sniffed⟩) done
  · next sniffed => exact performed_image (.inr ⟨rfl, by simpa using sniffed⟩) done

theorem performed_of_ok {op : Operation} (done : d.perform op = .ok d') : Performed d op d' := by
  cases op with
  | proceed turns =>
    obtain rfl := Except.ok.inj done
    exact .proceed turns
  | step count turns =>
    obtain rfl := Except.ok.inj done
    exact .step count turns
  | setBreakpoint addr =>
    obtain ⟨added, set, rfl⟩ := ok_of_map done
    obtain ⟨inside, rfl⟩ := ok_of_ite set
    exact .setBreakpoint inside
  | setWatch n =>
    obtain ⟨added, set, rfl⟩ := ok_of_map done
    obtain ⟨r, known, rfl⟩ := ok_of_map set
    exact .setWatch known
  | setMemoryWatch addr =>
    obtain ⟨added, set, rfl⟩ := ok_of_map done
    obtain ⟨inside, rfl⟩ := ok_of_ite set
    exact .setMemoryWatch inside
  | remove n =>
    obtain ⟨k, listed, rfl⟩ := ok_of_map done
    exact .remove listed
  | enable n enabled =>
    obtain ⟨k, listed, rfl⟩ := ok_of_map done
    exact .enable listed
  | clear =>
    obtain rfl := Except.ok.inj done
    exact .clear
  | writeRegister n value => exact performed_writeRegister done
  | writeMemory addr value => exact performed_writeMemory done
  | jump addr =>
    obtain ⟨inside, rfl⟩ := ok_of_ite (ok_of_whenIdle done)
    exact .jump inside
  | load bytes => exact performed_load done
  | loadImage bytes => exact performed_image (.inl rfl) done
  | loadSnapshot bytes => exact performed_snapshot (.inl rfl) done
  | save =>
    obtain ⟨result, saved, rfl⟩ := ok_of_map done
    obtain rfl := Except.ok.inj (ok_of_whenIdle saved)
    exact .save

end Performed

theorem runFor_of_run? {d : Debugger} {limit : Option Nat} {turns : Nat} {r : Event × Debugger}
    (ran : d.run? limit turns = some r) : d.runFor limit turns = r := by
  simp only [run?] at ran
  simp only [runFor]
  split
  · next halted => simpa [halted] using ran
  · next going =>
    simp only [going, Bool.false_eq_true, ↓reduceIte] at ran
    split at ran
    · simpa using ran
    · simp at ran

@[simp] theorem record_machine (d : Debugger) (level : LogLevel) (message : String)
    (fields : List (String × LogValue)) : (d.record level message fields).machine = d.machine := rfl

@[simp] theorem addTrigger_machine (d : Debugger) (t : Trigger) : (d.addTrigger t).2.machine = d.machine := by
  unfold addTrigger
  split <;> rfl

@[simp] theorem addTrigger_program (d : Debugger) (t : Trigger) : (d.addTrigger t).2.program = d.program := by
  simp [program]

@[simp] theorem close_machine (d : Debugger) (event : Event) (mode : Mode)
    (resumeAt : Option UInt16) : (d.close event mode resumeAt).machine = d.machine := by
  simp only [close]
  split <;> rfl

@[simp] theorem stopAt_machine (d : Debugger) (plan : Plan) (stop : Stop) (p : Point) :
    (d.stopAt plan stop p).2.machine = p.machine := by
  simp [stopAt]

@[simp] theorem stopAt_program (d : Debugger) (plan : Plan) (stop : Stop) (p : Point) :
    (d.stopAt plan stop p).2.program = p.machine.state.program := by
  simp [program]

@[simp] theorem record_resumeAt (d : Debugger) (level : LogLevel) (message : String)
    (fields : List (String × LogValue)) : (d.record level message fields).resumeAt = d.resumeAt := rfl

@[simp] theorem addTrigger_resumeAt (d : Debugger) (t : Trigger) :
    (d.addTrigger t).2.resumeAt = d.resumeAt := by
  unfold addTrigger
  split <;> rfl

@[simp] theorem close_resumeAt (d : Debugger) (event : Event) (mode : Mode)
    (resumeAt : Option UInt16) : (d.close event mode resumeAt).resumeAt = resumeAt := by
  simp only [close]
  split <;> rfl

@[simp] theorem stopAt_resumeAt (d : Debugger) (plan : Plan) (stop : Stop) (p : Point) :
    (d.stopAt plan stop p).2.resumeAt = resumption plan d.program stop p := by
  simp [stopAt]

end WordMachine.Debugger
