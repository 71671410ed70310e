import WordMachine.Machine.Basic

/-! Programs that work on a store in place, one access at a time. An index past the end of
what it goes into leaves no run at all, and a failure keeps whatever had been written before
it. That a failing program changes nothing is thus a statement about the order of its checks
and writes, and not about its type. -/

namespace WordMachine

/-- A program on a store: no run if an access is out of range, otherwise a result together
with the store as it is left, whether the result is a value or an error. -/
abbrev InPlace (σ ε : Type) := ExceptT ε (StateT σ Option)

namespace InPlace

variable {σ τ ε ζ α β : Type}

def exec (p : InPlace σ ε α) (s : σ) : Option (Except ε α × σ) := StateT.run (ExceptT.run p) s

def look (view : σ → Option α) : InPlace σ ε α := ExceptT.lift fun s => (view s).map (·, s)

def change (act : σ → Option σ) : InPlace σ ε Unit := ExceptT.lift fun s => (act s).map ((), ·)

def within (get : τ → σ) (put : τ → σ → τ) (p : InPlace σ ε α) : InPlace τ ε α :=
  ExceptT.mk fun t => (p.exec (get t)).map fun (result, s) => (result, put t s)

def reporting (f : ε → ζ) (p : InPlace σ ε α) : InPlace σ ζ α := ExceptT.adapt f p

@[simp] theorem exec_pure (a : α) (s : σ) : (pure a : InPlace σ ε α).exec s = some (.ok a, s) := rfl

@[simp] theorem exec_throw (e : ε) (s : σ) :
    (throw e : InPlace σ ε α).exec s = some (.error e, s) := rfl

@[simp] theorem exec_bind (p : InPlace σ ε α) (f : α → InPlace σ ε β) (s : σ) :
    (p >>= f).exec s = (p.exec s).bind fun
      | (.ok a, t) => (f a).exec t
      | (.error e, t) => some (.error e, t) := by
  change Option.bind (p.exec s) _ = _
  cases p.exec s with
  | none => rfl
  | some run =>
    obtain ⟨result, t⟩ := run
    cases result <;> rfl

@[simp] theorem exec_map (f : α → β) (p : InPlace σ ε α) (s : σ) :
    (f <$> p).exec s = (p.exec s).bind fun
      | (.ok a, t) => some (.ok (f a), t)
      | (.error e, t) => some (.error e, t) := by
  change Option.bind (p.exec s) _ = _
  cases p.exec s with
  | none => rfl
  | some run =>
    obtain ⟨result, t⟩ := run
    cases result <;> rfl

@[simp] theorem exec_ite {c : Prop} [Decidable c] (p q : InPlace σ ε α) (s : σ) :
    (if c then p else q).exec s = if c then p.exec s else q.exec s := by
  split <;> rfl

@[simp] theorem exec_look (view : σ → Option α) (s : σ) :
    (look view : InPlace σ ε α).exec s = (view s).map (.ok ·, s) := by
  change Option.bind ((view s).map (·, s)) _ = _
  cases view s <;> rfl

@[simp] theorem exec_change (act : σ → Option σ) (s : σ) :
    (change act : InPlace σ ε Unit).exec s = (act s).map (.ok (), ·) := by
  change Option.bind ((act s).map ((), ·)) _ = _
  cases act s <;> rfl

@[simp] theorem exec_within (get : τ → σ) (put : τ → σ → τ) (p : InPlace σ ε α) (t : τ) :
    (within get put p).exec t =
      (p.exec (get t)).map fun (result, s) => (result, put t s) := rfl

@[simp] theorem exec_reporting (f : ε → ζ) (p : InPlace σ ε α) (s : σ) :
    (p.reporting f).exec s =
      (p.exec s).map fun (result, t) => (result.mapError f, t) := by
  change Option.bind (p.exec s) _ = _
  cases p.exec s <;> rfl

/-! The parts of a state, each accessed as an array of its length. -/

def register (k : Nat) : InPlace State ε UInt16 := look fun s => s.registers[k]?

def setRegister (k : Nat) (value : UInt16) : InPlace State ε Unit :=
  change fun s =>
    if h : k < registerCount then some { s with registers := s.registers.set k value } else none

def cell (k : Nat) : InPlace State ε UInt16 := look fun s => s.memory[k]?

def setCell (k : Nat) (value : UInt16) : InPlace State ε Unit :=
  change fun s =>
    if h : k < memorySize then some { s with memory := s.memory.set k value } else none

def stackIsEmpty : InPlace State ε Bool := look fun s => some s.stack.isEmpty

def top : InPlace State ε UInt16 := look fun s => s.stack.head?

def push (value : UInt16) : InPlace State ε Unit :=
  change fun s => some { s with stack := value :: s.stack }

def drop : InPlace State ε Unit :=
  change fun s =>
    match s.stack with
    | [] => none
    | _ :: rest => some { s with stack := rest }

def setProgram (addr : UInt16) : InPlace State ε Unit :=
  change fun s => some { s with program := addr }

def setHalted (halted : Bool) : InPlace State ε Unit := change fun s => some { s with halted }

theorem set_eq_setIfInBounds {n : Nat} (v : Vector α n) (k : Nat) (value : α) (inside : k < n) :
    v.set k value = v.setIfInBounds k value := by
  ext j bound
  rw [Vector.getElem_set, Vector.getElem_setIfInBounds]

@[simp] theorem exec_register {k : Nat} (s : State) (inside : k < registerCount) :
    (register k : InPlace State ε UInt16).exec s = some (.ok s.registers[k], s) := by
  simp [register, inside]

@[simp] theorem exec_setRegister {k : Nat} (value : UInt16) (s : State) (inside : k < registerCount) :
    (setRegister k value : InPlace State ε Unit).exec s =
      some (.ok (), { s with registers := s.registers.setIfInBounds k value }) := by
  simp [setRegister, inside, set_eq_setIfInBounds]

@[simp] theorem exec_cell {k : Nat} (s : State) (inside : k < memorySize) :
    (cell k : InPlace State ε UInt16).exec s = some (.ok s.memory[k], s) := by
  simp [cell, inside]

@[simp] theorem exec_setCell {k : Nat} (value : UInt16) (s : State) (inside : k < memorySize) :
    (setCell k value : InPlace State ε Unit).exec s =
      some (.ok (), { s with memory := s.memory.setIfInBounds k value }) := by
  simp [setCell, inside, set_eq_setIfInBounds]

@[simp] theorem exec_stackIsEmpty (s : State) :
    (stackIsEmpty : InPlace State ε Bool).exec s = some (.ok s.stack.isEmpty, s) := by
  simp [stackIsEmpty]

@[simp] theorem exec_push (value : UInt16) (s : State) :
    (push value : InPlace State ε Unit).exec s = some (.ok (), { s with stack := value :: s.stack }) := by
  simp [push]

@[simp] theorem exec_setProgram (addr : UInt16) (s : State) :
    (setProgram addr : InPlace State ε Unit).exec s = some (.ok (), { s with program := addr }) := by
  simp [setProgram]

@[simp] theorem exec_setHalted (halted : Bool) (s : State) :
    (setHalted halted : InPlace State ε Unit).exec s = some (.ok (), { s with halted }) := by
  simp [setHalted]

end InPlace

end WordMachine
