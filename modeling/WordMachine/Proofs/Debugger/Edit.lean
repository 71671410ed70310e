import WordMachine.Proofs.Debugger.Operation
import WordMachine.Proofs.InPlace.Basic

/-! The changes that can be made to a debugger between runs, in place. Each looks at its
arguments first and writes afterwards, one part at a time, so that one that is refused leaves
everything as it was. Which of them are refused is decided by the arguments, the number of
breakpoints and whether a run is going on. -/

namespace WordMachine.Debugger

open InPlace

inductive Edit where
  | setBreakpoint (addr : UInt16)
  | setWatch (register : Int)
  | setMemoryWatch (addr : UInt16)
  | remove (index : Int)
  | enable (index : Int) (enabled : Bool)
  | writeRegister (register : Int) (value : UInt16)
  | writeMemory (addr value : UInt16)
  | jump (addr : UInt16)
  deriving DecidableEq, Repr

namespace Edit

def operation : Edit → Operation
  | setBreakpoint addr => .setBreakpoint addr
  | setWatch register => .setWatch register
  | setMemoryWatch addr => .setMemoryWatch addr
  | remove index => .remove index
  | enable index enabled => .enable index enabled
  | writeRegister register value => .writeRegister register value
  | writeMemory addr value => .writeMemory addr value
  | jump addr => .jump addr

def Allowed (d : Debugger) : Edit → Prop
  | setBreakpoint addr | setMemoryWatch addr => addr.toNat < memorySize
  | setWatch register => 0 ≤ register ∧ register < registerCount
  | remove index | enable index _ => 0 ≤ index ∧ index < d.breakpoints.length
  | writeRegister register value =>
    d.mode ≠ .running ∧ 0 ≤ register ∧ register < registerCount ∧ value ≤ wordMax
  | writeMemory addr value => d.mode ≠ .running ∧ addr.toNat < memorySize ∧ value ≤ wordMax
  | jump addr => d.mode ≠ .running ∧ addr.toNat < memorySize

end Edit

def edit (d : Debugger) : Edit → Except DebugError (Option (Nat × Bool) × Debugger)
  | .setBreakpoint addr => (d.setBreakpoint addr).map (Prod.map some id)
  | .setWatch register => (d.setWatch register).map (Prod.map some id)
  | .setMemoryWatch addr => (d.setMemoryWatch addr).map (Prod.map some id)
  | .remove index => (d.remove index).map (none, ·)
  | .enable index enabled => (d.enable index enabled).map (none, ·)
  | .writeRegister register value => (d.writeRegister register value).map (none, ·)
  | .writeMemory addr value => (d.writeMemory addr value).map (none, ·)
  | .jump addr => (d.jump addr).map (none, ·)

theorem perform_edit (d : Debugger) (e : Edit) : d.perform e.operation = (d.edit e).map Prod.snd := by
  have again {α β γ : Type} (r : Except DebugError α) (f : α → β) (g : β → γ) :
      (r.map f).map g = r.map (g ∘ f) := by cases r <;> rfl
  have whole (r : Except DebugError Debugger) : r.map id = r := by cases r <;> rfl
  cases e <;> simp only [Edit.operation, perform, edit, again]
  case setBreakpoint | setWatch | setMemoryWatch => rfl
  all_goals exact (whole _).symm

theorem isOk_map {α β : Type} (r : Except DebugError α) (f : α → β) : (r.map f).isOk = r.isOk := by
  cases r <;> rfl

theorem isOk_whenIdle {α : Type} (d : Debugger) (r : Except DebugError α) :
    (d.whenIdle r).isOk = true ↔ d.mode ≠ .running ∧ r.isOk = true := by
  unfold whenIdle
  split <;> simp_all [Except.isOk, Except.toBool]

theorem isOk_ite {α : Type} {c : Prop} [Decidable c] (a : α) (e : DebugError) :
    (if c then (.ok a : Except DebugError α) else .error e).isOk = true ↔ c := by
  split <;> simp_all [Except.isOk, Except.toBool]

theorem isOk_register? (n : Int) : (register? n).isOk = true ↔ 0 ≤ n ∧ n < registerCount := by
  unfold register?
  split
  · simp only [Except.isOk, Except.toBool, true_iff]
    omega
  · simp only [Except.isOk, Except.toBool, Bool.false_eq_true, false_iff]
    omega

theorem isOk_index? (d : Debugger) (n : Int) :
    (d.index? n).isOk = true ↔ 0 ≤ n ∧ n < d.breakpoints.length := by
  rw [index?, isOk_ite]
  omega

theorem isOk_edit_iff (d : Debugger) (e : Edit) : (d.edit e).isOk = true ↔ e.Allowed d := by
  cases e <;> simp only [edit, isOk_map, Edit.Allowed]
  case setBreakpoint addr => exact isOk_ite _ _
  case setMemoryWatch addr => exact isOk_ite _ _
  case setWatch n => rw [setWatch, isOk_map, isOk_register?]
  case remove n => rw [remove, isOk_map, isOk_index?]
  case enable n enabled => rw [enable, isOk_map, isOk_index?]
  case writeRegister n value =>
    rw [writeRegister, isOk_whenIdle, ← and_assoc (a := 0 ≤ n), ← isOk_register?]
    refine and_congr_right fun _ => ?_
    cases register? n with
    | error e => simp [Except.isOk, Except.toBool]
    | ok r =>
      dsimp only
      split <;> simp_all [Except.isOk, Except.toBool]
  case writeMemory addr value =>
    rw [writeMemory, isOk_whenIdle]
    refine and_congr_right fun _ => ?_
    by_cases word : value ≤ wordMax
    · rw [if_neg (UInt16.not_lt.mpr word), Machine.write]
      by_cases inside : addr.toNat < memorySize <;> simp [inside, word, Except.isOk, Except.toBool]
    · rw [if_pos (UInt16.not_le.mp word)]
      simp [word, Except.isOk, Except.toBool]
  case jump addr => rw [jump, isOk_whenIdle, isOk_ite]

/-! The same step by step. A part of a debugger is reached by way of the debugger. -/

def unlessRunning {α : Type} (p : InPlace Debugger DebugError α) : InPlace Debugger DebugError α := do
  if (← look fun d => some d.mode) = .running then throw .running else p

def refuseAddress {α : Type} (addr : UInt16) : InPlace Debugger DebugError α := do
  throw (.fault (.outOfBounds (← look fun d => some d.program) addr.toUInt32))

def onState {α : Type} (p : InPlace State DebugError α) : InPlace Debugger DebugError α :=
  within (·.machine.state) setState p

def addInPlace (t : Trigger) : InPlace Debugger DebugError (Nat × Bool) := do
  match ← look fun d => some (d.breakpoints.findIdx? (·.trigger = t)) with
  | some k => pure (k, false)
  | none =>
    let b : Breakpoint := { trigger := t }
    change fun d => some { d with breakpoints := d.breakpoints ++ [b] }
    change fun d => some (d.record .debug "breakpoint added" [("breakpoint", .text b.text)])
    look fun d => some (d.breakpoints.length - 1, true)

def setAddress (trigger : UInt16 → Trigger) (addr : UInt16) : InPlace Debugger DebugError (Nat × Bool) :=
  if memorySize ≤ addr.toNat then refuseAddress addr else addInPlace (trigger addr)

def changeAt (n : Int) (act : List Breakpoint → Nat → List Breakpoint) : InPlace Debugger DebugError Unit := do
  let length ← look fun d => some d.breakpoints.length
  if n < 0 ∨ length ≤ n then throw (.noSuchBreakpoint n)
  else change fun d =>
    if n.toNat < d.breakpoints.length then some { d with breakpoints := act d.breakpoints n.toNat }
    else none

namespace Edit

def inPlace : Edit → InPlace Debugger DebugError (Option (Nat × Bool))
  | setBreakpoint addr => some <$> setAddress .address addr
  | setMemoryWatch addr => some <$> setAddress .memory addr
  | setWatch n =>
    match register? n with
    | .ok r => some <$> addInPlace (.register r)
    | .error e => throw e
  | remove n => do
    changeAt n List.eraseIdx
    pure none
  | enable n enabled => do
    changeAt n fun list k => list.modify k ({ · with enabled })
    pure none
  | writeRegister n value => unlessRunning do
    if n < 0 ∨ registerCount ≤ n then throw (.invalidOperand "register" n)
    else if wordMax < value then throw (.invalidOperand "value" value.toNat)
    else
      onState (setRegister n.toNat value)
      change fun d => some (d.record .debug "register written"
        [("register", .number n), ("value", .number value.toNat)])
      pure none
  | writeMemory addr value => unlessRunning do
    if wordMax < value then throw (.invalidOperand "value" value.toNat)
    else if memorySize ≤ addr.toNat then refuseAddress addr
    else
      onState (setCell addr.toNat value)
      change fun d => some (d.record .debug "memory written"
        [("addr", .number addr.toNat), ("value", .number value.toNat)])
      pure none
  | jump addr => unlessRunning do
    if memorySize ≤ addr.toNat then refuseAddress addr
    else
      onState (setProgram addr)
      change fun d => some { d with resumeAt := none }
      pure none

end Edit

@[simp] theorem exec_unlessRunning {α : Type} (p : InPlace Debugger DebugError α) (d : Debugger) :
    (unlessRunning p).exec d = if d.mode = .running then some (.error .running, d) else p.exec d := by
  simp [unlessRunning]

@[simp] theorem exec_refuseAddress {α : Type} (addr : UInt16) (d : Debugger) :
    (refuseAddress addr : InPlace Debugger DebugError α).exec d =
      some (.error (d.outOfBounds addr.toUInt32), d) := by
  simp [refuseAddress, outOfBounds]

@[simp] theorem exec_addInPlace (t : Trigger) (d : Debugger) :
    (addInPlace t).exec d = some (.ok (d.addTrigger t).1, (d.addTrigger t).2) := by
  cases found : d.breakpoints.findIdx? (·.trigger = t) <;> simp [addInPlace, addTrigger, found, record]

@[simp] theorem exec_setAddress (trigger : UInt16 → Trigger) (addr : UInt16) (d : Debugger) :
    (setAddress trigger addr).exec d =
      if addr.toNat < memorySize then
        some (.ok (d.addTrigger (trigger addr)).1, (d.addTrigger (trigger addr)).2)
      else some (.error (d.outOfBounds addr.toUInt32), d) := by
  by_cases inside : addr.toNat < memorySize
  · simp [setAddress, inside]
  · simp [setAddress, inside, Nat.le_of_not_lt inside]

@[simp] theorem exec_changeAt (n : Int) (act : List Breakpoint → Nat → List Breakpoint) (d : Debugger) :
    (changeAt n act).exec d =
      if 0 ≤ n ∧ n.toNat < d.breakpoints.length then
        some (.ok (), { d with breakpoints := act d.breakpoints n.toNat })
      else some (.error (.noSuchBreakpoint n), d) := by
  by_cases listed : 0 ≤ n ∧ n.toNat < d.breakpoints.length
  · have known : ¬(n < 0 ∨ (d.breakpoints.length : Int) ≤ n) := by omega
    have below : n < d.breakpoints.length := by omega
    simp [changeAt, known, listed, below]
  · have unknown : n < 0 ∨ (d.breakpoints.length : Int) ≤ n := by omega
    simp [changeAt, unknown, listed]

def settled (new : Except DebugError (Option (Nat × Bool) × Debugger)) (old : Debugger) :
    Except DebugError (Option (Nat × Bool)) × Debugger :=
  match new with
  | .ok (answer, d) => (.ok answer, d)
  | .error e => (.error e, old)

theorem exec_inPlace (e : Edit) (d : Debugger) : e.inPlace.exec d = some (settled (d.edit e) d) := by
  cases e with
  | setBreakpoint addr =>
    by_cases inside : addr.toNat < memorySize <;>
      simp [Edit.inPlace, edit, setBreakpoint, inside, Except.map, settled]
  | setMemoryWatch addr =>
    by_cases inside : addr.toNat < memorySize <;>
      simp [Edit.inPlace, edit, setMemoryWatch, inside, Except.map, settled]
  | setWatch n =>
    cases known : register? n <;> simp [Edit.inPlace, edit, setWatch, known, Except.map, settled]
  | remove n =>
    by_cases listed : 0 ≤ n ∧ n.toNat < d.breakpoints.length <;>
      simp [Edit.inPlace, edit, remove, index?, listed, Except.map, settled]
  | enable n enabled =>
    by_cases listed : 0 ≤ n ∧ n.toNat < d.breakpoints.length <;>
      simp [Edit.inPlace, edit, enable, index?, listed, Except.map, settled]
  | writeRegister n value =>
    by_cases running : d.mode = .running
    · simp [Edit.inPlace, edit, writeRegister, whenIdle, running, Except.map, settled]
    · by_cases known : 0 ≤ n ∧ n.toNat < registerCount
      · have inside : ¬(n < 0 ∨ (registerCount : Int) ≤ n) := by omega
        have number : (n.toNat : Int) = n := Int.toNat_of_nonneg known.1
        by_cases wide : wordMax < value
        · simp [Edit.inPlace, edit, writeRegister, whenIdle, running, register?, known, inside, wide,
            Except.map, settled]
        · simp [Edit.inPlace, edit, writeRegister, whenIdle, running, register?, known, inside, wide,
            Except.map, settled, onState, number, set_eq_setIfInBounds]
      · have outside : n < 0 ∨ (registerCount : Int) ≤ n := by omega
        simp [Edit.inPlace, edit, writeRegister, whenIdle, running, register?, known, outside, Except.map,
          settled]
  | writeMemory addr value =>
    by_cases running : d.mode = .running
    · simp [Edit.inPlace, edit, writeMemory, whenIdle, running, Except.map, settled]
    · by_cases wide : wordMax < value
      · simp [Edit.inPlace, edit, writeMemory, whenIdle, running, wide, Except.map, settled]
      · by_cases inside : addr.toNat < memorySize
        · simp [Edit.inPlace, edit, writeMemory, whenIdle, running, wide, inside, Machine.write, Except.map,
            settled, onState, setState, State.setMemory]
        · simp [Edit.inPlace, edit, writeMemory, whenIdle, running, wide, inside, Nat.le_of_not_lt inside,
            Machine.write, Except.map, settled, outOfBounds, program]
  | jump addr =>
    by_cases running : d.mode = .running
    · simp [Edit.inPlace, edit, jump, whenIdle, running, Except.map, settled]
    · by_cases inside : addr.toNat < memorySize
      · simp [Edit.inPlace, edit, jump, whenIdle, running, inside, Except.map, settled, onState]
      · simp [Edit.inPlace, edit, jump, whenIdle, running, inside, Nat.le_of_not_lt inside, Except.map,
          settled]

/-- An edit that is allowed goes through; one that is not is refused, and nothing has changed. -/
theorem inPlace_atomic (e : Edit) (d : Debugger) :
    ∃ result, e.inPlace.exec d = some (result, d.after e.operation) ∧
      d.edit e = result.map (·, d.after e.operation) ∧ (result.isOk = true ↔ e.Allowed d) ∧
      (result.isOk = false → d.after e.operation = d) := by
  have performed := d.perform_edit e
  rw [exec_inPlace, ← isOk_edit_iff]
  cases edited : d.edit e with
  | error failure =>
    rw [edited] at performed
    rw [after_of_error performed]
    exact ⟨.error failure, rfl, rfl, by simp [Except.isOk, Except.toBool], fun _ => rfl⟩
  | ok answered =>
    rw [edited] at performed
    rw [after_of_ok performed]
    exact ⟨.ok answered.1, rfl, rfl, by simp [Except.isOk, Except.toBool],
      by simp [Except.isOk, Except.toBool]⟩

end WordMachine.Debugger
