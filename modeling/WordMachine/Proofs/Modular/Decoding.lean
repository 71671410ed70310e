import WordMachine.Proofs.Machine.WellFormed
import WordMachine.Proofs.Modular.Machine

/-! Decoding means the same on both machines. The comparison goes along the reading of an
instruction: a cell, a resolved number, an operand, all operands of an operation. At each
point either both sides go on with values that correspond, or both fail for the same
reason. -/

namespace WordMachine.Modular

/-- The reason of a fault. A device that fails in another way than by the end of input has
no counterpart. -/
def failure? : Fault → Option Failure
  | .outOfBounds _ _ => some .outOfBounds
  | .invalidOperand _ _ => some .invalidOperand
  | .invalidOpcode _ _ => some .invalidOpcode
  | .stackUnderflow _ _ => some .stackUnderflow
  | .divisionByZero _ => some .divisionByZero
  | .device _ .keyboard .endOfInput => some .inputExhausted
  | .device _ _ _ => none

def Matches {α β : Type} (R : α → β → Prop) : Except Fault α → Except Failure β → Prop
  | .ok a, .ok b => R a b
  | .error f, .error failure => failure? f = some failure
  | _, _ => False

theorem Matches.bind {α β γ δ : Type} {R : α → β → Prop} {S : γ → δ → Prop}
    {x : Except Fault α} {y : Except Failure β} {f : α → Except Fault γ} {g : β → Except Failure δ}
    (first : Matches R x y) (next : ∀ a b, R a b → Matches S (f a) (g b)) :
    Matches S (x.bind f) (y.bind g) := by
  match x, y, first with
  | .ok a, .ok b, related => exact next a b related
  | .error _, .error _, same => exact same

theorem Matches.map {α β γ δ : Type} {R : α → β → Prop} {S : γ → δ → Prop}
    {x : Except Fault α} {y : Except Failure β} {f : α → γ} {g : β → δ}
    (first : Matches R x y) (next : ∀ a b, R a b → S (f a) (g b)) :
    Matches S (x.map f) (y.map g) := by
  match x, y, first with
  | .ok a, .ok b, related => exact next a b related
  | .error _, .error _, same => exact same

/-- A state and a configuration that hold the same numbers. -/
structure Represents (s : State) (c : Config) : Prop where
  registers : ∀ r : Register, (s.registers.get r).toNat = (c.registers r).val
  program : s.program.toNat = c.program
  stack : s.stack.map UInt16.toNat = c.stack.map Fin.val
  memory : ∀ k : Word, s.memory.get k = c.memory k
  halted : s.halted = c.halted

theorem toNat_lt_of_le {v : UInt16} (word : v ≤ wordMax) : v.toNat < 32768 := le_wordMax_iff.mp word

def ofState (s : State) (wf : s.WellFormed) (input output : List UInt8) : Config where
  registers r := ⟨(s.registers.get r).toNat, toNat_lt_of_le (wf.registers r)⟩
  program := s.program.toNat
  stack := s.stack.attach.map fun v => ⟨v.val.toNat, toNat_lt_of_le (wf.stack v.val v.property)⟩
  memory k := s.memory.get k
  halted := s.halted
  input := input
  output := output

theorem represents_ofState {s : State} (wf : s.WellFormed) (input output : List UInt8) :
    Represents s (ofState s wf input output) where
  registers _ := rfl
  program := rfl
  stack := by
    simp only [ofState, List.map_map]
    exact List.attach_map_val.symm
  memory _ := rfl
  halted := rfl

variable {s : State} {c : Config}

theorem Represents.withDevices (rel : Represents s c) (input output : List UInt8) :
    Represents s { c with input, output } :=
  ⟨rel.registers, rel.program, rel.stack, rel.memory, rel.halted⟩

theorem fetch_matches (rel : Represents s c) (addr : UInt16) (k : Nat) :
    Matches (· = ·) (s.fetch addr k) (c.cell k) := by
  unfold State.fetch Config.cell
  by_cases inside : k < 32768
  · rw [dif_pos inside, dif_pos (show k < memorySize from inside)]
    exact rel.memory ⟨k, inside⟩
  · rw [dif_neg inside, dif_neg (show ¬k < memorySize from inside)]
    rfl

theorem registerBase_toNat : registerBase.toNat = 32768 := rfl

theorem ofRaw_literal {raw : UInt16} (below : raw.toNat < 32768) :
    Operand.ofRaw raw = .literal raw := by
  apply Operand.ofRaw_literal
  rwa [UInt16.lt_iff_toNat_lt, registerBase_toNat]

theorem ofRaw_register {raw : UInt16} {r : Register} (names : raw.toNat = 32768 + r.val) :
    Operand.ofRaw raw = .register r := by
  have raw_eq : raw = r.raw := by
    apply UInt16.toNat.inj
    have small : r.val < 8 := r.isLt
    rw [names, Register.raw, UInt16.toNat_add, registerBase_toNat, Nat.toUInt16_eq,
      UInt16.toNat_ofNat']
    omega
  rw [raw_eq, Operand.ofRaw_raw]

theorem ofRaw_meaningless {raw : UInt16} (above : 32776 ≤ raw.toNat) :
    Operand.ofRaw raw = .meaningless := by
  have base := registerBase_toNat
  have count : registerCount = 8 := rfl
  rw [Operand.ofRaw, if_neg, dif_neg]
  · omega
  · rw [UInt16.lt_iff_toNat_lt]
    omega

theorem raw_cases (raw : UInt16) :
    raw.toNat < 32768 ∨ (∃ r : Register, raw.toNat = 32768 + r.val) ∨ 32776 ≤ raw.toNat := by
  by_cases below : raw.toNat < 32768
  · exact .inl below
  · by_cases above : 32776 ≤ raw.toNat
    · exact .inr (.inr above)
    · have small : raw.toNat - 32768 < registerCount := by
        have count : registerCount = 8 := rfl
        omega
      exact .inr (.inl ⟨⟨raw.toNat - 32768, small⟩, by dsimp only; omega⟩)

theorem resolve_register (c : Config) {raw : UInt16} {r : Register}
    (names : raw.toNat = 32768 + r.val) : c.resolve raw = .ok (c.registers r) := by
  have small : r.val < 8 := r.isLt
  have index : (⟨raw.toNat - 32768, by omega⟩ : Register) = r := by
    apply Fin.ext
    dsimp only
    omega
  rw [Config.resolve, dif_neg (by omega), dif_pos (by omega), index]

theorem resolve_matches (rel : Represents s c) (addr raw : UInt16) :
    Matches (fun v w => v.toNat = w.val) (s.resolve addr raw) (c.resolve raw) := by
  rw [State.resolve]
  rcases raw_cases raw with below | ⟨r, names⟩ | above
  · rw [ofRaw_literal below, Config.resolve, dif_pos below]
    simp only [Matches]
  · rw [ofRaw_register names, resolve_register c names]
    exact rel.registers r
  · rw [ofRaw_meaningless above, Config.resolve, dif_neg (by omega), dif_neg (by omega)]
    simp only [Matches, failure?]

theorem operandAt_eq (s : State) (addr : UInt16) (role : Role) (k : Nat) :
    s.operandAt addr role k = (s.fetch addr (addr.toNat + k + 1)).bind fun raw =>
      (s.operandValue addr role raw).map (raw, ·) := by
  rw [State.operandAt]
  cases s.fetch addr (addr.toNat + k + 1) <;> rfl

theorem value_matches (rel : Represents s c) (addr : UInt16) (k : Nat) :
    Matches (fun operand w => operand.2.toNat = w.val) (s.operandAt addr .value k)
      (c.value (addr.toNat + k + 1)) := by
  rw [operandAt_eq, Config.value]
  refine (fetch_matches rel addr _).bind fun raw _ same => ?_
  subst same
  have resolved := resolve_matches rel addr raw
  cases value : s.resolve addr raw <;> cases word : c.resolve raw <;>
    simp_all [Matches, State.operandValue, Except.map]

theorem dest_matches (rel : Represents s c) (addr : UInt16) (k : Nat) :
    Matches (fun operand r => operand.2.toNat = r.val) (s.operandAt addr .dest k)
      (c.dest (addr.toNat + k + 1)) := by
  rw [operandAt_eq, Config.dest]
  refine (fetch_matches rel addr _).bind fun raw _ same => ?_
  subst same
  rw [State.operandValue]
  rcases raw_cases raw with below | ⟨r, names⟩ | above
  · rw [ofRaw_literal below, dif_neg (by omega)]
    simp only [Except.map, Matches, failure?]
  · have small : r.val < 8 := r.isLt
    rw [ofRaw_register names, dif_pos (by omega)]
    simp only [Except.map, Matches, Nat.toUInt16_eq, UInt16.toNat_ofNat']
    omega
  · rw [ofRaw_meaningless above, dif_neg (by omega)]
    simp only [Except.map, Matches, failure?]

def Config.numbers (c : Config) : List Role → (k : Nat) → Except Failure (List Nat)
  | [], _ => .ok []
  | .dest :: more, k =>
    (c.dest k).bind fun r => (c.numbers more (k + 1)).map (r.val :: ·)
  | .value :: more, k =>
    (c.value k).bind fun w => (c.numbers more (k + 1)).map (w.val :: ·)

theorem operands_eq (s : State) (addr : UInt16) (role : Role) (more : List Role) (k : Nat) :
    s.operands addr (role :: more) k = (s.operandAt addr role k).bind fun operand =>
      (s.operands addr more (k + 1)).map (operand :: ·) := by
  rw [State.operands]
  cases s.operandAt addr role k <;> rfl

theorem operands_matches (rel : Represents s c) (addr : UInt16) (roles : List Role) (k : Nat) :
    Matches (fun list numbers => list.map (·.2.toNat) = numbers) (s.operands addr roles k)
      (c.numbers roles (addr.toNat + k + 1)) := by
  induction roles generalizing k with
  | nil => simp only [State.operands, Config.numbers, Matches, List.map_nil]
  | cons role more ih =>
    have rest := ih (k + 1)
    rw [operands_eq]
    cases role with
    | dest =>
      refine (dest_matches rel addr k).bind fun operand r same => rest.map fun list numbers others => ?_
      rw [List.map_cons, others, same]
    | value =>
      refine (value_matches rel addr k).bind fun operand w same => rest.map fun list numbers others => ?_
      rw [List.map_cons, others, same]

def Instr.opcode : Instr → Opcode
  | halt => .halt
  | set _ _ => .set
  | push _ => .push
  | pop _ => .pop
  | eq _ _ _ => .eq
  | gt _ _ _ => .gt
  | jmp _ => .jmp
  | jt _ _ => .jt
  | jf _ _ => .jf
  | add _ _ _ => .add
  | mult _ _ _ => .mult
  | mod _ _ _ => .mod
  | and _ _ _ => .and
  | or _ _ _ => .or
  | not _ _ => .not
  | rmem _ _ => .rmem
  | wmem _ _ => .wmem
  | call _ => .call
  | ret => .ret
  | out _ => .out
  | .in _ => .in
  | noop => .noop

theorem map_bind {α β γ : Type} (x : Except Failure α) (f : α → Except Failure β) (g : β → γ) :
    (x.bind f).map g = x.bind fun a => (f a).map g := by
  cases x <;> rfl

theorem instruction_numbers (c : Config) (p : Nat) (op : Opcode) :
    (c.instruction p op.code.toNat).map (fun x => (x.opcode, x.operands)) =
      (c.numbers op.roles (p + 1)).map (op, ·) := by
  cases op <;> simp only [Opcode.roles, Config.numbers, map_bind] <;>
    simp only [Opcode.code, UInt16.reduceToNat, Config.instruction, bind, pure, Except.pure, map_bind] <;>
    rfl

/-- Each number of an operation has its operation, and the numbers past them have none. -/
theorem ofCode?_cases (code : UInt16) :
    (∃ op, Opcode.ofCode? code = some op ∧ code = op.code) ∨
      Opcode.ofCode? code = none ∧ 22 ≤ code.toNat := by
  by_cases known : code.toNat < 22
  · refine .inl ?_
    have listed : ∀ k : Fin 22, ∃ op, Opcode.all[k.val]? = some op ∧ k.val = op.code.toNat := by decide
    obtain ⟨op, found, same⟩ := listed ⟨code.toNat, known⟩
    exact ⟨op, found, UInt16.toNat.inj same⟩
  · refine .inr ⟨?_, by omega⟩
    rw [Opcode.ofCode?, List.getElem?_eq_none_iff]
    exact Nat.le_of_not_lt known

theorem instruction_unknown (c : Config) (p : Nat) {code : Nat} (past : 22 ≤ code) :
    c.instruction p code = .error .invalidOpcode := by
  obtain ⟨n, rfl⟩ := Nat.exists_eq_add_of_le' past
  rfl

theorem Instr.size_eq (x : Instr) : x.size = 1 + x.opcode.arity := by
  cases x <;> rfl

structure Denotes (i : Instruction) (x : Instr) : Prop where
  opcode : i.opcode = x.opcode
  size : i.size.toNat = x.size
  values : ∀ k (bound : k < 3) n, x.operands[k]? = some n → i.values[k].toNat = n

theorem denotes_ofOperands {addr : UInt16} {x : Instr} {list : List (UInt16 × UInt16)}
    (same : list.map (·.2.toNat) = x.operands) :
    Denotes (.ofOperands addr x.opcode list) x where
  opcode := Instruction.ofOperands_opcode _ _ _
  size := by rw [Instruction.ofOperands_size, x.size_eq]
  values k bound n has := by
    rw [← same, List.getElem?_map] at has
    obtain ⟨operand, found, rfl⟩ := Option.map_eq_some_iff.mp has
    obtain ⟨inside, rfl⟩ := List.getElem?_eq_some_iff.mp found
    rw [Instruction.ofOperands_value addr x.opcode list k inside bound]

theorem decode_matches (rel : Represents s c) :
    Matches Denotes (s.decode s.program) c.decode := by
  have fetched := fetch_matches rel s.program s.program.toNat
  rw [State.decode_eq, Config.decode, ← rel.program]
  cases read : s.fetch s.program s.program.toNat <;> cases held : c.cell s.program.toNat <;>
    rw [read, held] at fetched
  case error.error => exact fetched
  case error.ok | ok.error => exact fetched.elim
  case ok.ok code code' =>
    obtain rfl : code = code' := fetched
    simp only [Except.bind]
    rcases ofCode?_cases code with ⟨op, known, rfl⟩ | ⟨unknown, past⟩
    · rw [known]
      have listed := operands_matches rel s.program op.roles 0
      have numbered := instruction_numbers c s.program.toNat op
      rw [Nat.add_zero] at listed
      cases values : s.operands s.program op.roles 0 <;>
        cases numbers : c.numbers op.roles (s.program.toNat + 1) <;>
        cases whole : c.instruction s.program.toNat op.code.toNat <;>
        simp only [values, numbers, whole, Except.map, Matches, Except.ok.injEq, Prod.mk.injEq,
          reduceCtorEq] at listed numbered ⊢
      case error.error.error => rw [listed, Except.error.inj numbered]
      case ok.ok.ok =>
        obtain ⟨rfl, same⟩ := numbered
        exact denotes_ofOperands (listed.trans same.symm)
    · rw [unknown, instruction_unknown c _ past]
      simp only [Matches, failure?]

end WordMachine.Modular
