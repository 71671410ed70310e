import WordMachine.Proofs.Modular.Decoding

/-! Carrying out an instruction, devices apart. The arithmetic comes first: what is done
with 16 or 32 bits and cut down to a word afterwards is arithmetic modulo 32768. Then what
an effect changes is compared part by part, and each operation is one of the effects. -/

namespace WordMachine.Modular

section Words

variable {b d : UInt16} {v w : Word}

theorem eq_iff (left : b.toNat = v.val) (right : d.toNat = w.val) : b = d ↔ v = w := by
  rw [← UInt16.toNat_inj, left, right, Fin.ext_iff]

theorem lt_iff (left : b.toNat = v.val) (right : d.toNat = w.val) : b < d ↔ v < w := by
  rw [UInt16.lt_iff_toNat_lt, left, right, Fin.lt_def]

theorem eq_zero_iff (same : b.toNat = v.val) : b = 0 ↔ v = 0 := eq_iff same rfl

theorem truth_val {p q : Prop} [Decidable p] [Decidable q] (same : p ↔ q) :
    (Machine.truth (decide p)).toNat = (if q then 1 else 0 : Word).val := by
  by_cases holds : q
  · rw [decide_eq_true (same.mpr holds), if_pos holds]
    rfl
  · rw [decide_eq_false (mt same.mp holds), if_neg holds]
    rfl

theorem add_val (left : b.toNat = v.val) (right : d.toNat = w.val) :
    (Machine.addMod b d).toNat = (v + w).val := by
  rw [Machine.addMod_toNat, left, right, Fin.val_add, memorySize]

theorem mult_val (left : b.toNat = v.val) (right : d.toNat = w.val) :
    (Machine.multMod b d).toNat = (v * w).val := by
  rw [Machine.multMod_toNat, left, right, Fin.val_mul, memorySize]

theorem mod_val (left : b.toNat = v.val) (right : d.toNat = w.val) :
    (b % d).toNat = (v % w).val := by
  rw [UInt16.toNat_mod, left, right, Fin.mod_val]

theorem and_val (left : b.toNat = v.val) (right : d.toNat = w.val) :
    (Machine.mask (b &&& d)).toNat = (v &&& w).val := by
  have small : v.val &&& w.val < 32768 := Nat.lt_of_le_of_lt Nat.and_le_left v.isLt
  rw [Machine.mask_toNat, UInt16.toNat_and, left, right, Fin.and_val, memorySize,
    Nat.mod_eq_of_lt small]

theorem or_val (left : b.toNat = v.val) (right : d.toNat = w.val) :
    (Machine.mask (b ||| d)).toNat = (v ||| w).val := by
  rw [Machine.mask_toNat, UInt16.toNat_or, left, right, Fin.or_val, memorySize]

theorem xor_wordMax (v : Word) : v.val ^^^ 32767 = 32767 - v.val := by
  have inverted : (BitVec.ofFin v ^^^ BitVec.allOnes 15).toNat = (~~~BitVec.ofFin v).toNat :=
    congrArg BitVec.toNat BitVec.xor_allOnes
  rw [BitVec.toNat_xor, BitVec.toNat_not] at inverted
  exact inverted

theorem not_val (same : b.toNat = v.val) :
    (Machine.mask (~~~b)).toNat = (v ^^^ 32767).val := by
  have small := v.isLt
  have ones : (32767 : Word).val = 32767 := rfl
  have size : UInt16.size = 65536 := rfl
  rw [Machine.mask_toNat, UInt16.toNat_not, same, Fin.xor_val, ones, xor_wordMax, memorySize]
  omega

end Words

variable {s : State} {c : Config}

structure Effected (s : State) (c : Config) (e : Effect) (c' : Config) : Prop where
  state : Represents (s.apply e) c'
  input : c'.input = c.input
  output : c'.output = c.output

theorem registers_store (rel : Represents s c) {index value : UInt16} {a : Register} {w : Word}
    (names : index.toNat = a.val) (same : value.toNat = w.val) (r : Register) :
    ((s.registers.setIfInBounds index.toNat value).get r).toNat =
      (Function.update c.registers a w r).val := by
  rw [get_setIfInBounds, names]
  by_cases written : r = a
  · subst written
    rw [if_pos rfl, Function.update_self, same]
  · have other : a.val ≠ r.val := fun equal => written (Fin.ext equal.symm)
    rw [if_neg other, Function.update_of_ne written]
    exact rel.registers r

theorem memory_store (rel : Represents s c) {addr value : UInt16} {a b : Word}
    (names : addr.toNat = a.val) (same : value.toNat = b.val) (k : Word) :
    (s.memory.setIfInBounds addr.toNat value).get k =
      Function.update c.memory a (UInt16.ofNat b.val) k := by
  have cell : ∀ memory : Vector UInt16 memorySize, memory.get k = memory[k.val] := fun _ => rfl
  rw [cell, Vector.getElem_setIfInBounds, names]
  by_cases written : k = a
  · subst written
    rw [if_pos rfl, Function.update_self, ← same, UInt16.ofNat_toNat]
  · have other : a.val ≠ k.val := fun equal => written (Fin.ext equal.symm)
    rw [if_neg other, Function.update_of_ne written, ← cell]
    exact rel.memory k

theorem effected_goto (rel : Represents s c) {next : UInt16} {p : Nat} (goes : next.toNat = p) :
    Effected s c { next } (c.goto p) where
  state := ⟨rel.registers, goes, rel.stack, rel.memory, by simp [State.apply, rel.halted, Config.goto]⟩
  input := rfl
  output := rfl

theorem effected_halt (rel : Represents s c) {next : UInt16} {p : Nat} (goes : next.toNat = p) :
    Effected s c { next, halts := true } { c.goto p with halted := true } where
  state := ⟨rel.registers, goes, rel.stack, rel.memory, by simp [State.apply]⟩
  input := rfl
  output := rfl

theorem effected_store (rel : Represents s c) {next index value : UInt16} {p : Nat} {a : Register}
    {w : Word} (goes : next.toNat = p) (names : index.toNat = a.val) (same : value.toNat = w.val) :
    Effected s c { next, register := some (index, value) } ((c.store a w).goto p) where
  state := ⟨registers_store rel names same, goes, rel.stack, rel.memory,
    by simp [State.apply, rel.halted, Config.goto, Config.store]⟩
  input := rfl
  output := rfl

theorem effected_cell (rel : Represents s c) {next addr value : UInt16} {p : Nat} {a b : Word}
    (goes : next.toNat = p) (names : addr.toNat = a.val) (same : value.toNat = b.val) :
    Effected s c { next, cell := some (addr, value) }
      { c.goto p with memory := Function.update c.memory a (UInt16.ofNat b) } where
  state := ⟨rel.registers, goes, rel.stack, memory_store rel names same,
    by simp [State.apply, rel.halted, Config.goto]⟩
  input := rfl
  output := rfl

theorem effected_push (rel : Represents s c) {next value : UInt16} {p : Nat} {w : Word}
    (goes : next.toNat = p) (same : value.toNat = w.val) :
    Effected s c { next, stack := .push value } { c.goto p with stack := w :: c.stack } where
  state := ⟨rel.registers, goes, by simp [State.apply, rel.stack, same], rel.memory,
    by simp [State.apply, rel.halted, Config.goto]⟩
  input := rfl
  output := rfl

theorem stack_cases (rel : Represents s c) :
    s.stack = [] ∧ c.stack = [] ∨
      ∃ top rest w words, s.stack = top :: rest ∧ c.stack = w :: words ∧ top.toNat = w.val ∧
        rest.map UInt16.toNat = words.map Fin.val := by
  have same := rel.stack
  cases held : s.stack <;> cases words : c.stack <;>
    simp only [held, words, List.map_nil, List.map_cons, reduceCtorEq, List.cons.injEq] at same
  case nil.nil => exact .inl ⟨rfl, rfl⟩
  case cons.cons => exact .inr ⟨_, _, _, _, rfl, rfl, same.1, same.2⟩

theorem effected_pop (rel : Represents s c) {next index top : UInt16} {rest : List UInt16} {p : Nat}
    {a : Register} {w : Word} {words : List Word} (goes : next.toNat = p)
    (names : index.toNat = a.val) (held : s.stack = top :: rest) (same : top.toNat = w.val)
    (below : rest.map UInt16.toNat = words.map Fin.val) :
    Effected s c { next, register := some (index, top), stack := .drop }
      { (c.store a w).goto p with stack := words } where
  state := ⟨registers_store rel names same, goes, by simpa [State.apply, held] using below,
    rel.memory, by simp [State.apply, rel.halted, Config.goto, Config.store]⟩
  input := rfl
  output := rfl

theorem effected_return (rel : Represents s c) {top : UInt16} {rest : List UInt16} {w : Word}
    {words : List Word} (held : s.stack = top :: rest) (same : top.toNat = w.val)
    (below : rest.map UInt16.toNat = words.map Fin.val) :
    Effected s c { next := top, stack := .drop } { c.goto w with stack := words } where
  state := ⟨rel.registers, same, by simpa [State.apply, held] using below, rel.memory,
    by simp [State.apply, rel.halted, Config.goto]⟩
  input := rfl
  output := rfl

theorem Denotes.first {i : Instruction} {x : Instr} {n : Nat} {more : List Nat} (denotes : Denotes i x)
    (listed : x.operands = n :: more) : i.first.toNat = n :=
  denotes.values 0 (by decide) n (by rw [listed]; rfl)

theorem Denotes.second {i : Instruction} {x : Instr} {l n : Nat} {more : List Nat}
    (denotes : Denotes i x) (listed : x.operands = l :: n :: more) : i.second.toNat = n :=
  denotes.values 1 (by decide) n (by rw [listed]; rfl)

theorem Denotes.third {i : Instruction} {x : Instr} {l m n : Nat} (denotes : Denotes i x)
    (listed : x.operands = [l, m, n]) : i.third.toNat = n :=
  denotes.values 2 (by decide) n (by rw [listed]; rfl)

/-- No word leads out of memory. -/
theorem fetch_word (rel : Represents s c) (addr : UInt16) {cell : UInt16} {k : Word}
    (same : cell.toNat = k.val) : s.fetch addr cell.toNat = .ok (c.memory k) := by
  have inside : cell.toNat < memorySize := by
    rw [same]
    exact k.isLt
  rw [State.fetch, dif_pos inside, ← rel.memory k]
  simp only [same]
  rfl

variable {i : Instruction} {x : Instr} {p : Nat}

theorem control_matches (rel : Represents s c) (denotes : Denotes i x)
    (goes : (i.addr + i.size).toNat = p) (kind : x.opcode.kind = .control) :
    Matches (Effected s c) (s.effect i) (c.exec p x) := by
  have op := denotes.opcode
  cases x <;> cases kind <;> simp only [Instr.opcode] at op <;> simp only [State.effect, op, Config.exec]
  case halt => exact effected_halt rel goes
  case jmp a => exact effected_goto rel (denotes.first rfl)
  case jt a b =>
    have zero := eq_zero_iff (denotes.first rfl : i.first.toNat = a.val)
    refine effected_goto rel ?_
    by_cases isZero : a = 0
    · rw [if_pos isZero, if_pos (zero.mpr isZero), goes]
    · rw [if_neg isZero, if_neg (mt zero.mp isZero), denotes.second rfl]
  case jf a b =>
    have zero := eq_zero_iff (denotes.first rfl : i.first.toNat = a.val)
    refine effected_goto rel ?_
    by_cases isZero : a = 0
    · rw [if_pos isZero, if_pos (zero.mpr isZero), denotes.second rfl]
    · rw [if_neg isZero, if_neg (mt zero.mp isZero), goes]
  case noop => exact effected_goto rel goes

theorem arithmetic_matches (rel : Represents s c) (denotes : Denotes i x)
    (goes : (i.addr + i.size).toNat = p) (kind : x.opcode.kind = .arithmetic) :
    Matches (Effected s c) (s.effect i) (c.exec p x) := by
  have op := denotes.opcode
  cases x <;> cases kind <;> simp only [Instr.opcode] at op <;> simp only [State.effect, op, Config.exec]
  case set a b => exact effected_store rel goes (denotes.first rfl) (denotes.second rfl)
  case eq a b d =>
    refine effected_store rel goes (denotes.first rfl) (truth_val ?_)
    exact eq_iff (denotes.second rfl) (denotes.third rfl)
  case gt a b d =>
    refine effected_store rel goes (denotes.first rfl) (truth_val ?_)
    exact lt_iff (denotes.third rfl) (denotes.second rfl)
  case add a b d =>
    exact effected_store rel goes (denotes.first rfl) (add_val (denotes.second rfl) (denotes.third rfl))
  case mult a b d =>
    exact effected_store rel goes (denotes.first rfl) (mult_val (denotes.second rfl) (denotes.third rfl))
  case mod a b d =>
    have zero := eq_zero_iff (denotes.third rfl : i.third.toNat = d.val)
    by_cases isZero : d = 0
    · rw [if_pos isZero, if_pos (zero.mpr isZero)]
      simp only [Matches, failure?]
    · rw [if_neg isZero, if_neg (mt zero.mp isZero)]
      exact effected_store rel goes (denotes.first rfl) (mod_val (denotes.second rfl) (denotes.third rfl))
  case and a b d =>
    exact effected_store rel goes (denotes.first rfl) (and_val (denotes.second rfl) (denotes.third rfl))
  case or a b d =>
    exact effected_store rel goes (denotes.first rfl) (or_val (denotes.second rfl) (denotes.third rfl))
  case not a b =>
    exact effected_store rel goes (denotes.first rfl) (not_val (denotes.second rfl))

theorem stack_matches (rel : Represents s c) (denotes : Denotes i x)
    (goes : (i.addr + i.size).toNat = p) (kind : x.opcode.kind = .stack) :
    Matches (Effected s c) (s.effect i) (c.exec p x) := by
  have op := denotes.opcode
  cases x <;> cases kind <;> simp only [Instr.opcode] at op <;> simp only [State.effect, op, Config.exec]
  case push a => exact effected_push rel goes (denotes.first rfl)
  case pop a =>
    rcases stack_cases rel with ⟨held, words⟩ | ⟨top, rest, w, words, held, held', same, below⟩
    · simp only [held, words, Matches, failure?]
    · simp only [held, held']
      exact effected_pop rel goes (denotes.first rfl) held same below
  case call a =>
    by_cases inside : p < 32768
    · rw [dif_pos inside, if_pos (by rw [goes]; exact inside)]
      exact effected_push rel (denotes.first rfl) goes
    · rw [dif_neg inside, if_neg (by rw [goes]; exact inside)]
      simp only [Matches, failure?]
  case ret =>
    rcases stack_cases rel with ⟨held, words⟩ | ⟨top, rest, w, words, held, held', same, below⟩
    · simp only [held, words, Matches, failure?]
    · simp only [held, held']
      exact effected_return rel held same below

theorem memory_matches (rel : Represents s c) (denotes : Denotes i x)
    (goes : (i.addr + i.size).toNat = p) (kind : x.opcode.kind = .memory) :
    Matches (Effected s c) (s.effect i) (c.exec p x) := by
  have op := denotes.opcode
  cases x <;> cases kind <;> simp only [Instr.opcode] at op <;> simp only [State.effect, op, Config.exec]
  case rmem a b =>
    have held := fetch_word rel i.addr (denotes.second rfl : i.second.toNat = b.val)
    have read := resolve_matches rel i.addr (c.memory b)
    cases value : s.resolve i.addr (c.memory b) <;> cases word : c.resolve (c.memory b) <;>
      rw [value, word] at read <;> simp only [held, value, Except.map]
    case error.error => exact read
    case error.ok | ok.error => exact read.elim
    case ok.ok v w => exact effected_store rel goes (denotes.first rfl) read
  case wmem a b =>
    have inside : i.first.toNat < memorySize := by
      rw [denotes.first rfl]
      exact a.isLt
    rw [if_pos inside]
    exact effected_cell rel goes (denotes.first rfl) (denotes.second rfl)

/-- Every operation but those of the devices has the same effect, or fails for the same reason. -/
theorem effect_matches (rel : Represents s c) (denotes : Denotes i x)
    (goes : (i.addr + i.size).toNat = p) (notDevice : x.opcode.kind ≠ .device) :
    Matches (Effected s c) (s.effect i) (c.exec p x) := by
  cases kind : x.opcode.kind with
  | control => exact control_matches rel denotes goes kind
  | arithmetic => exact arithmetic_matches rel denotes goes kind
  | stack => exact stack_matches rel denotes goes kind
  | memory => exact memory_matches rel denotes goes kind
  | device => exact (notDevice kind).elim

end WordMachine.Modular
