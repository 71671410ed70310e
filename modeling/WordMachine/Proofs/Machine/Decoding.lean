import WordMachine.Machine.Basic
import WordMachine.Proofs.Success
import Mathlib.Data.List.Forall2

/-! What decoding reads. The operands of an instruction are read one after the other, each
checked before the next is fetched, so the first failure is the one reported. A decoded
instruction lies within memory as a whole, and therefore the address after it is the sum
of its address and its size without carry. -/

namespace WordMachine

theorem Opcode.code_of_ofCode? {code : UInt16} {op : Opcode} (known : ofCode? code = some op) :
    code = op.code := by
  have numbered : ∀ n : Fin all.length, (all.get n).code.toNat = n.val := by decide
  obtain ⟨inside, listed⟩ := List.getElem?_eq_some_iff.mp known
  apply UInt16.toNat.inj
  rw [← listed]
  exact (numbered ⟨code.toNat, inside⟩).symm

theorem Operand.raw_of_ofRaw {raw : UInt16} {r : Register} (stands : ofRaw raw = .register r) :
    raw = r.raw := by
  unfold ofRaw at stands
  split at stands
  · simp at stands
  · next above =>
    split at stands
    · next few =>
      obtain rfl := Operand.register.inj stands
      have base : registerBase.toNat = 32768 := rfl
      have count : registerCount = 8 := rfl
      rw [UInt16.lt_iff_toNat_lt] at above
      apply UInt16.toNat.inj
      simp only [Register.raw, UInt16.toNat_add, Nat.toUInt16_eq, UInt16.toNat_ofNat']
      omega
    · simp at stands

theorem Opcode.zip_take (op : Opcode) (operands : Vector UInt16 3) :
    op.roles.zip operands.toList = op.roles.zip (operands.toList.take op.arity) := by
  have short : op.roles.length ≤ operands.toList.length := by
    simpa [arity] using op.arity_le
  rw [List.zip_eq_zip_take_min, Nat.min_eq_left short, List.take_length, arity]

/-- The raw numbers that have a value in a role: every register, and words where no register
is asked for. -/
def Role.Takes (role : Role) (raw : UInt16) : Prop :=
  (∃ r : Register, raw = r.raw) ∨ role = .value ∧ raw < registerBase

def Instruction.fill (i : Instruction) (k : Nat) : List (UInt16 × UInt16) → Instruction
  | [] => i
  | (raw, value) :: more =>
    { i with raw := i.raw.setIfInBounds k raw, values := i.values.setIfInBounds k value }.fill
      (k + 1) more

namespace Instruction

@[simp] theorem fill_addr (i : Instruction) (k : Nat) (list : List (UInt16 × UInt16)) :
    (i.fill k list).addr = i.addr := by
  induction list generalizing i k with
  | nil => rfl
  | cons operand more ih => rw [fill, ih]

@[simp] theorem fill_opcode (i : Instruction) (k : Nat) (list : List (UInt16 × UInt16)) :
    (i.fill k list).opcode = i.opcode := by
  induction list generalizing i k with
  | nil => rfl
  | cons operand more ih => rw [fill, ih]

@[simp] theorem fill_count (i : Instruction) (k : Nat) (list : List (UInt16 × UInt16)) :
    (i.fill k list).count = i.count := by
  induction list generalizing i k with
  | nil => rfl
  | cons operand more ih => rw [fill, ih]

theorem fill_below (i : Instruction) (k : Nat) (list : List (UInt16 × UInt16)) (n : Nat)
    (below : n < k) (bound : n < 3) :
    (i.fill k list).raw[n] = i.raw[n] ∧ (i.fill k list).values[n] = i.values[n] := by
  induction list generalizing i k with
  | nil => exact ⟨rfl, rfl⟩
  | cons operand more ih =>
    have rest := ih { i with
      raw := i.raw.setIfInBounds k operand.1, values := i.values.setIfInBounds k operand.2 }
      (k + 1) (by omega)
    rw [fill, rest.1, rest.2]
    exact ⟨Vector.getElem_setIfInBounds_ne bound (by omega), Vector.getElem_setIfInBounds_ne bound (by omega)⟩

theorem fill_get (i : Instruction) (k : Nat) (list : List (UInt16 × UInt16)) (n : Nat)
    (inside : n < list.length) (bound : k + n < 3) :
    (i.fill k list).raw[k + n] = list[n].1 ∧ (i.fill k list).values[k + n] = list[n].2 := by
  induction list generalizing i k n with
  | nil => simp at inside
  | cons operand more ih =>
    cases n with
    | zero =>
      have kept := fill_below { i with
        raw := i.raw.setIfInBounds k operand.1, values := i.values.setIfInBounds k operand.2 }
        (k + 1) more k (by omega) bound
      simp only [fill, Nat.add_zero, List.getElem_cons_zero, kept]
      simp
    | succ n =>
      have next := ih { i with
        raw := i.raw.setIfInBounds k operand.1, values := i.values.setIfInBounds k operand.2 }
        (k + 1) n (by simpa using inside) (by omega)
      simpa only [fill, Nat.add_right_comm k 1 n, Nat.add_assoc, List.getElem_cons_succ] using next

def ofOperands (addr : UInt16) (op : Opcode) (list : List (UInt16 × UInt16)) : Instruction :=
  { blank addr with opcode := op, count := op.arity.toUInt16 }.fill 0 list

@[simp] theorem ofOperands_addr (addr : UInt16) (op : Opcode) (list : List (UInt16 × UInt16)) :
    (ofOperands addr op list).addr = addr := fill_addr _ _ _

@[simp] theorem ofOperands_opcode (addr : UInt16) (op : Opcode) (list : List (UInt16 × UInt16)) :
    (ofOperands addr op list).opcode = op := fill_opcode _ _ _

theorem ofOperands_get (addr : UInt16) (op : Opcode) (list : List (UInt16 × UInt16)) (n : Nat)
    (inside : n < list.length) (bound : n < 3) :
    (ofOperands addr op list).raw[n] = list[n].1 ∧ (ofOperands addr op list).values[n] = list[n].2 := by
  have entry := fill_get { blank addr with opcode := op, count := op.arity.toUInt16 } 0 list n
    inside (by omega)
  simpa only [ofOperands, Nat.zero_add] using entry

theorem ofOperands_value (addr : UInt16) (op : Opcode) (list : List (UInt16 × UInt16)) (n : Nat)
    (inside : n < list.length) (bound : n < 3) :
    (ofOperands addr op list).values[n] = list[n].2 :=
  (ofOperands_get addr op list n inside bound).2

theorem ofOperands_operands (addr : UInt16) (op : Opcode) {list : List (UInt16 × UInt16)}
    (count : list.length = op.arity) :
    (ofOperands addr op list).raw.toList.take op.arity = list.map Prod.fst ∧
      (ofOperands addr op list).values.toList.take op.arity = list.map Prod.snd := by
  have arity := op.arity_le
  have taken : ∀ (v : Vector UInt16 3) (part : UInt16 × UInt16 → UInt16),
      (∀ n (inside : n < list.length) (bound : n < 3), v[n] = part list[n]) →
        v.toList.take op.arity = list.map part := by
    intro v part each
    apply List.ext_getElem
    · simp
      omega
    · intro n inside _
      have few : n < op.arity := by
        rw [List.length_take] at inside
        omega
      simp [each n (by omega) (by omega)]
  exact ⟨taken _ _ fun n inside bound => (ofOperands_get addr op list n inside bound).1,
    taken _ _ fun n inside bound => (ofOperands_get addr op list n inside bound).2⟩

theorem fill_values {i j : Instruction} {k : Nat} {list list' : List (UInt16 × UInt16)}
    (before : i.values = j.values) (same : list.map Prod.snd = list'.map Prod.snd) :
    (i.fill k list).values = (j.fill k list').values := by
  induction list generalizing i j k list' with
  | nil =>
    obtain rfl : list' = [] := by simpa using same.symm
    exact before
  | cons operand more ih =>
    obtain ⟨operand', more', rfl, head, tail⟩ := List.map_eq_cons_iff.mp same.symm
    exact ih (by rw [before, head]) tail.symm

theorem ofOperands_congr (addr addr' : UInt16) (op : Opcode) {list list' : List (UInt16 × UInt16)}
    (same : list.map Prod.snd = list'.map Prod.snd) :
    ofOperands addr op list =
      { ofOperands addr' op list' with addr, raw := (ofOperands addr op list).raw } := by
  have at' := ofOperands_addr addr op list
  have opcode := (ofOperands_opcode addr op list).trans (ofOperands_opcode addr' op list').symm
  have count : (ofOperands addr op list).count = (ofOperands addr' op list').count := by
    simp only [ofOperands, fill_count]
  have values : (ofOperands addr op list).values = (ofOperands addr' op list').values :=
    fill_values rfl same
  match ofOperands addr op list, at', opcode, count, values with
  | ⟨_, _, _, _, _⟩, rfl, rfl, rfl, rfl => rfl

theorem ofOperands_count (addr : UInt16) (op : Opcode) (list : List (UInt16 × UInt16)) :
    (ofOperands addr op list).count.toNat = op.arity := by
  have arity := op.arity_le
  simp only [ofOperands, fill_count, Nat.toUInt16_eq, UInt16.toNat_ofNat']
  omega

theorem ofOperands_size (addr : UInt16) (op : Opcode) (list : List (UInt16 × UInt16)) :
    (ofOperands addr op list).size.toNat = 1 + op.arity := by
  have arity := op.arity_le
  rw [size, UInt16.toNat_add, ofOperands_count]
  simp
  omega

end Instruction

namespace State

def operandAt (s : State) (addr : UInt16) (role : Role) (k : Nat) :
    Except Fault (UInt16 × UInt16) :=
  match s.fetch addr (addr.toNat + k + 1) with
  | .error f => .error f
  | .ok raw => (s.operandValue addr role raw).map (raw, ·)

def operands (s : State) (addr : UInt16) :
    List Role → (k : Nat) → Except Fault (List (UInt16 × UInt16))
  | [], _ => .ok []
  | role :: more, k =>
    match s.operandAt addr role k with
    | .error f => .error f
    | .ok operand => (s.operands addr more (k + 1)).map (operand :: ·)

theorem decodeOperands_eq (s : State) (roles : List Role) (k : Nat) (i : Instruction) :
    (s.decodeOperands roles k i).mapError Prod.fst =
      (s.operands i.addr roles k).map (i.fill k) := by
  induction roles generalizing k i with
  | nil => rfl
  | cons role more ih =>
    simp only [decodeOperands, operands, operandAt]
    cases fetched : s.fetch i.addr (i.addr.toNat + k + 1) with
    | error f => rfl
    | ok raw =>
      cases valued : s.operandValue i.addr role raw with
      | error f =>
        simp only [Except.map, valued]
        rfl
      | ok value =>
        simp only [Except.map, valued, ih]
        cases s.operands i.addr more (k + 1) <;> rfl

/-- Decoding in one piece: the operation, then its operands in order. -/
theorem decode_eq (s : State) (addr : UInt16) :
    s.decode addr =
      match s.fetch addr addr.toNat with
      | .error f => .error f
      | .ok code =>
        match Opcode.ofCode? code with
        | none => .error (.invalidOpcode addr code)
        | some op => (s.operands addr op.roles 0).map (Instruction.ofOperands addr op) := by
  simp only [decode, decodePart]
  cases s.fetch addr addr.toNat with
  | error f => rfl
  | ok code =>
    simp only
    cases Opcode.ofCode? code with
    | none => rfl
    | some op => exact s.decodeOperands_eq op.roles 0 _

theorem fetch_ok {s : State} {addr raw : UInt16} {cell : Nat} (read : s.fetch addr cell = .ok raw) :
    cell < memorySize ∧ s.memory[cell]? = some raw := by
  unfold fetch at read
  split at read
  · next inside => exact ⟨inside, by simpa [inside] using read⟩
  · simp at read

theorem fetch_of_cell {s : State} {raw : UInt16} {cell : Nat} (held : s.memory[cell]? = some raw)
    (addr : UInt16) : s.fetch addr cell = .ok raw := by
  obtain ⟨inside, rfl⟩ := Vector.getElem?_eq_some_iff.mp held
  rw [fetch, dif_pos inside]

theorem operandAt_ok {s : State} {addr : UInt16} {role : Role} {k : Nat} {operand : UInt16 × UInt16}
    (read : s.operandAt addr role k = .ok operand) :
    s.fetch addr (addr.toNat + k + 1) = .ok operand.1 ∧
      s.operandValue addr role operand.1 = .ok operand.2 := by
  unfold operandAt at read
  split at read
  · simp at read
  · next raw fetched =>
    obtain ⟨value, valued, rfl⟩ := ok_of_map read
    exact ⟨fetched, valued⟩

theorem operands_ok {s : State} {addr : UInt16} {roles : List Role} {k : Nat}
    {list : List (UInt16 × UInt16)} (read : s.operands addr roles k = .ok list)
    (start : addr.toNat + k < memorySize) :
    List.Forall₂ (fun role operand => s.operandValue addr role operand.1 = .ok operand.2) roles list ∧
      addr.toNat + k + roles.length < memorySize := by
  induction roles generalizing k list with
  | nil =>
    obtain rfl : [] = list := by simpa [operands] using read
    exact ⟨.nil, start⟩
  | cons role more ih =>
    simp only [operands] at read
    split at read
    · simp at read
    · next operand first =>
      have ⟨fetched, valued⟩ := operandAt_ok first
      have inside := (fetch_ok fetched).1
      obtain ⟨rest, others, rfl⟩ := ok_of_map read
      have ⟨values, bound⟩ := ih others (by omega)
      refine ⟨.cons valued values, ?_⟩
      rw [List.length_cons]
      omega

theorem decode_ok {s : State} {addr : UInt16} {i : Instruction} (decoded : s.decode addr = .ok i) :
    ∃ code list, s.fetch addr addr.toNat = .ok code ∧ Opcode.ofCode? code = some i.opcode ∧
      s.operands addr i.opcode.roles 0 = .ok list ∧ i = .ofOperands addr i.opcode list := by
  rw [decode_eq] at decoded
  split at decoded
  · simp at decoded
  · next code fetched =>
    split at decoded
    · simp at decoded
    · next op known =>
      obtain ⟨list, read, rfl⟩ := ok_of_map decoded
      exact ⟨code, list, fetched, by simpa using known, by simpa using read, by simp⟩

theorem decode_addr {s : State} {addr : UInt16} {i : Instruction} (decoded : s.decode addr = .ok i) :
    i.addr = addr := by
  obtain ⟨code, list, -, -, -, whole⟩ := decode_ok decoded
  rw [whole, Instruction.ofOperands_addr]

theorem decode_size {s : State} {addr : UInt16} {i : Instruction} (decoded : s.decode addr = .ok i) :
    i.size.toNat = 1 + i.opcode.arity := by
  obtain ⟨code, list, -, -, -, whole⟩ := decode_ok decoded
  rw [whole, Instruction.ofOperands_size, ← whole]

theorem decode_value {s : State} {addr : UInt16} {i : Instruction} (decoded : s.decode addr = .ok i)
    {k : Nat} {role : Role} (has : i.opcode.roles[k]? = some role) (bound : k < 3) :
    ∃ raw, s.operandValue addr role raw = .ok i.values[k] := by
  obtain ⟨code, list, fetched, -, read, whole⟩ := decode_ok decoded
  obtain ⟨values, -⟩ := operands_ok read (fetch_ok fetched).1
  have inRoles := (List.getElem?_eq_some_iff.mp has).1
  have inside : k < list.length := values.length_eq ▸ inRoles
  have valued := values.get inRoles inside
  have entry := Instruction.ofOperands_value addr i.opcode list k inside bound
  rw [← whole] at entry
  refine ⟨list[k].1, ?_⟩
  rw [entry, ← (List.getElem?_eq_some_iff.mp has).2]
  exact valued

theorem decode_within {s : State} {addr : UInt16} {i : Instruction} (decoded : s.decode addr = .ok i) :
    addr.toNat + i.size.toNat ≤ memorySize := by
  obtain ⟨code, list, fetched, -, read, -⟩ := decode_ok decoded
  obtain ⟨-, bound⟩ := operands_ok read (fetch_ok fetched).1
  rw [decode_size decoded, Opcode.arity]
  omega

theorem decode_next {s : State} {addr : UInt16} {i : Instruction} (decoded : s.decode addr = .ok i) :
    (i.addr + i.size).toNat = i.addr.toNat + i.size.toNat := by
  have within := decode_within decoded
  rw [decode_addr decoded, UInt16.toNat_add, Nat.mod_eq_of_lt]
  exact Nat.lt_of_le_of_lt within (by decide)

theorem decode_of_operands {s : State} {addr code : UInt16} {op : Opcode}
    {list : List (UInt16 × UInt16)} (fetched : s.fetch addr addr.toNat = .ok code)
    (known : Opcode.ofCode? code = some op) (read : s.operands addr op.roles 0 = .ok list) :
    s.decode addr = .ok (.ofOperands addr op list) := by
  rw [decode_eq, fetched]
  simp only [known, read]
  rfl

theorem operandValue_ok_iff {s : State} {addr : UInt16} {role : Role} {raw : UInt16} :
    (∃ value, s.operandValue addr role raw = .ok value) ↔ role.Takes raw := by
  constructor
  · rintro ⟨value, valued⟩
    by_cases below : raw < registerBase
    · cases role with
      | dest => simp [operandValue, Operand.ofRaw_literal below] at valued
      | value => exact .inr ⟨rfl, below⟩
    · by_cases few : raw.toNat - registerBase.toNat < registerCount
      · exact .inl ⟨⟨raw.toNat - registerBase.toNat, few⟩,
          Operand.raw_of_ofRaw (by simp [Operand.ofRaw, below, few])⟩
      · have meaningless : Operand.ofRaw raw = .meaningless := by simp [Operand.ofRaw, below, few]
        cases role <;> simp [operandValue, resolve, meaningless] at valued
  · rintro (⟨r, rfl⟩ | ⟨rfl, below⟩)
    · cases role <;> simp [operandValue, resolve, Operand.ofRaw_raw]
    · simp [operandValue, resolve, Operand.ofRaw_literal below]

theorem operands_cells {s : State} {addr : UInt16} {roles : List Role} {k : Nat}
    {list : List (UInt16 × UInt16)} (read : s.operands addr roles k = .ok list) {n : Nat}
    {operand : UInt16 × UInt16} (listed : list[n]? = some operand) :
    s.fetch addr (addr.toNat + (k + n) + 1) = .ok operand.1 := by
  induction roles generalizing k n list with
  | nil =>
    obtain rfl : [] = list := by simpa [operands] using read
    simp at listed
  | cons role more ih =>
    simp only [operands] at read
    split at read
    · simp at read
    · next first head =>
      obtain ⟨rest, others, rfl⟩ := ok_of_map read
      cases n with
      | zero =>
        obtain rfl : first = operand := by simpa using listed
        exact (operandAt_ok head).1
      | succ n =>
        have later : rest[n]? = some operand := by simpa using listed
        have cell := ih others later
        rwa [Nat.add_right_comm k 1 n] at cell

theorem operands_of_values {s : State} {addr : UInt16} {roles : List Role} {list : List (UInt16 × UInt16)}
    {k : Nat}
    (valued : List.Forall₂ (fun role operand => s.operandValue addr role operand.1 = .ok operand.2) roles list)
    (cells : ∀ n raw, (list.map Prod.fst)[n]? = some raw → s.fetch addr (addr.toNat + (k + n) + 1) = .ok raw) :
    s.operands addr roles k = .ok list := by
  induction valued generalizing k with
  | nil => rfl
  | @cons role operand roles list head rest ih =>
    have first : s.operandAt addr role k = .ok operand := by
      have cell : s.fetch addr (addr.toNat + k + 1) = .ok operand.1 := cells 0 operand.1 rfl
      simp [operandAt, cell, head, Except.map]
    have others := ih (k := k + 1) fun n raw listed => by
      rw [Nat.add_right_comm k 1 n]
      exact cells (n + 1) raw (by simpa using listed)
    simp only [operands, first, others]
    rfl

theorem operands_of_cells {s : State} {addr : UInt16} {roles : List Role} {raws : List UInt16} {k : Nat}
    (valued : List.Forall₂ (fun role raw => ∃ value, s.operandValue addr role raw = .ok value) roles raws)
    (cells : ∀ n raw, raws[n]? = some raw → s.fetch addr (addr.toNat + (k + n) + 1) = .ok raw) :
    ∃ list, s.operands addr roles k = .ok list ∧ list.map Prod.fst = raws := by
  obtain ⟨list, valued', rfl⟩ : ∃ list : List (UInt16 × UInt16),
      List.Forall₂ (fun role operand => s.operandValue addr role operand.1 = .ok operand.2) roles list ∧
        list.map Prod.fst = raws := by
    clear cells
    induction valued with
    | nil => exact ⟨[], .nil, rfl⟩
    | @cons role raw roles raws head rest ih =>
      obtain ⟨value, valued⟩ := head
      obtain ⟨list, valued', rfl⟩ := ih
      exact ⟨(raw, value) :: list, .cons valued valued', rfl⟩
  exact ⟨list, operands_of_values valued' cells, rfl⟩

theorem decode_of_cells {s : State} {addr : UInt16} {op : Opcode} {raws : List UInt16}
    (fetched : s.fetch addr addr.toNat = .ok op.code)
    (valued : List.Forall₂ (fun role raw => ∃ value, s.operandValue addr role raw = .ok value) op.roles raws)
    (cells : ∀ n raw, raws[n]? = some raw → s.fetch addr (addr.toNat + n + 1) = .ok raw) :
    ∃ i, s.decode addr = .ok i ∧ i.opcode = op ∧ i.raw.toList.take op.arity = raws := by
  obtain ⟨list, read, same⟩ := operands_of_cells (k := 0) valued (by simpa using cells)
  have count : list.length = op.arity := by
    rw [← List.length_map Prod.fst, same, ← valued.length_eq, Opcode.arity]
  refine ⟨_, decode_of_operands fetched op.ofCode?_code read, Instruction.ofOperands_opcode _ _ _, ?_⟩
  rw [(Instruction.ofOperands_operands addr op count).1, same]

end State

end WordMachine
