import WordMachine.Proofs.Assembly.Reassembly
import WordMachine.Proofs.Machine.Effects
import WordMachine.Proofs.Machine.Loading

/-! The resolved form of an instruction is a source. In it words stand for the registers that they
were read from, a destination is still named, and what is shown is quoted where it is a character.
It is assembled to as many cells as the instruction takes, and these are decoded, wherever they
stand and whatever registers hold, to the values that the instruction had. -/

namespace WordMachine

open Text Assembly

/-- The values that an operand can have in a role: a destination the number of a register, and any
other the words. -/
def Role.Fits : Role → UInt16 → Prop
  | .dest, v => ∃ r : Register, v = r.val.toUInt16
  | .value, v => v ≤ wordMax

/-- The raw number that has a value in a role without reading a register for it. -/
def Role.resolvedRaw : Role → UInt16 → UInt16
  | .dest, v => registerBase + v
  | .value, v => v

def State.Holds (s : State) (base : Nat) (words : List UInt16) : Prop :=
  ∀ n word, words[n]? = some word → s.memory[base + n]? = some word

namespace Instruction

def entries (i : Instruction) : List (Role × UInt16) := i.opcode.roles.zip i.values.toList

def resolvedWords (i : Instruction) : List UInt16 :=
  i.opcode.code :: i.entries.map fun e => e.1.resolvedRaw e.2

theorem map_fst_entries (i : Instruction) : i.entries.map Prod.fst = i.opcode.roles := by
  apply List.map_fst_zip
  simpa [Opcode.arity] using i.opcode.arity_le

theorem entries_eq {addr : UInt16} {i : Instruction} {list : List (UInt16 × UInt16)}
    (count : list.length = i.opcode.arity) (whole : i = .ofOperands addr i.opcode list) :
    i.entries = i.opcode.roles.zip (list.map Prod.snd) := by
  have values := (ofOperands_operands addr i.opcode count).2
  rw [← whole] at values
  rw [entries, Opcode.zip_take, values]

theorem length_entries (i : Instruction) : i.entries.length = i.opcode.arity := by
  rw [← List.length_map Prod.fst, map_fst_entries, Opcode.arity]

theorem length_resolvedWords (i : Instruction) : i.resolvedWords.length = 1 + i.opcode.arity := by
  rw [resolvedWords, List.length_cons, List.length_map, length_entries, Nat.add_comm]

theorem forall₂_entries {γ : Type} {R : Role → γ → Prop} {i : Instruction} {part : Role × UInt16 → γ}
    (each : ∀ e ∈ i.entries, R e.1 (part e)) : List.Forall₂ R i.opcode.roles (i.entries.map part) := by
  rw [← i.map_fst_entries, List.forall₂_map_left_iff, List.forall₂_map_right_iff]
  exact List.forall₂_same.mpr each

end Instruction

namespace Assembly

def resolvedLexeme (op : Opcode) (role : Role) (value : UInt16) : Lexeme :=
  ⟨if role = .dest then .name else if op = .out && value < 0x80 then .character else .number,
    Instruction.formatValue op role value⟩

theorem spells_character {value : UInt16} (ascii : value < 0x80) :
    Spells .value ⟨.character, Quoted.quoteCode value.toNat⟩ value := by
  have all : ∀ n : Fin 128, (Quoted.escape 39 n.val ++ [39]).head? ≠ some 39 ∧
      Token.quotedLength 39 (Quoted.escape 39 n.val ++ [39]) = some ((Quoted.escape 39 n.val).length + 1) ∧
      (characterValue (Quoted.quoteCode n.val)).toOption = some n.val.toUInt16 := by
    decide +kernel
  have below : value.toNat < 128 := UInt16.lt_iff_toNat_lt.mp ascii
  obtain ⟨opened, closed, read⟩ := all ⟨value.toNat, below⟩
  refine ⟨.character opened closed, rfl, fun t same => ?_⟩
  have kind : t.kind = .character := congrArg Lexeme.kind same
  have text : t.text = Quoted.quoteCode value.toNat := congrArg Lexeme.text same
  simp [rolePiece?, operandPiece?, operandKind, kind, text, read]

theorem spells_resolvedLexeme (op : Opcode) {role : Role} {value : UInt16} (fits : role.Fits value) :
    Spells role (resolvedLexeme op role value) (role.resolvedRaw value) := by
  cases role with
  | dest =>
    obtain ⟨r, rfl⟩ := fits
    have small : r.val < 8 := r.isLt
    have number : r.val.toUInt16.toNat = r.val := by
      simp only [Nat.toUInt16_eq, UInt16.toNat_ofNat']
      omega
    simp only [resolvedLexeme, Instruction.formatValue, if_true, number]
    exact spells_register .dest r
  | value =>
    by_cases shown : (op = .out && value < 0x80) = true
    · simp only [resolvedLexeme, Instruction.formatValue, reduceCtorEq, if_false, shown, if_true]
      exact spells_character (by simpa using (Bool.and_eq_true_iff.mp shown).2)
    · have below : value < registerBase := by
        rw [UInt16.lt_iff_toNat_lt]
        exact le_wordMax_iff.mp fits
      simp only [resolvedLexeme, Instruction.formatValue, reduceCtorEq, if_false, shown]
      exact spells_number below

def Written.resolved (i : Instruction) : Written :=
  instruction i.opcode (i.entries.map fun e => resolvedLexeme i.opcode e.1 e.2)

theorem Written.text_resolved (i : Instruction) : (Written.resolved i).text = i.resolved := by
  have joined : i.resolved = i.entries.foldl
      (fun t e => t ++ Bytes.space :: Instruction.formatValue i.opcode e.1 e.2)
      (Bytes.ofString i.opcode.mnemonic) := rfl
  rw [joined, List.foldl_append_eq_append, ← List.flatMap_def, Written.text, Written.resolved,
    Written.instruction, List.flatMap_map]
  rfl

theorem Written.resolved_stands {i : Instruction} (fits : ∀ e ∈ i.entries, e.1.Fits e.2) :
    (Written.resolved i).Stands i.resolvedWords := by
  have spelled : List.Forall₂ (fun role (o : Lexeme × UInt16) => Spells role o.1 o.2) i.opcode.roles
      (i.entries.map fun e => (resolvedLexeme i.opcode e.1 e.2, e.1.resolvedRaw e.2)) :=
    Instruction.forall₂_entries fun e mem => spells_resolvedLexeme i.opcode (fits e mem)
  have stands := Written.instruction_stands spelled
  simp only [List.map_map, Function.comp_def] at stands
  exact stands

theorem assemble_resolved {i : Instruction} (fits : ∀ e ∈ i.entries, e.1.Fits e.2)
    (table : Option SymbolTable) : (assemble i.resolved table).outcome = .ok i.resolvedWords := by
  have stands := Written.resolved_stands fits
  have arity := i.opcode.arity_le
  have assembled := assemble_statements (.cons stands .nil) (by simp [Instruction.resolvedWords])
    (by rw [List.flatten_singleton, i.length_resolvedWords, memorySize]; omega) table
  rw [List.flatten_singleton, ← stands.sound.closeLast_text, Written.text_resolved, assemble,
    parse_closeLast] at assembled
  exact assembled

end Assembly

namespace State

variable {s t : State} {addr base : UInt16} {i : Instruction}

theorem operandValue_fits {role : Role} {raw value : UInt16}
    (registers : ∀ r : Register, s.registers.get r ≤ wordMax)
    (valued : s.operandValue addr role raw = .ok value) : role.Fits value := by
  cases role with
  | dest =>
    simp only [operandValue] at valued
    split at valued
    · next r _ => exact ⟨r, (Except.ok.inj valued).symm⟩
    · simp at valued
  | value => exact resolve_le registers valued

theorem operandValue_resolved (t : State) (base : UInt16) {role : Role} {value : UInt16} (fits : role.Fits value) :
    t.operandValue base role (role.resolvedRaw value) = .ok value := by
  cases role with
  | dest =>
    obtain ⟨r, rfl⟩ := fits
    have stands : Operand.ofRaw (registerBase + r.val.toUInt16) = .register r := Operand.ofRaw_raw r
    simp only [operandValue, Role.resolvedRaw, stands]
  | value =>
    have below : value < registerBase := by
      rw [UInt16.lt_iff_toNat_lt]
      exact le_wordMax_iff.mp fits
    simp only [operandValue, resolve, Role.resolvedRaw, Operand.ofRaw_literal below]

theorem resolve_resolved {role : Role} {raw v : UInt16} (fits : role.Fits v)
    (valued : s.operandValue addr role raw = .ok v) (base : UInt16) :
    s.resolve base (role.resolvedRaw v) = s.resolve base raw := by
  cases role with
  | dest =>
    simp only [operandValue] at valued
    split at valued
    · next r stands =>
      obtain rfl := Except.ok.inj valued
      rw [Operand.raw_of_ofRaw stands]
      rfl
    · simp at valued
  | value =>
    have literal := operandValue_resolved s base fits
    simp only [operandValue, resolve] at literal valued ⊢
    rw [literal]
    split at valued <;> simp_all

theorem decode_fits (registers : ∀ r : Register, s.registers.get r ≤ wordMax)
    (decoded : s.decode addr = .ok i) : ∀ e ∈ i.entries, e.1.Fits e.2 := by
  obtain ⟨code, list, fetched, -, read, whole⟩ := decode_ok decoded
  obtain ⟨values, -⟩ := operands_ok read (fetch_ok fetched).1
  have all : List.Forall₂ Role.Fits i.opcode.roles (list.map Prod.snd) :=
    List.forall₂_map_right_iff.mpr (values.imp fun role operand valued => operandValue_fits registers valued)
  rw [Instruction.entries_eq values.length_eq.symm whole]
  rintro ⟨role, v⟩ mem
  exact (List.forall₂_iff_zip.mp all).2 mem

theorem operands_resolved (fits : ∀ e ∈ i.entries, e.1.Fits e.2)
    (holds : t.Holds base.toNat i.resolvedWords) :
    t.operands base i.opcode.roles 0 = .ok (i.entries.map fun e => (e.1.resolvedRaw e.2, e.2)) := by
  refine operands_of_values (Instruction.forall₂_entries fun e mem =>
    operandValue_resolved t base (fits e mem)) fun n raw listed => ?_
  refine fetch_of_cell ?_ base
  rw [Nat.zero_add, Nat.add_assoc]
  refine holds (n + 1) raw ?_
  rw [Instruction.resolvedWords, List.getElem?_cons_succ]
  simpa only [List.map_map, Function.comp_def] using listed

theorem decode_resolved (decoded : s.decode addr = .ok i) (fits : ∀ e ∈ i.entries, e.1.Fits e.2)
    (holds : t.Holds base.toNat i.resolvedWords) : ∃ raw, t.decode base = .ok { i with addr := base, raw } := by
  obtain ⟨code, list, fetched, -, read, whole⟩ := decode_ok decoded
  obtain ⟨values, -⟩ := operands_ok read (fetch_ok fetched).1
  have short : (list.map Prod.snd).length ≤ i.opcode.roles.length := by
    rw [List.length_map]
    exact Nat.le_of_eq values.length_eq.symm
  have same : (i.entries.map fun e => (e.1.resolvedRaw e.2, e.2)).map Prod.snd = list.map Prod.snd := by
    rw [List.map_map, Instruction.entries_eq values.length_eq.symm whole]
    exact List.map_snd_zip short
  have operation : t.fetch base base.toNat = .ok i.opcode.code := fetch_of_cell (holds 0 _ rfl) base
  have again := decode_of_operands operation i.opcode.ofCode?_code (operands_resolved fits holds)
  rw [Instruction.ofOperands_congr base addr i.opcode same, ← whole] at again
  exact ⟨_, again⟩

/-- Each of the resolved words has the value of the cell that it replaces. -/
theorem resolve_resolvedWords (decoded : s.decode addr = .ok i) (fits : ∀ e ∈ i.entries, e.1.Fits e.2)
    {n : Nat} {raw raw' : UInt16} (old : s.memory[addr.toNat + n]? = some raw)
    (new : i.resolvedWords[n]? = some raw') (base : UInt16) : s.resolve base raw' = s.resolve base raw := by
  obtain ⟨code, list, fetched, known, read, whole⟩ := decode_ok decoded
  obtain ⟨values, -⟩ := operands_ok read (fetch_ok fetched).1
  cases n with
  | zero =>
    obtain rfl : code = raw := Option.some.inj ((fetch_ok fetched).2.symm.trans old)
    obtain rfl : i.opcode.code = raw' := Option.some.inj new
    rw [Opcode.code_of_ofCode? known]
  | succ n =>
    rw [Instruction.resolvedWords, List.getElem?_cons_succ, List.getElem?_map,
      Instruction.entries_eq values.length_eq.symm whole] at new
    obtain ⟨⟨role, v⟩, entry, rfl⟩ := Option.map_eq_some_iff.mp new
    obtain ⟨has, listed⟩ := List.getElem?_zip_eq_some.mp entry
    rw [List.getElem?_map] at listed
    obtain ⟨operand, listed', rfl⟩ := Option.map_eq_some_iff.mp listed
    have cell := (fetch_ok (operands_cells read listed')).2
    rw [Nat.zero_add, Nat.add_assoc] at cell
    obtain rfl : operand.1 = raw := Option.some.inj (cell.symm.trans old)
    obtain ⟨inRoles, rfl⟩ := List.getElem?_eq_some_iff.mp has
    obtain ⟨inList, rfl⟩ := List.getElem?_eq_some_iff.mp listed'
    have mem : (i.opcode.roles[n], list[n].2) ∈ i.entries := by
      rw [Instruction.entries_eq values.length_eq.symm whole]
      exact List.mem_of_getElem? entry
    exact resolve_resolved (fits _ mem) (values.get inRoles inList) base

theorem loaded_resolved (decoded : s.decode addr = .ok i) (fits : ∀ e ∈ i.entries, e.1.Fits e.2)
    (holds : t.Holds addr.toNat i.resolvedWords) (registers : t.registers = s.registers)
    (outside : ∀ k, k < addr.toNat ∨ addr.toNat + i.size.toNat ≤ k → t.memory[k]? = s.memory[k]?)
    (base cell : UInt16) : t.loaded base cell = s.loaded base cell := by
  apply loaded_congr
  intro raw' raw new old
  have same : t.resolve base raw' = s.resolve base raw' := by
    simp only [resolve, registers]
  rw [same]
  by_cases apart : cell.toNat < addr.toNat ∨ addr.toNat + i.size.toNat ≤ cell.toNat
  · rw [outside _ apart, old] at new
    rw [Option.some.inj new]
  · -- an instruction may load one of its own cells, which the resolved words have replaced
    have size := decode_size decoded
    obtain ⟨n, at'⟩ : ∃ n, cell.toNat = addr.toNat + n := ⟨cell.toNat - addr.toNat, by omega⟩
    rw [at'] at new old
    have inside : n < i.resolvedWords.length := by
      rw [i.length_resolvedWords]
      omega
    have word := List.getElem?_eq_getElem inside
    obtain rfl : i.resolvedWords[n] = raw' := Option.some.inj ((holds n _ word).symm.trans new)
    exact resolve_resolvedWords decoded fits old word base

/-- Attempts on a state and on one in which the resolved words stand have the same effect. -/
theorem attempt_resolved (decoded : s.decode addr = .ok i) (fits : ∀ e ∈ i.entries, e.1.Fits e.2)
    (holds : t.Holds addr.toNat i.resolvedWords) (registers : t.registers = s.registers)
    (stack : t.stack = s.stack)
    (outside : ∀ k, k < addr.toNat ∨ addr.toNat + i.size.toNat ≤ k → t.memory[k]? = s.memory[k]?)
    (raw : Vector UInt16 3) (devices : Devices) :
    t.attempt { i with raw } devices = s.attempt i devices :=
  attempt_congr stack (fun _ => loaded_resolved decoded fits holds registers outside i.addr i.second) devices

/-- The resolved form of an instruction is assembled to words that mean what it meant: decoded
anywhere they have its values, and in its place they have its effect. -/
theorem resolved_faithful (registers : ∀ r : Register, s.registers.get r ≤ wordMax)
    (decoded : s.decode addr = .ok i) :
    ∃ words, (∀ table, (assemble i.resolved table).outcome = .ok words) ∧ words.length = i.size.toNat ∧
      (∀ (t : State) (base : UInt16), t.Holds base.toNat words →
        ∃ i', t.decode base = .ok i' ∧ i'.opcode = i.opcode ∧ i'.count = i.count ∧
          i'.values = i.values) ∧
      ∀ t : State, t.Holds addr.toNat words → t.registers = s.registers → t.stack = s.stack →
        (∀ k, k < addr.toNat ∨ addr.toNat + i.size.toNat ≤ k → t.memory[k]? = s.memory[k]?) →
        ∃ i', t.decode addr = .ok i' ∧ ∀ devices,
          (∃ e devices', (⟨s, devices⟩ : Machine).execute i = .done ⟨s.apply e, devices'⟩ ∧
            (⟨t, devices⟩ : Machine).execute i' = .done ⟨t.apply e, devices'⟩) ∨
          ∃ f devices', (⟨s, devices⟩ : Machine).execute i = .failed f ⟨s, devices'⟩ ∧
            (⟨t, devices⟩ : Machine).execute i' = .failed f ⟨t, devices'⟩ := by
  have fits := decode_fits registers decoded
  refine ⟨i.resolvedWords, assemble_resolved fits, ?_, fun t base holds => ?_,
    fun t holds registers' stack outside => ?_⟩
  · rw [i.length_resolvedWords, decode_size decoded]
  · obtain ⟨raw, again⟩ := decode_resolved decoded fits holds
    exact ⟨_, again, rfl, rfl, rfl⟩
  · obtain rfl := decode_addr decoded
    obtain ⟨raw, again⟩ := decode_resolved decoded fits holds
    refine ⟨_, again, fun devices => ?_⟩
    have same := attempt_resolved decoded fits holds registers' stack outside raw devices
    rw [Machine.execute_eq, Machine.execute_eq, same]
    match s.attempt i devices with
    | (devices', .ok e) => exact .inl ⟨e, devices', rfl, rfl⟩
    | (devices', .error f) => exact .inr ⟨f, devices', rfl, rfl⟩

def quoting : State where
  registers := #v[0, 39, 0, 0, 0, 0, 0, 0]
  memory := Image.memory [19, 0x8001] (by decide)

theorem resolved_faithful_quoting :
    ∃ words, (assemble "out \x27\\\x27\x27" none).outcome = .ok words ∧ words.length = 2 ∧
      ∃ (t : State) (i' : Instruction), t.Holds 0 words ∧ t.registers.get ⟨1, by decide⟩ = 0 ∧
        t.decode 0 = .ok i' ∧ i'.opcode = .out ∧ i'.values = #v[39, 0, 0] := by
  have decoded : quoting.decode 0 = .ok (.ofOperands 0 .out [(0x8001, 39)]) := by
    decide +kernel
  have text : (Instruction.ofOperands 0 .out [(0x8001, 39)]).resolved = "out \x27\\\x27\x27" := by
    decide +kernel
  obtain ⟨words, assembled, length, decodes, -⟩ := resolved_faithful (s := quoting) (by decide) decoded
  have length' : words.length = 2 := length.trans (by decide)
  have short : words.length ≤ memorySize := by
    rw [length']
    decide
  have holds : State.Holds { memory := Image.memory words short } 0 words := by
    intro n word listed
    obtain ⟨inside, rfl⟩ := List.getElem?_eq_some_iff.mp listed
    have bound : n < memorySize := Nat.lt_of_lt_of_le inside short
    rw [Nat.zero_add, Vector.getElem?_eq_getElem bound, Image.memory_getElem short bound, listed]
    rfl
  obtain ⟨i', again, opcode, -, values⟩ := decodes _ 0 holds
  exact ⟨words, text ▸ assembled none, length', _, i', holds, rfl, again, opcode, values⟩

end State

end WordMachine
