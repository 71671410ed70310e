import WordMachine.Proofs.Cbor.Values
import WordMachine.Proofs.Machine.Loading

/-! The stored form of a snapshot. The reader takes it back as it was written, provided the
stack has no more entries than the reader allows an array to have; with a longer stack it
reports an error. -/

namespace WordMachine

namespace Image

theorem wordOfBytes_wordBytes (w : UInt16) : wordOfBytes w.toUInt8 (w >>> 8).toUInt8 = w := by
  apply UInt16.toNat.inj
  have bound := w.toNat_lt
  have high : (w >>> 8).toUInt8.toNat = w.toNat / 256 := by
    simp [Nat.shiftRight_eq_div_pow]
    omega
  have shifted : ((w >>> 8).toUInt8.toUInt16 <<< 8).toNat = (w.toNat / 256) <<< 8 := by
    simp [Nat.shiftLeft_eq]
    omega
  rw [wordOfBytes, UInt16.toNat_or, shifted, UInt8.toNat_toUInt16, UInt16.toNat_toUInt8, Nat.or_comm,
    ← Nat.shiftLeft_add_eq_or_of_lt (Nat.mod_lt _ (by decide)), Nat.shiftLeft_eq]
  omega

theorem ofBytes_toBytes (words : List UInt16) : ofBytes (toBytes words) = words := by
  induction words with
  | nil => rfl
  | cons w words ih => rw [toBytes_cons, ofBytes, ih, wordOfBytes_wordBytes]

theorem toBytes_length (words : List UInt16) : (toBytes words).length = words.length * 2 := by
  induction words with
  | nil => rfl
  | cons w words ih =>
    rw [toBytes_cons, List.length_cons, List.length_cons, ih, List.length_cons]
    omega

theorem memory_toList (v : Vector UInt16 memorySize) (h : v.toList.length ≤ memorySize) :
    memory v.toList h = v := by
  apply Vector.toList_inj.mp
  simp [memory, Vector.toList]

end Image

namespace Snapshot

open Cbor

theorem word_lt (w : UInt16) : w.toNat < headBound :=
  Nat.lt_trans w.toNat_lt (by decide)

def wordItems (words : List UInt16) : List Item := (words.map UInt16.toNat).map .unsigned

theorem forms_words (levels depth : Nat) (words : List UInt16) :
    List.Forall₂ (Form (levels + 1) depth) (words.map fun w => Encode.nat w.toNat)
      (wordItems words) := by
  induction words with
  | nil => exact .nil
  | cons w words ih => exact .cons (form_nat (word_lt w)) ih

theorem map_toNat_le (words : List UInt16) : ∀ n ∈ words.map UInt16.toNat, n ≤ 0xFFFF := by
  intro n stored
  obtain ⟨w, -, rfl⟩ := List.mem_map.mp stored
  exact Nat.le_of_lt_succ w.toNat_lt

def stackItem (stack : List UInt16) : Item :=
  if stack.isEmpty then .simple 22 else .array (wordItems stack)

def leadingPairs (s : Snapshot) : List (Bytes × Bytes) := [
  (Encode.nat 1, Encode.nat s.version),
  (Encode.nat 2, Encode.nat s.program.toNat),
  (Encode.nat 3, Encode.bool s.halted),
  (Encode.nat 4, Encode.array (s.registers.toList.map fun w => Encode.nat w.toNat))]

def stackText (stack : List UInt16) : Bytes :=
  if stack.isEmpty then Encode.null else Encode.array (stack.map fun w => Encode.nat w.toNat)

def pairs (s : Snapshot) : List (Bytes × Bytes) :=
  s.leadingPairs ++ [(Encode.nat 5, stackText s.stack), (Encode.nat 6, Encode.bytes s.memory)]

theorem encode_eq (s : Snapshot) : s.encode = Encode.map s.pairs := rfl

theorem encode_ne_nil (s : Snapshot) : s.encode ≠ [] := by
  simp [encode, Encode.map, Encode.head]

theorem pairs_length (s : Snapshot) : s.pairs.length = 6 := rfl

theorem pairs_length_le (s : Snapshot) : s.pairs.length ≤ maxLength := by
  rw [pairs_length]
  decide

def leadingItems (s : Snapshot) : List (Item × Item) := [
  (.unsigned 1, .unsigned s.version),
  (.unsigned 2, .unsigned s.program.toNat),
  (.unsigned 3, .simple (if s.halted then 21 else 20)),
  (.unsigned 4, .array (wordItems s.registers.toList))]

theorem forms_leading {s : Snapshot} (levels : Nat) {depth : Nat} (version : s.version < headBound)
    (shallow : depth < maxDepth) :
    List.Forall₂ (fun t i => Form (levels + 2) depth t.1 i.1 ∧ Form (levels + 2) depth t.2 i.2)
      s.leadingPairs s.leadingItems := by
  have key (n : Nat) (small : n < 7) : Form (levels + 2) depth (Encode.nat n) (.unsigned n) :=
    form_nat (Nat.lt_trans small (by decide))
  have registers := form_array (forms_words levels (depth + 1) s.registers.toList)
    (by rw [List.length_map, Vector.length_toList]; decide) shallow
  exact .cons ⟨key 1 (by decide), form_nat version⟩
    (.cons ⟨key 2 (by decide), form_nat (word_lt _)⟩
      (.cons ⟨key 3 (by decide), form_bool _ _ _⟩ (.cons ⟨key 4 (by decide), registers⟩ .nil)))

theorem form_stack {levels depth : Nat} {stack : List UInt16} (short : stack.length ≤ maxLength)
    (shallow : depth < maxDepth) : Form (levels + 2) depth (stackText stack) (stackItem stack) := by
  unfold stackText stackItem
  split
  · exact form_null _ _
  · exact form_array (forms_words levels (depth + 1) stack) (by simpa using short) shallow

def item (s : Snapshot) : Item :=
  .map (s.leadingItems ++ [(.unsigned 5, stackItem s.stack), (.unsigned 6, .bytes [s.memory])])

theorem forms_pairs {s : Snapshot} (levels : Nat) {depth : Nat} (version : s.version < headBound)
    (short : s.stack.length ≤ maxLength) (memory : s.memory.length < lengthBound)
    (shallow : depth < maxDepth) :
    List.Forall₂ (fun t i => Form (levels + 2) depth t.1 i.1 ∧ Form (levels + 2) depth t.2 i.2)
      s.pairs (s.leadingItems ++ [(.unsigned 5, stackItem s.stack), (.unsigned 6, .bytes [s.memory])]) := by
  refine List.rel_append (forms_leading levels version shallow) (.cons ⟨?_, ?_⟩ (.cons ⟨?_, ?_⟩ .nil))
  · exact form_nat (n := 5) (by decide)
  · exact form_stack short shallow
  · exact form_nat (n := 6) (by decide)
  · exact form_bytes memory

theorem parse_encode {s : Snapshot} (version : s.version < headBound)
    (short : s.stack.length ≤ maxLength) (memory : s.memory.length < lengthBound) :
    parse s.encode = .ok s.item := by
  have forms := forms_pairs 63 version short memory (by decide : 1 < maxDepth)
  rw [encode_eq]
  exact parse_form (form_map forms s.pairs_length_le (by decide)) s.encode_ne_nil

theorem setField_version {s : Snapshot} {version : Nat} (bound : version < headBound) :
    setField 1 (.unsigned version) s = .ok { s with version } := by
  have counted : version ≤ 0xFFFFFFFFFFFFFFFF := Nat.le_of_lt_succ bound
  simp only [setField, Item.decodeNat_unsigned counted]
  rfl

theorem setField_program (s : Snapshot) (program : UInt16) :
    setField 2 (.unsigned program.toNat) s = .ok { s with program } := by
  have counted : program.toNat ≤ 0xFFFF := Nat.le_of_lt_succ program.toNat_lt
  simp [setField, Item.decodeNat_unsigned counted, bind, Except.bind, pure, Except.pure]

theorem setField_halted (s : Snapshot) (halted : Bool) :
    setField 3 (.simple (if halted then 21 else 20)) s = .ok { s with halted } := by
  cases halted <;> rfl

theorem setField_registers (s : Snapshot) (registers : Vector UInt16 registerCount) :
    setField 4 (.array (wordItems registers.toList)) s = .ok { s with registers } := by
  have read := Item.decodeArray_unsigned (some registerCount) (map_toNat_le registers.toList)
    (by simp)
  have whole : (Vector.ofFn fun k : Fin registerCount =>
      ((registers.toList.map UInt16.toNat)[k.val]?.getD 0).toUInt16) = registers := by
    ext k bound
    simp
  simp only [setField, wordItems, read, bind, Except.bind, whole]
  rfl

theorem setField_stack (s : Snapshot) (stack : List UInt16) :
    setField 5 (stackItem stack) s = .ok { s with stack } := by
  unfold stackItem
  split
  · next none =>
    obtain rfl : stack = [] := by simpa using none
    rfl
  · have read := Item.decodeArray_unsigned none (map_toNat_le stack) (by simp)
    have inverse : Nat.toUInt16 ∘ UInt16.toNat = id := by
      funext w
      exact UInt16.ofNat_toNat
    have whole : (stack.map UInt16.toNat).map Nat.toUInt16 = stack := by
      rw [List.map_map, inverse, List.map_id]
    simp only [setField, wordItems, read, bind, Except.bind, Option.getD_some, whole]
    rfl

theorem setField_memory (s : Snapshot) (memory : Bytes) :
    setField 6 (.bytes [memory]) s = .ok { s with memory } := by
  have single : [memory].flatten = memory := by simp
  simp only [setField, Item.decodeBytes, Item.content, bind, Except.bind, pure, Except.pure,
    Option.getD_some, single]

/-- What is written is read back. -/
theorem decode_encode {s : Snapshot} (version : s.version < headBound)
    (short : s.stack.length ≤ maxLength) (memory : s.memory.length < lengthBound) :
    decode s.encode = .ok s := by
  rw [decode, parse_encode version short memory]
  change Item.decodeFields setField [1, 2, 3, 4, 5, 6] _ {} = .ok s
  rw [leadingItems, List.cons_append, List.cons_append, List.cons_append, List.cons_append,
    List.nil_append, Item.decodeFields_cons (by decide) (setField_version version),
    Item.decodeFields_cons (by decide) (setField_program _ _),
    Item.decodeFields_cons (by decide) (setField_halted _ _),
    Item.decodeFields_cons (by decide) (setField_registers _ _),
    Item.decodeFields_cons (by decide) (setField_stack _ _),
    Item.decodeFields_cons (by decide) (setField_memory _ _)]
  rfl

theorem texts_eq (s : Snapshot) :
    pairTexts s.pairs = (pairTexts s.leadingPairs ++ [Encode.nat 5]) ++
      [stackText s.stack, Encode.nat 6, Encode.bytes s.memory] := rfl

/-- Three items from a stack that is too long on: either the stack is refused, or its length
was cut so much that its own words are taken for what should follow. -/
theorem readMany_long {levels depth : Nat} {stack : List UInt16} (long : maxLength < stack.length)
    (shallow : depth < maxDepth) (before items : List Item) (rest : Bytes) :
    readMany (readItem (levels + 2) depth) 3 before (stackText stack ++ rest) ≠ .ok (items, []) := by
  intro read
  have full : ¬stack.isEmpty = true := by
    cases stack <;> simp_all
  rw [stackText, if_neg full, readMany] at read
  rcases readItem_array_long (forms_words levels (depth + 1) stack) (by simpa using long) shallow rest
    with ⟨e, refused⟩ | ⟨item, k, left, cut⟩
  · simp [refused] at read
  · have three : ∃ v w u more, stack.drop k = v :: w :: u :: more := by
      have length : 3 ≤ (stack.drop k).length := by
        rw [List.length_map] at left
        rw [List.length_drop]
        omega
      rcases dropped : stack.drop k with _ | ⟨v, _ | ⟨w, _ | ⟨u, more⟩⟩⟩ <;> simp [dropped] at length
      exact ⟨v, w, u, more, rfl⟩
    obtain ⟨v, w, u, more, dropped⟩ := three
    have pair := readMany_forms (forms_words (levels + 1) depth [v, w]) 0 (item :: before)
      (((u :: more).map fun w => Encode.nat w.toNat).flatten ++ rest)
    have texts : ((stack.map fun w => Encode.nat w.toNat).drop k).flatten ++ rest =
        ([v, w].map fun w => Encode.nat w.toNat).flatten ++
          (((u :: more).map fun w => Encode.nat w.toNat).flatten ++ rest) := by
      rw [← List.map_drop, dropped]
      simp
    rw [cut, texts] at read
    change readMany _ (([v, w].map fun w => Encode.nat w.toNat).length + 0) _ _ = _ at read
    rw [pair, readMany] at read
    have head := head_ne_nil 0 u.toNat
    simp_all [Encode.nat]

theorem pairedUp_rest {read : List Item × Bytes} {i : Item} {rest : Bytes}
    (paired : pairedUp read = .ok (i, rest)) : read.2 = rest := by
  obtain ⟨items, left⟩ := read
  simp only [pairedUp] at paired
  split at paired
  · exact (Prod.mk.inj (Except.ok.inj paired)).2
  · simp at paired

theorem parse_encode_long {s : Snapshot} (version : s.version < headBound)
    (long : maxLength < s.stack.length) : ∃ e, parse s.encode = .error e := by
  apply parse_error
  intro i read
  have leading := List.rel_append
    (forms_pairTexts (forms_leading 63 version (by decide : 1 < maxDepth)))
    (.cons (form_nat (by decide : 5 < headBound)) .nil)
  have count : 2 * s.pairs.length = (pairTexts s.leadingPairs ++ [Encode.nat 5]).length + 3 := rfl
  have map := readItem_map 65 [] s.pairs_length_le (by decide : 0 < maxDepth)
  rw [texts_eq, count, List.flatten_append, List.append_assoc, readMany_forms leading 3 []] at map
  rw [← List.append_nil s.encode] at read
  obtain ⟨⟨items, rest⟩, many, paired⟩ := ok_of_bind (map.symm.trans read)
  obtain rfl : rest = [] := pairedUp_rest paired
  rw [List.flatten_cons, List.append_assoc] at many
  exact readMany_long long (by decide) _ _ _ many

theorem decode_encode_long {s : Snapshot} (version : s.version < headBound)
    (long : maxLength < s.stack.length) : ∃ e, decode s.encode = .error e := by
  obtain ⟨e, refused⟩ := parse_encode_long version long
  exact ⟨e, by rw [decode, refused]; rfl⟩

end Snapshot

end WordMachine
