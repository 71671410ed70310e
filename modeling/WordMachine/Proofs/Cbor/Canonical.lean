import WordMachine.Cbor.Item
import Mathlib.Data.List.Forall2
import Mathlib.Tactic.Ring

/-! The reader takes back what the canonical form puts down. A text is a form of an item if
the reader finds the item in front of whatever follows; forms of larger items are made of
forms of smaller ones. Numbers in heads have eight bytes, so a head holds its number modulo
two to the sixty-fourth. -/

namespace WordMachine.Cbor

def headBound : Nat := 256 ^ 8

namespace Encode

theorem bigEndian_length (width n : Nat) : (bigEndian width n).length = width := by
  induction width generalizing n with
  | zero => rfl
  | succ width ih => rw [bigEndian, List.length_cons, ih]

theorem foldl_bigEndian (width n start : Nat) :
    (bigEndian width n).foldl (fun n b => n * 256 + b.toNat) start =
      start * 256 ^ width + n % 256 ^ width := by
  induction width generalizing n start with
  | zero => simp [bigEndian, Nat.mod_one]
  | succ width ih =>
    have high : (n / 256 ^ width).toUInt8.toNat = n / 256 ^ width % 256 := by simp
    have low : n % 256 ^ (width + 1) =
        n / 256 ^ width % 256 * 256 ^ width + n % 256 ^ width := by
      rw [Nat.pow_succ, Nat.mod_mul, Nat.add_comm, Nat.mul_comm]
    rw [bigEndian, List.foldl_cons, ih, low]
    simp only [Nat.pow_eq, high, Nat.mod_mod]
    rw [Nat.pow_succ]
    ring

def info (n : Nat) : Nat :=
  if n < 24 then n else if n < 0x100 then 24 else if n < 0x10000 then 25
  else if n < 0x100000000 then 26 else 27

theorem info_lt (n : Nat) : info n < 28 := by
  unfold info
  split_ifs <;> omega

theorem info_definite (n : Nat) : info n ≠ 31 := by
  have bound := info_lt n
  omega

end Encode

theorem bigEndian_encode (width n : Nat) :
    bigEndian (Encode.bigEndian width n) = n % 256 ^ width := by
  rw [bigEndian, Encode.foldl_bigEndian]
  omega

theorem readHead_wide {major width info n : Nat} (rest : Bytes) (known : argumentWidth? info = some width)
    (wide : 24 ≤ info) (bound : info < 28) (plain : major < 7) :
    readHead ((major * 32 + info).toUInt8 :: Encode.bigEndian width n ++ rest) =
      .ok (⟨major, info, n % 256 ^ width⟩, rest) := by
  have first : (major * 32 + info).toUInt8.toNat = major * 32 + info := by
    simp
    omega
  have length := Encode.bigEndian_length width n
  have quotient : (major * 32 + info) / 32 = major := by omega
  have remainder : (major * 32 + info) % 32 = info := by omega
  simp only [List.cons_append, readHead, first, quotient, remainder, known,
    List.take_left' length, List.drop_left' length, bigEndian_encode, length]
  rw [if_neg (by omega), if_neg (by omega), if_neg (by simp; omega)]

theorem readHead_head {major : Nat} (plain : major < 7) (n : Nat) (rest : Bytes) :
    readHead (Encode.head major n ++ rest) = .ok (⟨major, Encode.info n, n % headBound⟩, rest) := by
  simp only [Encode.head, Encode.info, headBound]
  split_ifs with tiny small medium large
  · have first : (major * 32 + n).toUInt8.toNat = major * 32 + n := by
      simp
      omega
    have quotient : (major * 32 + n) / 32 = major := by omega
    have remainder : (major * 32 + n) % 32 = n := by omega
    simp only [List.cons_append, List.nil_append, readHead, first, quotient, remainder, tiny,
      ↓reduceIte]
    rw [Nat.mod_eq_of_lt (by omega)]
  · rw [readHead_wide rest rfl (by decide) (by decide) plain]
    congr 3
    omega
  · rw [readHead_wide rest rfl (by decide) (by decide) plain]
    congr 3
    omega
  · rw [readHead_wide rest rfl (by decide) (by decide) plain]
    congr 3
    omega
  · exact readHead_wide rest rfl (by decide) (by decide) plain

/-- The text `t` stands for an item wherever it is read, inside `depth` others. -/
def Form (levels depth : Nat) (t : Bytes) (i : Item) : Prop :=
  ∀ rest, readItem levels depth (t ++ rest) = .ok (i, rest)

theorem form_nat {levels depth n : Nat} (bound : n < headBound) :
    Form (levels + 1) depth (Encode.nat n) (.unsigned n) := by
  intro rest
  rw [readItem, Encode.nat, readHead_head (by decide), Nat.mod_eq_of_lt bound]
  rfl

theorem form_bool (levels depth : Nat) (b : Bool) :
    Form (levels + 1) depth (Encode.bool b) (.simple (if b then 21 else 20)) := by
  intro rest
  cases b <;> rfl

theorem form_null (levels depth : Nat) : Form (levels + 1) depth Encode.null (.simple 22) :=
  fun _ => rfl

theorem lengthBound_lt : lengthBound < headBound := by decide

theorem readBlock_append {t : Bytes} (bound : t.length < lengthBound) (rest : Bytes) :
    readBlock t.length (t ++ rest) = .ok (t, rest) := by
  rw [readBlock, if_neg (Nat.not_le.mpr bound)]
  simp

theorem form_bytes {levels depth : Nat} {t : Bytes} (bound : t.length < lengthBound) :
    Form (levels + 1) depth (Encode.bytes t) (.bytes [t]) := by
  intro rest
  rw [readItem, Encode.bytes, List.append_assoc, readHead_head (by decide),
    Nat.mod_eq_of_lt (Nat.lt_trans bound lengthBound_lt)]
  simp only [bind, Except.bind, Encode.info_definite, ↓reduceIte, readBlock_append bound]
  rfl

theorem form_text {levels depth : Nat} {t : Bytes} (bound : t.length < lengthBound) :
    Form (levels + 1) depth (Encode.text t) (.text [t]) := by
  intro rest
  rw [readItem, Encode.text, List.append_assoc, readHead_head (by decide),
    Nat.mod_eq_of_lt (Nat.lt_trans bound lengthBound_lt)]
  simp only [bind, Except.bind, Encode.info_definite, ↓reduceIte, readBlock_append bound]
  rfl

def Item.ofInt : Int → Item
  | .ofNat n => .unsigned n
  | .negSucc n => .negative n

theorem form_int {levels depth : Nat} {n : Int} (bound : -headBound ≤ n ∧ n < headBound) :
    Form (levels + 1) depth (Encode.int n) (.ofInt n) := by
  cases n with
  | ofNat n => exact form_nat (Int.ofNat_lt.mp bound.2)
  | negSucc n =>
    intro rest
    have fits : n < headBound := by
      have low := bound.1
      omega
    rw [readItem, Encode.int, readHead_head (by decide), Nat.mod_eq_of_lt fits]
    rfl

theorem readMany_forms {levels depth : Nat} {texts : List Bytes} {items : List Item}
    (forms : List.Forall₂ (Form levels depth) texts items) (count : Nat) (before : List Item)
    (rest : Bytes) :
    readMany (readItem levels depth) (texts.length + count) before (texts.flatten ++ rest) =
      readMany (readItem levels depth) count (items.reverse ++ before) rest := by
  induction forms generalizing before with
  | nil => simp
  | @cons t i texts items form forms ih =>
    rw [List.length_cons, Nat.add_right_comm, readMany, List.flatten_cons, List.append_assoc, form]
    simp only [ih, List.reverse_cons, List.append_assoc, List.singleton_append]

theorem readMany_all {levels depth : Nat} {texts : List Bytes} {items : List Item}
    (forms : List.Forall₂ (Form levels depth) texts items) (rest : Bytes) :
    readMany (readItem levels depth) texts.length [] (texts.flatten ++ rest) = .ok (items, rest) := by
  have read := readMany_forms forms 0 [] rest
  simpa [readMany] using read

theorem readItem_array {levels depth n : Nat} (rest : Bytes) (shallow : depth < maxDepth) :
    readItem (levels + 1) depth (Encode.head 4 n ++ rest) =
      if lengthBound ≤ n % headBound then .error .lengthOverflow
      else if maxLength < n % headBound then .error .tooManyElements
      else (readMany (readItem levels (depth + 1)) (n % headBound) [] rest).map
        fun (items, rest) => (.array items, rest) := by
  rw [readItem, readHead_head (by decide)]
  simp only [bind, Except.bind, Nat.not_lt.mpr (Nat.succ_le_of_lt shallow), Encode.info_definite, ↓reduceIte]
  split
  · rfl
  · split
    · rfl
    · cases readMany (readItem levels (depth + 1)) (n % headBound) [] rest <;> rfl

theorem maxLength_lt : maxLength < lengthBound := by decide

theorem form_array {levels depth : Nat} {texts : List Bytes} {items : List Item}
    (forms : List.Forall₂ (Form levels (depth + 1)) texts items) (bound : texts.length ≤ maxLength)
    (shallow : depth < maxDepth) : Form (levels + 1) depth (Encode.array texts) (.array items) := by
  intro rest
  have countable : texts.length < lengthBound := Nat.lt_of_le_of_lt bound maxLength_lt
  rw [Encode.array, List.append_assoc, readItem_array _ shallow,
    Nat.mod_eq_of_lt (Nat.lt_trans countable lengthBound_lt), if_neg (Nat.not_le.mpr countable),
    if_neg (Nat.not_lt.mpr bound), readMany_all forms]
  rfl

/-- Too many elements are refused, unless their number is so large that its head announces
few of them. Then at least three are left unread. -/
theorem readItem_array_long {levels depth : Nat} {texts : List Bytes} {items : List Item}
    (forms : List.Forall₂ (Form levels (depth + 1)) texts items) (long : maxLength < texts.length)
    (shallow : depth < maxDepth) (rest : Bytes) :
    (∃ e, readItem (levels + 1) depth (Encode.array texts ++ rest) = .error e) ∨
      ∃ item k, k + 3 ≤ texts.length ∧
        readItem (levels + 1) depth (Encode.array texts ++ rest) =
          .ok (item, (texts.drop k).flatten ++ rest) := by
  rw [Encode.array, List.append_assoc, readItem_array _ shallow]
  by_cases overflow : lengthBound ≤ texts.length % headBound
  · exact .inl ⟨_, if_pos overflow⟩
  · by_cases announced : maxLength < texts.length % headBound
    · exact .inl ⟨_, by rw [if_neg overflow, if_pos announced]⟩
    · right
      have wrapped : headBound ≤ texts.length := by
        by_contra small
        rw [Nat.mod_eq_of_lt (Nat.lt_of_not_le small)] at announced
        exact announced long
      have left : texts.length % headBound + 3 ≤ texts.length := by
        have gap : maxLength + 3 ≤ headBound := by decide
        omega
      refine ⟨.array (items.take (texts.length % headBound)), texts.length % headBound, left, ?_⟩
      have head := readMany_all (List.forall₂_take (texts.length % headBound) forms)
        ((texts.drop (texts.length % headBound)).flatten ++ rest)
      rw [← List.append_assoc, ← List.flatten_append, List.take_append_drop,
        List.length_take_of_le (by omega)] at head
      rw [if_neg overflow, if_neg announced, head]
      rfl

def pairTexts (pairs : List (Bytes × Bytes)) : List Bytes := pairs.flatMap fun (k, v) => [k, v]

theorem pairTexts_length (pairs : List (Bytes × Bytes)) :
    (pairTexts pairs).length = 2 * pairs.length := by
  induction pairs with
  | nil => rfl
  | cons pair more ih =>
    have grown : (pairTexts (pair :: more)).length = (pairTexts more).length + 2 := by
      simp [pairTexts]
    rw [grown, ih, List.length_cons]
    omega

theorem encode_map (pairs : List (Bytes × Bytes)) :
    Encode.map pairs = Encode.head 5 pairs.length ++ (pairTexts pairs).flatten := by
  rw [Encode.map]
  congr 1
  induction pairs with
  | nil => rfl
  | cons pair more ih => simpa [pairTexts] using ih

def pairedUp : List Item × Bytes → Except Error (Item × Bytes)
  | (items, rest) =>
    match pairUp [] items with
    | some pairs => .ok (.map pairs, rest)
    | none => .error .illFormed

theorem readItem_map (levels : Nat) {depth : Nat} {pairs : List (Bytes × Bytes)} (rest : Bytes)
    (bound : pairs.length ≤ maxLength) (shallow : depth < maxDepth) :
    readItem (levels + 1) depth (Encode.map pairs ++ rest) =
      (readMany (readItem levels (depth + 1)) (2 * pairs.length) []
        ((pairTexts pairs).flatten ++ rest)).bind pairedUp := by
  have countable : pairs.length < lengthBound := Nat.lt_of_le_of_lt bound maxLength_lt
  rw [encode_map, List.append_assoc, readItem, readHead_head (by decide),
    Nat.mod_eq_of_lt (Nat.lt_trans countable lengthBound_lt)]
  simp only [bind, Except.bind, Nat.not_lt.mpr (Nat.succ_le_of_lt shallow), Encode.info_definite, ↓reduceIte,
    Nat.not_le.mpr countable, Nat.not_lt.mpr bound]
  cases readMany (readItem levels (depth + 1)) (2 * pairs.length) []
      ((pairTexts pairs).flatten ++ rest) with
  | error e => rfl
  | ok read =>
    simp only [pairedUp]
    cases pairUp [] read.1 <;> rfl

theorem pairUp_flatMap (before pairs : List (Item × Item)) :
    pairUp before (pairs.flatMap fun (k, v) => [k, v]) = some (before.reverse ++ pairs) := by
  induction pairs generalizing before with
  | nil => simp [pairUp]
  | cons pair more ih => simp [pairUp, ih]

theorem forms_pairTexts {levels depth : Nat} {pairs : List (Bytes × Bytes)}
    {items : List (Item × Item)}
    (forms : List.Forall₂ (fun t i => Form levels depth t.1 i.1 ∧ Form levels depth t.2 i.2) pairs items) :
    List.Forall₂ (Form levels depth) (pairTexts pairs) (items.flatMap fun (k, v) => [k, v]) := by
  induction forms with
  | nil => exact .nil
  | cons form forms ih => exact .cons form.1 (.cons form.2 ih)

theorem form_map {levels depth : Nat} {pairs : List (Bytes × Bytes)} {items : List (Item × Item)}
    (forms : List.Forall₂
      (fun t i => Form levels (depth + 1) t.1 i.1 ∧ Form levels (depth + 1) t.2 i.2) pairs items)
    (bound : pairs.length ≤ maxLength) (shallow : depth < maxDepth) :
    Form (levels + 1) depth (Encode.map pairs) (.map items) := by
  intro rest
  rw [readItem_map levels rest bound shallow, ← pairTexts_length, readMany_all (forms_pairTexts forms)]
  simp [Except.bind, pairedUp, pairUp_flatMap]

theorem head_ne_nil (major n : Nat) : Encode.head major n ≠ [] := by
  unfold Encode.head
  split_ifs <;> simp

theorem parse_error {t : Bytes} (unread : ∀ i, readItem maxLevels 0 t ≠ .ok (i, [])) :
    ∃ e, parse t = .error e := by
  unfold parse
  split
  · exact ⟨_, rfl⟩
  · split
    · exact ⟨_, rfl⟩
    · next item rest read =>
      cases rest with
      | nil => exact absurd read (unread item)
      | cons b rest => exact ⟨_, rfl⟩

theorem parse_form {t : Bytes} {i : Item} (form : Form maxLevels 0 t i) (some : t ≠ []) :
    parse t = .ok i := by
  have read := form []
  rw [List.append_nil] at read
  rw [parse, if_neg (by simpa using some), read]
  rfl

end WordMachine.Cbor
