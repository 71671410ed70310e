import WordMachine.Proofs.Location
import WordMachine.Proofs.Text.Spelled

/-! Words, addresses and registers as they are spelled. There are two forms of numbers, and which
of them a text can be is told by the mark of hexadecimal numbers alone: no decimal number has one.
A text that is read has one of the forms and stands for its number; every other is refused. -/

namespace WordMachine

open Text

theorem Text.Numeral.Spells.isDigit {t : Bytes} {n : Nat} (spells : Numeral.Spells 10 t n) :
    t ≠ [] ∧ ∀ b ∈ t, Bytes.isDigit b = true := by
  obtain ⟨digits, filled, each, -⟩ := spells
  refine ⟨?_, ?_⟩
  · rintro rfl
    cases each
    exact filled rfl
  · clear filled
    induction each with
    | nil => simp
    | cons first rest ih =>
      obtain ⟨digit, small⟩ := (Numeral.digit_iff (by decide)).mp first
      exact List.forall_mem_cons.mpr ⟨Numeral.isDigit_of_digit? digit small, ih⟩

namespace Location

/-- A number as a person writes it. A decimal one may have a `#` in front; a hexadecimal one has
its mark behind at most a zero, and single underscores may stand in front of its digits. -/
inductive Spelled : Bytes → Nat → Prop
  | decimal {mark digits : Bytes} {n : Nat} (led : mark = [] ∨ mark = [Bytes.ascii '#'])
      (spells : Numeral.Spells 10 digits n) : Spelled (mark ++ digits) n
  | hexadecimal {zero t digits : Bytes} {x : UInt8} {n : Nat}
      (led : zero = [] ∨ zero = [Bytes.ascii '0']) (mark : x = Bytes.ascii 'x' ∨ x = Bytes.ascii 'X')
      (underscored : Numeral.Underscored t digits) (spells : Numeral.Spells 16 digits n) :
      Spelled (zero ++ x :: t) n

/-- An address as a person writes it: the number of a cell, with an `@` in front or without. -/
def SpellsAddress (t : Bytes) (addr : UInt16) : Prop :=
  ∃ word, (t = word ∨ t = Bytes.ascii '@' :: word) ∧ Spelled word addr.toNat ∧ addr.toNat ≤ 32767

def SpellsRegister (t : Bytes) (r : Register) : Prop :=
  ∃ mark digits, t = mark ++ digits ∧ Numeral.Spells 10 digits r.val ∧
    (mark = [Bytes.ascii 'r'] ∨ mark = [Bytes.ascii 'R'] ∨ mark = [Bytes.ascii 'r', Bytes.ascii 'R'])

theorem isHexMark_iff {b : UInt8} : isHexMark b = true ↔ b = Bytes.ascii 'x' ∨ b = Bytes.ascii 'X' := by
  simp [isHexMark]

theorem not_isHexMark_of_isDigit {b : UInt8} (digit : Bytes.isDigit b = true) : isHexMark b = false := by
  rw [← Bool.not_eq_true, isHexMark_iff]
  rintro (rfl | rfl) <;> exact absurd digit (by decide)

theorem dropMark_of_ne {mark : UInt8} {t : Bytes} (other : t.head? ≠ some mark) :
    Bytes.dropMark mark t = t := by
  cases t with
  | nil => rfl
  | cons b rest => exact if_neg fun same => other (congrArg some same)

theorem dropMark_cases (mark : UInt8) (t : Bytes) :
    t = Bytes.dropMark mark t ∨ t = mark :: Bytes.dropMark mark t := by
  by_cases marked : t.head? = some mark
  · obtain ⟨rest, rfl⟩ := List.head?_eq_some_iff.mp marked
    exact .inr (by rw [Bytes.dropMark_cons_self])
  · exact .inl (dropMark_of_ne marked).symm

theorem head?_ne_of_spells {t : Bytes} {n : Nat} (spells : Numeral.Spells 10 t n) {mark : UInt8}
    (other : Bytes.isDigit mark = false) : t.head? ≠ some mark := by
  intro first
  have digit := spells.isDigit.2 mark (List.mem_of_head? first)
  simp [other] at digit

theorem toUInt16_eq_iff {n : Nat} {v : UInt16} (bound : n < 2 ^ 16) : n.toUInt16 = v ↔ n = v.toNat := by
  rw [← UInt16.toNat_inj, Nat.toUInt16_eq, UInt16.toNat_ofNat', Nat.mod_eq_of_lt bound]

theorem word_ok_iff {result : Except Numeral.Failure Nat} {spells : Nat → Prop}
    (read : ∀ n, result = .ok n ↔ spells n ∧ n < 2 ^ 16) {refuse : Numeral.Failure → Error} {v : UInt16} :
    (match result with
      | .ok n => (.ok n.toUInt16 : Except Error UInt16)
      | .error f => .error (refuse f)) = .ok v ↔ spells v.toNat := by
  cases result with
  | error f =>
    refine ⟨fun done => by simp at done, fun spelled => ?_⟩
    have done := (read v.toNat).mpr ⟨spelled, v.toNat_lt⟩
    simp at done
  | ok n =>
    obtain ⟨spelled, bound⟩ := (read n).mp rfl
    rw [Except.ok.injEq, toUInt16_eq_iff bound]
    refine ⟨fun same => same ▸ spelled, fun spelled' => ?_⟩
    exact Except.ok.inj ((read v.toNat).mpr ⟨spelled', v.toNat_lt⟩)

theorem readDecimal_ok_iff {t : Bytes} {v : UInt16} :
    readDecimal t = .ok v ↔ Numeral.Spells 10 (Bytes.dropMark (Bytes.ascii '#') t) v.toNat := by
  rw [readDecimal, Rejected.readNat, ← word_ok_iff (fun n => Numeral.readNat_ok_iff (by decide))]
  cases Numeral.readNat 10 16 (Bytes.dropMark (Bytes.ascii '#') t) <;> rfl

theorem readHex_led_ok_iff {zero t : Bytes} {x : UInt8} {v : UInt16}
    (led : zero = [] ∨ zero = [Bytes.ascii '0']) (mark : isHexMark x = true) :
    readHex (zero ++ x :: t) = .ok v ↔
      ∃ digits, Numeral.Underscored t digits ∧ Numeral.Spells 16 digits v.toNat := by
  have whole : readHex (zero ++ x :: t) =
      match Numeral.readSeparatedHex 16 t with
      | .ok n => .ok n.toUInt16
      | .error f => .error (.number ⟨"ParseUint", Bytes.ascii '0' :: x :: t, f⟩) := by
    have plain : isHexMark (Bytes.ascii '0') = false := by decide
    have read : readMarked (Bytes.ascii '0' :: x :: t) = Numeral.readSeparatedHex 16 t := by
      rw [readMarked, if_pos rfl]
    cases result : Numeral.readSeparatedHex 16 t <;> rw [result] at read <;> obtain rfl | rfl := led <;>
      simp [readHex, List.findIdx?_cons, mark, plain, read]
  have bounded : ∀ n, Numeral.readSeparatedHex 16 t = .ok n ↔
      (∃ digits, Numeral.Underscored t digits ∧ Numeral.Spells 16 digits n) ∧ n < 2 ^ 16 := by
    intro n
    simp only [Numeral.readSeparatedHex_ok_iff, ← exists_and_right, and_assoc]
  rw [whole, word_ok_iff bounded]

theorem led_of_readHex {t : Bytes} {v : UInt16} (read : readHex t = .ok v) :
    ∃ zero x rest, t = zero ++ x :: rest ∧ (zero = [] ∨ zero = [Bytes.ascii '0']) ∧
      isHexMark x = true := by
  rcases t with _ | ⟨b, t⟩
  · simp [readHex] at read
  · by_cases first : isHexMark b = true
    · exact ⟨[], b, t, rfl, .inl rfl, first⟩
    · rcases found : t.findIdx? isHexMark with _ | _ | k
      · simp [readHex, List.findIdx?_cons, first, found] at read
      · obtain ⟨x, rest, rfl, second⟩ : ∃ x rest, t = x :: rest ∧ isHexMark x = true := by
          cases t with
          | nil => simp at found
          | cons x rest =>
            refine ⟨x, rest, rfl, ?_⟩
            simpa using (List.findIdx?_eq_some_iff_getElem.mp found).2.1
        by_cases zero : b = Bytes.ascii '0'
        · exact ⟨[b], x, rest, rfl, .inr (by rw [zero]), second⟩
        · simp [readHex, List.findIdx?_cons, first, found, readMarked, zero] at read
      · simp [readHex, List.findIdx?_cons, first, found] at read

theorem spelled_decimal_iff {t : Bytes} {n : Nat} (unmarked : t.any isHexMark = false) :
    Spelled t n ↔ Numeral.Spells 10 (Bytes.dropMark (Bytes.ascii '#') t) n := by
  constructor
  · intro spelled
    cases spelled with
    | @decimal mark digits _ led spells =>
      obtain rfl | rfl := led
      · rwa [List.nil_append, dropMark_of_ne (head?_ne_of_spells spells (by decide))]
      · exact spells
    | hexadecimal led mark underscored spells =>
      simp [isHexMark_iff.mpr mark] at unmarked
  · intro spells
    obtain same | same := dropMark_cases (Bytes.ascii '#') t
    · exact same ▸ @Spelled.decimal [] _ _ (.inl rfl) spells
    · rw [same]
      exact @Spelled.decimal [Bytes.ascii '#'] _ _ (.inr rfl) spells

theorem spelled_marked_iff {t : Bytes} {v : UInt16} (marked : t.any isHexMark = true) :
    Spelled t v.toNat ↔ readHex t = .ok v := by
  constructor
  · intro spelled
    cases spelled with
    | @decimal mark digits _ led spells =>
      have unmarked : (mark ++ digits).any isHexMark = false := by
        have digits' : ∀ b ∈ digits, isHexMark b = false := fun b mem =>
          not_isHexMark_of_isDigit (spells.isDigit.2 b mem)
        obtain rfl | rfl := led
        · simpa using digits'
        · simpa [show isHexMark (Bytes.ascii '#') = false by decide] using digits'
      simp [unmarked] at marked
    | hexadecimal led mark underscored spells =>
      exact (readHex_led_ok_iff led (isHexMark_iff.mpr mark)).mpr ⟨_, underscored, spells⟩
  · intro read
    obtain ⟨zero, x, rest, rfl, led, mark⟩ := led_of_readHex read
    obtain ⟨digits, underscored, spells⟩ := (readHex_led_ok_iff led mark).mp read
    exact .hexadecimal led (isHexMark_iff.mp mark) underscored spells

theorem readWord_eq_ok_iff {t : Bytes} {v : UInt16} :
    readWord t = .ok v ↔
      (if t.any isHexMark then readHex t else readDecimal t) = .ok v ∧ v ≤ wordMax := by
  unfold readWord
  cases read : if t.any isHexMark then readHex t else readDecimal t with
  | error e => simp
  | ok n =>
    by_cases large : n > wordMax
    · have other : n = v → ¬v ≤ wordMax := fun same => same ▸ UInt16.not_le.mpr large
      simpa [large] using other
    · have small : n = v → v ≤ wordMax := fun same => same ▸ UInt16.not_lt.mp large
      simpa [large] using small

theorem readWord_ok_iff {t : Bytes} {v : UInt16} :
    readWord t = .ok v ↔ Spelled t v.toNat ∧ v.toNat ≤ 32767 := by
  rw [readWord_eq_ok_iff, UInt16.le_iff_toNat_le]
  refine and_congr_left fun _ => ?_
  cases marked : t.any isHexMark with
  | true => rw [if_pos rfl, spelled_marked_iff marked]
  | false => rw [if_neg Bool.false_ne_true, readDecimal_ok_iff, spelled_decimal_iff marked]

theorem head?_ne_of_spelled {t : Bytes} {n : Nat} (spelled : Spelled t n) :
    t.head? ≠ some (Bytes.ascii '@') := by
  cases spelled with
  | decimal led spells =>
    obtain rfl | rfl := led
    · exact head?_ne_of_spells spells (by decide)
    · exact fun same => absurd (Option.some.inj same) (by decide)
  | hexadecimal led mark underscored spells =>
    obtain rfl | rfl := led
    · obtain rfl | rfl := mark <;> exact fun same => absurd (Option.some.inj same) (by decide)
    · exact fun same => absurd (Option.some.inj same) (by decide)

theorem readAddress_ok_iff {t : Bytes} {addr : UInt16} :
    readAddress t = .ok addr ↔ SpellsAddress t addr := by
  constructor
  · intro read
    exact ⟨_, dropMark_cases (Bytes.ascii '@') t, readWord_ok_iff.mp read⟩
  · rintro ⟨word, rfl | rfl, spelled⟩
    · rw [readAddress, dropMark_of_ne (head?_ne_of_spelled spelled.1)]
      exact readWord_ok_iff.mpr spelled
    · rw [readAddress_mark]
      exact readWord_ok_iff.mpr spelled

theorem readRegister_ok_iff {t : Bytes} {r : Register} :
    readRegister t = .ok r ↔
      Numeral.Spells 10 (Bytes.dropMark (Bytes.ascii 'R') (Bytes.dropMark (Bytes.ascii 'r') t)) r.val := by
  have few : registerCount ≤ 2 ^ 8 := by decide
  rw [readRegister]
  cases read : Numeral.readNat 10 8 (Bytes.dropMark (Bytes.ascii 'R') (Bytes.dropMark (Bytes.ascii 'r') t)) with
  | error f =>
    refine ⟨fun done => by simp at done, fun spells => ?_⟩
    have done := (Numeral.readNat_ok_iff (by decide)).mpr ⟨spells, Nat.lt_of_lt_of_le r.isLt few⟩
    simp [read] at done
  | ok n =>
    obtain ⟨spells, -⟩ := (Numeral.readNat_ok_iff (by decide)).mp read
    dsimp only
    constructor
    · intro done
      split at done
      · exact Except.ok.inj done ▸ spells
      · simp at done
    · intro spells'
      have again := (Numeral.readNat_ok_iff (by decide)).mpr ⟨spells', Nat.lt_of_lt_of_le r.isLt few⟩
      obtain rfl : n = r.val := Except.ok.inj (read.symm.trans again)
      rw [dif_pos r.isLt]

theorem register?_eq_some_iff {t : Bytes} {r : Register} : register? t = some r ↔ SpellsRegister t r := by
  constructor
  · intro read
    unfold register? at read
    split at read
    · next target =>
      obtain rfl := Option.some.inj read
      obtain ⟨b, rest, rfl, mark, value⟩ := readTarget_register target
      have spells := readRegister_ok_iff.mp value
      obtain rfl | rfl := mark
      · rw [Bytes.dropMark_cons_self] at spells
        obtain same | same := dropMark_cases (Bytes.ascii 'R') rest
        · rw [same]
          exact ⟨[Bytes.ascii 'r'], _, rfl, spells, .inl rfl⟩
        · rw [same]
          exact ⟨[Bytes.ascii 'r', Bytes.ascii 'R'], _, rfl, spells, .inr (.inr rfl)⟩
      · exact ⟨[Bytes.ascii 'R'], rest, rfl, spells, .inr (.inl rfl)⟩
    · simp at read
  · rintro ⟨mark, digits, rfl, spells, led⟩
    have value : readRegister (mark ++ digits) = .ok r := by
      rw [readRegister_ok_iff]
      obtain rfl | rfl | rfl := led
      · rwa [List.cons_append, List.nil_append, Bytes.dropMark_cons_self,
          dropMark_of_ne (head?_ne_of_spells spells (by decide))]
      · exact spells
      · exact spells
    have target : readTarget (mark ++ digits) = (readRegister (mark ++ digits)).map .register := by
      obtain rfl | rfl | rfl := led <;> rfl
    rw [register?, target, value]
    rfl

/-- A text is read as a word exactly if it spells one, in either of the two forms, and refused if
it spells none; an address is read as a word, with or without its mark. -/
theorem readWord_exact (t : Bytes) :
    (∀ v : UInt16, readWord t = .ok v ↔ v.toNat ≤ 32767 ∧ Spelled t v.toNat) ∧
      ((∃ e, readWord t = .error e) ↔ ∀ n, Spelled t n → 32767 < n) ∧
      readAddress (Bytes.ascii '@' :: t) = readWord t ∧
      (t.head? ≠ some (Bytes.ascii '@') → readAddress t = readWord t) := by
  refine ⟨fun v => readWord_ok_iff.trans and_comm, ?_, readAddress_mark t, fun unmarked => ?_⟩
  · constructor
    · rintro ⟨e, refused⟩ n spelled
      by_contra small
      have number : n.toUInt16.toNat = n := by
        rw [Nat.toUInt16_eq, UInt16.toNat_ofNat', Nat.mod_eq_of_lt (by omega)]
      have read : readWord t = .ok n.toUInt16 :=
        readWord_ok_iff.mpr (by rw [number]; exact ⟨spelled, by omega⟩)
      simp [refused] at read
    · intro unspelled
      cases read : readWord t with
      | error e => exact ⟨e, rfl⟩
      | ok v =>
        obtain ⟨spelled, small⟩ := readWord_ok_iff.mp read
        exact absurd (unspelled _ spelled) (Nat.not_lt.mpr small)
  · rw [readAddress, dropMark_of_ne unmarked]

theorem readWord_exact_underscored :
    Spelled (Bytes.ofString "X_7f_F_f") 32767 ∧ readAddress (Bytes.ofString "X_7f_F_f") = .ok 32767 := by
  obtain ⟨words, -, -, unmarked⟩ := readWord_exact (Bytes.ofString "X_7f_F_f")
  have read : readWord (Bytes.ofString "X_7f_F_f") = .ok 32767 := ok_of_toOption (by decide)
  exact ⟨((words 32767).mp read).2, (unmarked (by decide)).trans read⟩

example : (readWord (Bytes.ofString "0x7__f")).toOption = none ∧
    (readWord (Bytes.ofString "0x7f_")).toOption = none ∧
    (readWord (Bytes.ofString "0x")).toOption = none ∧
    (readWord (Bytes.ofString "32768")).toOption = none := by
  decide

end Location

end WordMachine
