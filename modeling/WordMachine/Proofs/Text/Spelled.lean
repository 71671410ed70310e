import WordMachine.Text.Numeral
import Mathlib.Data.List.Forall2
import Mathlib.Data.Nat.Digits.Defs

/-! Numbers as they are spelled. A digit stands for its place among the sixteen, and digits for
their number in positional notation. The readers accept exactly what spells a number within
their limit; where they allow underscores, these stand alone and in front of a digit. -/

namespace WordMachine.Text.Numeral

def Digit (base : Nat) (b : UInt8) (d : Nat) : Prop :=
  d < base ∧ (Bytes.ofString "0123456789abcdef")[d]? = some (Bytes.lower b)

def Spells (base : Nat) (t : Bytes) (n : Nat) : Prop :=
  ∃ digits, digits ≠ [] ∧ List.Forall₂ (Digit base) t digits ∧ n = Nat.ofDigits base digits.reverse

/-- A text with single underscores, each in front of a character, and the text without them. -/
inductive Underscored : Bytes → Bytes → Prop
  | nil : Underscored [] []
  | plain (b : UInt8) {t digits : Bytes} (rest : Underscored t digits) :
      Underscored (b :: t) (b :: digits)
  | marked (b : UInt8) {t digits : Bytes} (rest : Underscored t digits) :
      Underscored (Bytes.ascii '_' :: b :: t) (b :: digits)

theorem digit_iff {base d : Nat} {b : UInt8} (small : base ≤ 16) :
    Digit base b d ↔ digit? b = some d ∧ d < base := by
  have all : ∀ (n : Fin 256) (d : Fin 16),
      (Bytes.ofString "0123456789abcdef")[d.val]? = some (Bytes.lower (.ofFin n)) ↔
        digit? (.ofFin n) = some d.val := by decide +kernel
  rw [Digit, and_comm]
  refine and_congr_left fun below => ?_
  exact all b.toFin ⟨d, Nat.lt_of_lt_of_le below small⟩

theorem Digit.ne_underscore {b : UInt8} {d : Nat} (digit : Digit 16 b d) : b ≠ Bytes.ascii '_' := by
  rintro rfl
  have none' : digit? (Bytes.ascii '_') = none := by decide
  have valued := ((digit_iff (Nat.le_refl 16)).mp digit).1
  simp [none'] at valued

theorem Spells.ne_underscore {t : Bytes} {n : Nat} (spells : Spells 16 t n) :
    ∀ b ∈ t, b ≠ Bytes.ascii '_' := by
  obtain ⟨digits, -, each, -⟩ := spells
  induction each with
  | nil => simp
  | cons first rest ih => exact List.forall_mem_cons.mpr ⟨first.ne_underscore, ih⟩

def extend (base value : Nat) (digits : List Nat) : Nat := digits.foldl (fun v d => v * base + d) value

theorem extend_zero (base : Nat) (digits : List Nat) :
    extend base 0 digits = Nat.ofDigits base digits.reverse := by
  rw [Nat.ofDigits_eq_foldr, List.foldr_reverse, extend]
  simp only [Nat.cast_id, Nat.add_comm, Nat.mul_comm]

theorem le_extend {base : Nat} (positive : 0 < base) (value : Nat) (digits : List Nat) :
    value ≤ extend base value digits := by
  induction digits generalizing value with
  | nil => exact Nat.le_refl value
  | cons d digits ih =>
    calc value ≤ value * base := Nat.le_mul_of_pos_right value positive
      _ ≤ value * base + d := Nat.le_add_right _ d
      _ ≤ extend base value (d :: digits) := ih _

theorem readDigits_ok_iff {base limit value n : Nat} {t : Bytes} (small : base ≤ 16)
    (within : value ≤ limit) :
    readDigits base limit value t = .ok n ↔
      ∃ digits, List.Forall₂ (Digit base) t digits ∧ n = extend base value digits ∧ n ≤ limit := by
  induction t generalizing value with
  | nil =>
    rw [readDigits]
    constructor
    · rintro ⟨⟩
      exact ⟨[], .nil, rfl, within⟩
    · rintro ⟨digits, ⟨⟩, rfl, -⟩
      rfl
  | cons b t ih =>
    rw [readDigits]
    constructor
    · intro read
      split at read
      · simp at read
      · next d digit =>
        split at read
        · simp at read
        · next below =>
          split at read
          · simp at read
          · next fits =>
            obtain ⟨digits, spelled, whole⟩ := (ih (Nat.le_of_not_lt fits)).mp read
            exact ⟨d :: digits, .cons ((digit_iff small).mpr ⟨digit, by omega⟩) spelled, whole⟩
    · rintro ⟨digits, spelled, whole, fits⟩
      obtain ⟨d, digits, first, rest, rfl⟩ := List.forall₂_cons_left_iff.mp spelled
      obtain ⟨digit, below⟩ := (digit_iff small).mp first
      have part : value * base + d ≤ limit := by
        have grows := le_extend (Nat.zero_lt_of_lt below) (value * base + d) digits
        rw [whole] at fits
        exact Nat.le_trans grows fits
      simp only [digit, Nat.not_le.mpr below, Nat.not_lt.mpr part, if_false]
      exact (ih part).mpr ⟨digits, rest, whole, fits⟩

theorem readNat_ok_iff {base bits n : Nat} {t : Bytes} (small : base ≤ 16) :
    readNat base bits t = .ok n ↔ Spells base t n ∧ n < 2 ^ bits := by
  have fits : n ≤ Nat.pow 2 bits - 1 ↔ n < 2 ^ bits := Nat.le_sub_one_iff_lt (Nat.two_pow_pos bits)
  cases t with
  | nil =>
    refine ⟨fun read => by simp [readNat] at read, ?_⟩
    rintro ⟨⟨digits, filled, ⟨⟩, -⟩, -⟩
    exact absurd rfl filled
  | cons b t =>
    rw [readNat, List.isEmpty_cons, if_neg Bool.false_ne_true,
      readDigits_ok_iff small (Nat.zero_le _), fits]
    constructor
    · rintro ⟨digits, spelled, whole, bound⟩
      refine ⟨⟨digits, ?_, spelled, whole.trans (extend_zero base digits)⟩, bound⟩
      rintro rfl
      cases spelled
    · rintro ⟨⟨digits, -, spelled, whole⟩, bound⟩
      exact ⟨digits, spelled, whole.trans (extend_zero base digits).symm, bound⟩

theorem Underscored.filter {t digits : Bytes} (underscored : Underscored t digits)
    (clean : ∀ b ∈ digits, b ≠ Bytes.ascii '_') :
    digits = t.filter (· ≠ Bytes.ascii '_') ∧ separated true t = true := by
  induction underscored with
  | nil => exact ⟨rfl, rfl⟩
  | plain b rest ih | marked b rest ih =>
    obtain ⟨first, others⟩ := List.forall_mem_cons.mp clean
    obtain ⟨kept, apart⟩ := ih others
    rw [kept]
    simp [separated, first, apart]

theorem underscored_of_separated {t : Bytes} :
    (separated true t = true → Underscored t (t.filter (· ≠ Bytes.ascii '_'))) ∧
      (separated false t = true → Underscored (Bytes.ascii '_' :: t) (t.filter (· ≠ Bytes.ascii '_'))) := by
  induction t with
  | nil => exact ⟨fun _ => .nil, fun apart => by simp [separated] at apart⟩
  | cons b t ih =>
    by_cases gap : b = Bytes.ascii '_'
    · subst gap
      simpa [separated] using ih.2
    · simp only [separated, gap, if_false, List.filter_cons, ne_eq, not_false_eq_true, decide_true, if_true]
      exact ⟨fun apart => .plain b (ih.1 apart), fun apart => .marked b (ih.1 apart)⟩

theorem readSeparatedHex_ok_iff {bits n : Nat} {t : Bytes} :
    readSeparatedHex bits t = .ok n ↔
      ∃ digits, Underscored t digits ∧ Spells 16 digits n ∧ n < 2 ^ bits := by
  have plain : ∀ {digits : Bytes}, digits ≠ [] →
      readDigits 16 (Nat.pow 2 bits - 1) 0 digits = readNat 16 bits digits := by
    intro digits filled
    rw [readNat, if_neg (by simpa using filled)]
  constructor
  · intro read
    unfold readSeparatedHex at read
    split at read
    · simp at read
    · next filled =>
      split at read
      · simp at read
      · next k digits =>
        split at read
        · next apart =>
          have underscored := underscored_of_separated.1 apart
          have some' : t.filter (· ≠ Bytes.ascii '_') ≠ [] := by
            intro none'
            rw [none'] at underscored
            cases underscored
            exact filled rfl
          rw [plain some'] at digits
          rw [← Except.ok.inj read]
          exact ⟨_, underscored, (readNat_ok_iff (Nat.le_refl 16)).mp digits⟩
        · simp at read
  · rintro ⟨digits, underscored, spelled⟩
    obtain ⟨rfl, apart⟩ := underscored.filter spelled.1.ne_underscore
    have read := (readNat_ok_iff (Nat.le_refl 16)).mpr spelled
    have filled : t.filter (· ≠ Bytes.ascii '_') ≠ [] := by
      intro none'
      rw [none'] at read
      simp [readNat] at read
    have filled' : t.isEmpty = false := by
      cases t with
      | nil => exact absurd rfl filled
      | cons b t => rfl
    simp only [readSeparatedHex, filled', plain filled, read, apart, Bool.false_eq_true, if_false, if_true]

end WordMachine.Text.Numeral
