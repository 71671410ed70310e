import WordMachine.Assembly.Assemble
import WordMachine.Proofs.Assembly.Scanning
import WordMachine.Proofs.Location.Spelled

/-! Numbers and registers in a source, and as a person writes them at the prompt. Two readers that
know nothing of each other take them, and both take a text of digits for the same number. They part
on registers: the prompt takes one more spelling, with both letters in front of the number. -/

namespace WordMachine

open Text

namespace Text.Numeral

theorem readDigits_of_digits {base limit value : Nat} {t : Bytes} {digits : List Nat} (small : base ≤ 16)
    (spelled : List.Forall₂ (Digit base) t digits) (within : value ≤ limit) :
    readDigits base limit value t =
      if extend base value digits ≤ limit then .ok (extend base value digits) else .error .outOfRange := by
  induction spelled generalizing value with
  | nil => exact (if_pos within).symm
  | @cons b d t digits first rest ih =>
    obtain ⟨digit, below⟩ := (digit_iff small).mp first
    have whole : extend base value (d :: digits) = extend base (value * base + d) digits := rfl
    simp only [readDigits, digit, Nat.not_le.mpr below, if_false, whole]
    by_cases fits : value * base + d ≤ limit
    · rw [if_neg (Nat.not_lt.mpr fits), ih fits]
    · have grows := le_extend (Nat.zero_lt_of_lt below) (value * base + d) digits
      rw [if_pos (Nat.lt_of_not_le fits), if_neg (fun all => fits (Nat.le_trans grows all))]

theorem readNat_of_spells {base bits n : Nat} {t : Bytes} (small : base ≤ 16) (spells : Spells base t n) :
    readNat base bits t = if n < 2 ^ bits then .ok n else .error .outOfRange := by
  obtain ⟨digits, filled, spelled, rfl⟩ := spells
  have some' : t.isEmpty = false := by
    cases spelled with
    | nil => exact absurd rfl filled
    | cons first rest => rfl
  have fits : Nat.ofDigits base digits.reverse ≤ Nat.pow 2 bits - 1 ↔ Nat.ofDigits base digits.reverse < 2 ^ bits :=
    Nat.le_sub_one_iff_lt (Nat.two_pow_pos bits)
  rw [readNat, some', if_neg Bool.false_ne_true, readDigits_of_digits small spelled (Nat.zero_le _), extend_zero]
  simp only [fits]

theorem Spells.unique {base m n : Nat} {t : Bytes} (small : base ≤ 16) (spells : Spells base t m)
    (spells' : Spells base t n) : m = n := by
  have read : readNat base (m + n) t = .ok m :=
    (readNat_ok_iff small).mpr ⟨spells, Nat.lt_of_le_of_lt (Nat.le_add_right m n) Nat.lt_two_pow_self⟩
  have read' : readNat base (m + n) t = .ok n :=
    (readNat_ok_iff small).mpr ⟨spells', Nat.lt_of_le_of_lt (Nat.le_add_left n m) Nat.lt_two_pow_self⟩
  exact Except.ok.inj (read.symm.trans read')

theorem exists_spells {base : Nat} {t : Bytes} (filled : t ≠ []) (all : ∀ b ∈ t, ∃ d, Digit base b d) :
    ∃ n, Spells base t n := by
  have each : ∃ digits, List.Forall₂ (Digit base) t digits := by
    clear filled
    induction t with
    | nil => exact ⟨[], .nil⟩
    | cons b t ih =>
      obtain ⟨⟨d, first⟩, others⟩ := List.forall_mem_cons.mp all
      obtain ⟨digits, rest⟩ := ih others
      exact ⟨d :: digits, .cons first rest⟩
  obtain ⟨digits, spelled⟩ := each
  refine ⟨_, digits, ?_, spelled, rfl⟩
  rintro rfl
  cases spelled
  exact filled rfl

theorem digit_of_isDigit {b : UInt8} (digit : Bytes.isDigit b = true) : ∃ d, Digit 10 b d := by
  have all : ∀ n : Fin 256, Bytes.isDigit (.ofFin n) = true →
      (digit? (.ofFin n)).any (fun d => decide (d < 10)) = true := by decide +kernel
  obtain ⟨d, value, below⟩ := (Option.any_eq_true _ _).mp (all b.toFin digit)
  exact ⟨d, (digit_iff (by decide)).mpr ⟨value, by simpa using below⟩⟩

theorem digit_of_isHexDigit {b : UInt8} (digit : Bytes.isHexDigit b = true) : ∃ d, Digit 16 b d := by
  have all : ∀ n : Fin 256, Bytes.isHexDigit (.ofFin n) = true →
      (digit? (.ofFin n)).any (fun d => decide (d < 16)) = true := by decide +kernel
  obtain ⟨d, value, below⟩ := (Option.any_eq_true _ _).mp (all b.toFin digit)
  exact ⟨d, (digit_iff (Nat.le_refl 16)).mpr ⟨value, by simpa using below⟩⟩

theorem underscored_iff_of_spells {t digits : Bytes} {m n : Nat} (plain : Spells 16 t m)
    (spells : Spells 16 digits n) : Underscored t digits ↔ digits = t := by
  have kept : t.filter (· ≠ Bytes.ascii '_') = t :=
    List.filter_eq_self.mpr fun b mem => by simpa using plain.ne_underscore b mem
  constructor
  · intro underscored
    exact (underscored.filter spells.ne_underscore).1.trans kept
  · rintro rfl
    clear plain spells kept
    induction digits with
    | nil => exact .nil
    | cons b rest ih => exact .plain b ih

end Text.Numeral

namespace Assembly

open Pattern

def TokenKind.Covers (kind : TokenKind) (t : Bytes) : Prop := [] ∈ kind.pattern.rests t

theorem nil_mem_rests_star_byte {test : UInt8 → Bool} {t : Bytes} :
    [] ∈ (star (byte test)).rests t ↔ ∀ b ∈ t, test b = true := by
  induction t with
  | nil => simp [rests_star_byte_nil]
  | cons b t ih =>
    rw [rests_star_byte_cons, List.forall_mem_cons, ← ih]
    split
    · next passes => simp [passes]
    · next fails => simp [fails]

theorem nil_mem_rests_plus_byte {test : UInt8 → Bool} {t : Bytes} :
    [] ∈ (plus (byte test)).rests t ↔ t ≠ [] ∧ ∀ b ∈ t, test b = true := by
  cases t with
  | nil => simp [plus, rests]
  | cons b t =>
    rw [rests_plus_byte, List.forall_mem_cons]
    split
    · next passes => simp [passes, nil_mem_rests_star_byte]
    · next fails => simp [fails]

theorem covers_number_iff {t : Bytes} :
    TokenKind.number.Covers t ↔
      (∃ x digits, t = Bytes.ascii '0' :: x :: digits ∧ (x = Bytes.ascii 'x' ∨ x = Bytes.ascii 'X') ∧
        digits ≠ [] ∧ ∀ b ∈ digits, Bytes.isHexDigit b = true) ∨
      (t ≠ [] ∧ ∀ b ∈ t, Bytes.isDigit b = true) := by
  rw [TokenKind.Covers, TokenKind.pattern, rests, List.mem_append, nil_mem_rests_plus_byte]
  refine or_congr_left ?_
  rcases t with _ | ⟨z, _ | ⟨x, digits⟩⟩
  · simp [rests, char]
  · simp [rests]
  · rw [rests_char_seq]
    by_cases zero : z = Bytes.ascii '0'
    · rw [if_pos zero, rests_byte_seq]
      by_cases mark : x = Bytes.ascii 'x' ∨ x = Bytes.ascii 'X'
      · simp [zero, mark, nil_mem_rests_plus_byte]
      · simp [zero, mark]
    · simp [zero]

theorem spells_digitsOf {t : Bytes} (number : TokenKind.number.Covers t) :
    ∃ n, (digitsOf t).1 ≤ 16 ∧ Numeral.Spells (digitsOf t).1 (digitsOf t).2 n ∧
      ∀ v : UInt16, Location.Spelled t v.toNat ↔ n = v.toNat := by
  obtain ⟨x, digits, rfl, mark, filled, all⟩ | ⟨filled, all⟩ := covers_number_iff.mp number
  · obtain ⟨n, spells⟩ := Numeral.exists_spells filled fun b mem => Numeral.digit_of_isHexDigit (all b mem)
    have base : digitsOf (Bytes.ascii '0' :: x :: digits) = (16, digits) := by
      obtain rfl | rfl := mark <;> rfl
    have hex := Location.isHexMark_iff.mpr mark
    refine ⟨n, by rw [base], by rwa [base], fun v => ?_⟩
    rw [Location.spelled_marked_iff (by simp [hex])]
    have led : [Bytes.ascii '0'] = [] ∨ [Bytes.ascii '0'] = [Bytes.ascii '0'] := .inr rfl
    refine (Location.readHex_led_ok_iff led hex).trans ?_
    constructor
    · rintro ⟨digits', underscored, spells'⟩
      obtain rfl := (Numeral.underscored_iff_of_spells spells spells').mp underscored
      exact spells.unique (Nat.le_refl 16) spells'
    · rintro rfl
      exact ⟨digits, (Numeral.underscored_iff_of_spells spells spells).mpr rfl, spells⟩
  · obtain ⟨n, spells⟩ := Numeral.exists_spells filled fun b mem => Numeral.digit_of_isDigit (all b mem)
    have base : digitsOf t = (10, t) := by
      unfold digitsOf
      split
      · next z x digits =>
        have plain := Token.lower_ne_of_isDigit (all x (by simp))
        simp [plain]
      · rfl
    have unmarked : t.any Location.isHexMark = false := by
      simpa using fun b mem => Location.not_isHexMark_of_isDigit (all b mem)
    have small : (digitsOf t).1 ≤ 16 := by rw [base]; exact Nat.le_of_lt (by decide : 10 < 16)
    refine ⟨n, small, by rwa [base], fun v => ?_⟩
    rw [Location.spelled_decimal_iff unmarked, Location.dropMark_of_ne (Location.head?_ne_of_spells spells (by decide))]
    constructor
    · intro spells'
      exact spells.unique (by decide) spells'
    · rintro rfl
      exact spells

theorem literalValue_of_spells {t : Bytes} {n : Nat} (small : (digitsOf t).1 ≤ 16)
    (spells : Numeral.Spells (digitsOf t).1 (digitsOf t).2 n) (limit : Nat) :
    literalValue limit t =
      if n < 2 ^ 64 then if limit < n then .error (.oversizedLiteral limit n) else .ok n.toUInt16
      else .error (.oversizedLiteral limit (2 ^ 64 - 1)) := by
  simp only [literalValue, Numeral.readNat_of_spells small spells]
  by_cases fits : n < 2 ^ 64
  · simp only [if_pos fits]
  · simp only [if_neg fits]
    rfl

/-- A number in a source is the literal that it is at the prompt, where both take it, and both take it
if it is a word. In a source it is only ever refused for being too large. -/
theorem literalValue_agrees {t : Bytes} (number : TokenKind.number.Covers t) :
    (∀ v : UInt16, literalValue 32767 t = .ok v ↔ Location.readWord t = .ok v) ∧
      ∀ limit cause, literalValue limit t = .error cause → ∃ value, cause = .oversizedLiteral limit value := by
  obtain ⟨n, small, spells, spelled⟩ := spells_digitsOf number
  refine ⟨fun v => ?_, fun limit cause refused => ?_⟩
  · rw [literalValue_of_spells small spells, Location.readWord_ok_iff, spelled]
    by_cases word : n ≤ 32767
    · rw [if_pos (by omega), if_neg (Nat.not_lt.mpr word), Except.ok.injEq,
        Location.toUInt16_eq_iff (by omega)]
      exact ⟨fun same => ⟨same, same ▸ word⟩, And.left⟩
    · have refused : ¬(n = v.toNat ∧ v.toNat ≤ 32767) := by omega
      simp only [refused, iff_false]
      split
      · rw [if_pos (Nat.lt_of_not_le word)]
        simp
      · simp
  · rw [literalValue_of_spells small spells] at refused
    split at refused
    · split at refused
      · exact ⟨n, (Except.error.inj refused).symm⟩
      · simp at refused
    · exact ⟨_, (Except.error.inj refused).symm⟩

theorem literalValue_agrees_padded :
    TokenKind.number.Covers (Bytes.ofString "0X0007fFf") ∧
      literalValue 32767 (Bytes.ofString "0X0007fFf") = .ok 32767 ∧
      Location.readWord (Bytes.ofString "0X0007fFf") = .ok 32767 := by
  have covers : TokenKind.number.Covers (Bytes.ofString "0X0007fFf") := by
    rw [TokenKind.Covers]
    decide
  have read : literalValue 32767 (Bytes.ofString "0X0007fFf") = .ok 32767 := ok_of_toOption (by decide)
  exact ⟨covers, read, ((literalValue_agrees covers).1 32767).mp read⟩

theorem isRegisterName_iff {t : Bytes} :
    isRegisterName t = true ↔ ∃ b digits, t = b :: digits ∧ (b = Bytes.ascii 'r' ∨ b = Bytes.ascii 'R') ∧
      digits ≠ [] ∧ ∀ c ∈ digits, Bytes.isDigit c = true := by
  constructor
  · intro named
    rcases t with _ | ⟨b, _ | ⟨c, more⟩⟩
    · simp [isRegisterName] at named
    · simp [isRegisterName] at named
    · rw [isRegisterName, Bool.and_eq_true, List.all_eq_true] at named
      exact ⟨b, c :: more, rfl, by simpa using named.1, by simp, named.2⟩
  · rintro ⟨b, digits, rfl, mark, filled, all⟩
    exact Location.isRegisterName_cons mark filled all

theorem raw_injective {r r' : Register} (same : r.raw = r'.raw) : r = r' := by
  have named := Operand.ofRaw_raw r
  rw [same, Operand.ofRaw_raw] at named
  exact (Operand.register.inj named).symm

theorem registerValue_ok_iff {t : Bytes} {r : Register} :
    registerValue t = .ok r.raw ↔ Location.readRegister t = .ok r := by
  unfold registerValue
  split
  · next r' read => rw [read, Except.ok.injEq, Except.ok.injEq]; exact ⟨raw_injective, congrArg _⟩
  · next e read => simp [read]

theorem registerName_iff_spells {t : Bytes} {r : Register} :
    isRegisterName t = true ∧ registerValue t = .ok r.raw ↔
      ∃ b digits, t = b :: digits ∧ (b = Bytes.ascii 'r' ∨ b = Bytes.ascii 'R') ∧
        Numeral.Spells 10 digits r.val := by
  have dropped : ∀ {b digits}, b = Bytes.ascii 'r' ∨ b = Bytes.ascii 'R' →
      digits.head? ≠ some (Bytes.ascii 'R') →
      Bytes.dropMark (Bytes.ascii 'R') (Bytes.dropMark (Bytes.ascii 'r') (b :: digits)) = digits := by
    rintro b digits (rfl | rfl) other
    · rw [Bytes.dropMark_cons_self, Location.dropMark_of_ne other]
    · rfl
  rw [registerValue_ok_iff, Location.readRegister_ok_iff, isRegisterName_iff]
  constructor
  · rintro ⟨⟨b, digits, rfl, mark, filled, all⟩, spells⟩
    have other : digits.head? ≠ some (Bytes.ascii 'R') := fun first =>
      absurd (all _ (List.mem_of_head? first)) (by decide)
    rw [dropped mark other] at spells
    exact ⟨b, digits, rfl, mark, spells⟩
  · rintro ⟨b, digits, rfl, mark, spells⟩
    refine ⟨⟨b, digits, rfl, mark, spells.isDigit⟩, ?_⟩
    rwa [dropped mark (Location.head?_ne_of_spells spells (by decide))]

end Assembly

namespace Location

open Assembly

theorem register?_eq_some {t : Bytes} {r : Register} :
    register? t = some r ↔ readTarget t = .ok (.register r) := by
  unfold register?
  split
  · next r' target => simp [target]
  · next other =>
    refine ⟨fun none' => by simp at none', fun target => ?_⟩
    exact absurd target (other r)

/-- At the prompt a register is what it is in a source, and besides what has both letters in front of
its number, the small one first. In a source such a name is free. -/
theorem readTarget_register_exact (t : Bytes) (r : Register) :
    (readTarget t = .ok (.register r) ↔
      (isRegisterName t = true ∧ registerValue t = .ok r.raw) ∨
        isRegisterName t = false ∧
          ∃ digits, t = Bytes.ascii 'r' :: Bytes.ascii 'R' :: digits ∧ Numeral.Spells 10 digits r.val) ∧
      (register? t = some r ↔ readTarget t = .ok (.register r)) := by
  refine ⟨?_, register?_eq_some⟩
  rw [← register?_eq_some, register?_eq_some_iff, registerName_iff_spells]
  constructor
  · rintro ⟨mark, digits, rfl, spells, rfl | rfl | rfl⟩
    · exact .inl ⟨_, digits, rfl, .inl rfl, spells⟩
    · exact .inl ⟨_, digits, rfl, .inr rfl, spells⟩
    · refine .inr ⟨?_, digits, rfl, spells⟩
      simp [isRegisterName, show Bytes.isDigit (Bytes.ascii 'R') = false by decide]
  · rintro (⟨b, digits, rfl, rfl | rfl, spells⟩ | ⟨-, digits, rfl, spells⟩)
    · exact ⟨[Bytes.ascii 'r'], digits, rfl, spells, .inl rfl⟩
    · exact ⟨[Bytes.ascii 'R'], digits, rfl, spells, .inr (.inl rfl)⟩
    · exact ⟨[Bytes.ascii 'r', Bytes.ascii 'R'], digits, rfl, spells, .inr (.inr rfl)⟩

/-- A label of an accepted program can be taken for a register. -/
theorem label_taken_for_register :
    (¬∀ (t : Bytes) (r : Register), readTarget t = .ok (.register r) ↔
      isRegisterName t = true ∧ registerValue t = .ok r.raw) ∧
    ¬∀ (source origin name : Bytes) (image : List UInt16) (table : SymbolTable) (addr : UInt16),
      (assemble source (some { source := origin })).outcome = .ok image →
      (assemble source (some { source := origin })).table = some table →
      table.lookup name = some addr → register? name = none := by
  constructor
  · intro agree
    have taken : readTarget (Bytes.ofString "rR3") = .ok (.register ⟨3, by decide⟩) := ok_of_toOption (by decide)
    have named := ((agree _ _).mp taken).1
    exact absurd named (by decide)
  · intro free
    have facts : (assemble (Bytes.ofString "noop\nrR3: halt\n") (some { source := [] })).table.map
        (fun table => table.lookup (Bytes.ofString "rR3")) = some (some 1) := by
      decide +kernel
    obtain ⟨image, accepted⟩ : ∃ image,
        (assemble (Bytes.ofString "noop\nrR3: halt\n") (some { source := [] })).outcome = .ok image :=
      exists_ok_of_toOption (by decide +kernel)
    obtain ⟨table, attached, looked⟩ := Option.map_eq_some_iff.mp facts
    exact absurd (free _ _ _ image table 1 accepted attached looked) (by decide)

end Location

end WordMachine
