import WordMachine.Assembly.Literal
import WordMachine.Proofs.Assembly.Lexing
import WordMachine.Proofs.Success

/-! Names among the texts that point at something. Numbers, registers and names are written with
the same bytes, and a name that starts with the mark of hexadecimal numbers may be one of them. -/

namespace WordMachine

open Text

namespace Text.Numeral

theorem digit_of_readDigits {base limit value n : Nat} {t : Bytes}
    (read : readDigits base limit value t = .ok n) : ∀ b ∈ t, ∃ d, digit? b = some d ∧ d < base := by
  induction t generalizing value with
  | nil => simp
  | cons b rest ih =>
    rw [readDigits] at read
    split at read
    · simp at read
    · next d digit =>
      split at read
      · simp at read
      · next small =>
        split at read
        · simp at read
        · exact List.forall_mem_cons.mpr ⟨⟨d, digit, by omega⟩, ih read⟩

theorem isDigit_of_digit? {b : UInt8} {d : Nat} (digit : digit? b = some d) (small : d < 10) :
    Bytes.isDigit b = true := by
  have all : ∀ n : Fin 256, ((digit? (.ofFin n)).all fun d => decide (d < 10) → Bytes.isDigit (.ofFin n)) = true := by
    decide +kernel
  have here := all b.toFin
  simpa [digit, small] using here

theorem isHexDigit_of_digit? {b : UInt8} {d : Nat} (digit : digit? b = some d) (small : d < 16) :
    Bytes.isHexDigit b = true := by
  have all : ∀ n : Fin 256, ((digit? (.ofFin n)).all fun d => decide (d < 16) → Bytes.isHexDigit (.ofFin n)) = true := by
    decide +kernel
  have here := all b.toFin
  simpa [digit, small] using here

end Text.Numeral

namespace Location

open Assembly

def SpellsHex (t : Bytes) : Prop :=
  ∃ mark digits, t = mark :: digits ∧ isHexMark mark = true ∧ digits ≠ [] ∧
    ∀ b ∈ digits, Bytes.isHexDigit b = true ∨ b = Bytes.ascii '_'

theorem nameStart_ne {b : UInt8} (first : Token.isNameStart b = true) :
    b ≠ Bytes.ascii '@' ∧ b ≠ Bytes.ascii '#' ∧ b ≠ Bytes.ascii '0' ∧ Bytes.isDigit b = false := by
  have all : ∀ n : Fin 256, Token.isNameStart (.ofFin n) = true → UInt8.ofFin n ≠ Bytes.ascii '@' ∧
      UInt8.ofFin n ≠ Bytes.ascii '#' ∧ UInt8.ofFin n ≠ Bytes.ascii '0' ∧
        Bytes.isDigit (.ofFin n) = false := by
    decide +kernel
  exact all b.toFin first

theorem readSeparatedHex_spells {bits n : Nat} {t : Bytes} (read : Numeral.readSeparatedHex bits t = .ok n) :
    t ≠ [] ∧ ∀ b ∈ t, Bytes.isHexDigit b = true ∨ b = Bytes.ascii '_' := by
  unfold Numeral.readSeparatedHex at read
  split at read
  · simp at read
  · next filled =>
    refine ⟨by simpa using filled, fun b mem => ?_⟩
    split at read
    · simp at read
    · next digits =>
      by_cases gap : b = Bytes.ascii '_'
      · exact .inr gap
      · have kept : b ∈ t.filter (· ≠ Bytes.ascii '_') := List.mem_filter.mpr ⟨mem, by simpa using gap⟩
        obtain ⟨d, digit, small⟩ := Numeral.digit_of_readDigits digits b kept
        exact .inl (Numeral.isHexDigit_of_digit? digit small)

theorem readHex_name {b : UInt8} {rest : Bytes} {v : UInt16} (first : Token.isNameStart b = true)
    (read : readHex (b :: rest) = .ok v) : SpellsHex (b :: rest) := by
  by_cases mark : isHexMark b = true
  · refine ⟨b, rest, rfl, mark, ?_⟩
    simp only [readHex, List.findIdx?_cons, mark, if_true, readMarked] at read
    split at read
    · next n digits => exact readSeparatedHex_spells digits
    · simp at read
  · have unmarked : readMarked (b :: rest) = .error .malformed := by
      cases rest <;> simp [readMarked, (nameStart_ne first).2.2.1]
    rcases found : rest.findIdx? isHexMark with _ | _ | k <;>
      simp [readHex, List.findIdx?_cons, mark, found, unmarked] at read

theorem readDecimal_name {b : UInt8} {rest : Bytes} {v : UInt16} (first : Token.isNameStart b = true) :
    readDecimal (b :: rest) ≠ .ok v := by
  intro read
  obtain ⟨-, unsigned, -, letter⟩ := nameStart_ne first
  rw [readDecimal, Bytes.dropMark, if_neg unsigned, Rejected.readNat] at read
  cases digits : Numeral.readNat 10 16 (b :: rest) with
  | error f => simp [digits, Except.mapError] at read
  | ok n =>
    rw [Numeral.readNat] at digits
    obtain ⟨d, digit, small⟩ := Numeral.digit_of_readDigits digits b List.mem_cons_self
    exact absurd (Numeral.isDigit_of_digit? digit small) (by simp [letter])

theorem readAddress_name {name : Bytes} {v : UInt16} (named : IsName name) (read : readAddress name = .ok v) :
    SpellsHex name := by
  obtain ⟨b, rest, rfl, first, -⟩ := named
  rw [readAddress, Bytes.dropMark, if_neg (nameStart_ne first).1, readWord] at read
  split at read
  · simp at read
  · next n value =>
    split at value
    · exact readHex_name first value
    · exact absurd value (readDecimal_name first)

theorem readRegister_digits {t : Bytes} {r : Register} (read : readRegister t = .ok r) :
    let digits := Bytes.dropMark (Bytes.ascii 'R') (Bytes.dropMark (Bytes.ascii 'r') t)
    digits ≠ [] ∧ ∀ b ∈ digits, Bytes.isDigit b = true := by
  intro digits
  rw [readRegister] at read
  split at read
  · next n value =>
    rw [Numeral.readNat] at value
    split at value
    · simp at value
    · next filled =>
      refine ⟨by simpa using filled, fun b mem => ?_⟩
      obtain ⟨d, digit, small⟩ := Numeral.digit_of_readDigits value b mem
      exact Numeral.isDigit_of_digit? digit small
  · simp at read

theorem isRegisterName_cons {b : UInt8} {digits : Bytes} (mark : b = Bytes.ascii 'r' ∨ b = Bytes.ascii 'R')
    (filled : digits ≠ []) (all : ∀ c ∈ digits, Bytes.isDigit c = true) :
    isRegisterName (b :: digits) = true := by
  obtain ⟨c, more, rfl⟩ := List.exists_cons_of_ne_nil filled
  simpa [isRegisterName, mark] using all

theorem readTarget_register {t : Bytes} {r : Register} (read : readTarget t = .ok (.register r)) :
    ∃ b rest, t = b :: rest ∧ (b = Bytes.ascii 'r' ∨ b = Bytes.ascii 'R') ∧ readRegister t = .ok r := by
  cases t with
  | nil => simp [readTarget] at read
  | cons b rest =>
    rw [readTarget] at read
    split at read
    · obtain ⟨addr, -, same⟩ := ok_of_map read
      exact Target.noConfusion same
    · split at read
      · next mark =>
        obtain ⟨r', value, same⟩ := ok_of_map read
        obtain rfl := Target.register.inj same
        exact ⟨b, rest, rfl, by simpa using mark, value⟩
      · simp at read

/-- A name that is none of the registers' own is taken for a register only if it has both of
their letters. -/
theorem register?_name {name : Bytes} {r : Register} (free : isRegisterName name = false)
    (read : register? name = some r) :
    ∃ digits, name = Bytes.ascii 'r' :: Bytes.ascii 'R' :: digits ∧
      ∀ b ∈ digits, Bytes.isDigit b = true := by
  unfold register? at read
  split at read
  · next target =>
    obtain ⟨b, rest, rfl, mark, value⟩ := readTarget_register target
    obtain ⟨filled, all⟩ := readRegister_digits value
    by_cases small : b = Bytes.ascii 'r'
    · rw [small, Bytes.dropMark_cons_self] at filled all
      cases rest with
      | nil => exact absurd rfl filled
      | cons c digits =>
        by_cases large : c = Bytes.ascii 'R'
        · rw [large, Bytes.dropMark_cons_self] at all
          exact ⟨digits, by rw [small, large], all⟩
        · rw [Bytes.dropMark, if_neg large] at filled all
          exact absurd (isRegisterName_cons mark filled all) (by simp [free])
    · have large := mark.resolve_left small
      rw [show Bytes.dropMark (Bytes.ascii 'r') (b :: rest) = b :: rest from if_neg small, large,
        Bytes.dropMark_cons_self] at filled all
      exact absurd (isRegisterName_cons mark filled all) (by simp [free])
  · simp at read

end Location

end WordMachine
