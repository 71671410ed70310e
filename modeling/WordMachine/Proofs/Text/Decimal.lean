import WordMachine.Text.Numeral

/-! Decimal numbers can be read back. A number has its last digit last, so the digits before it
are those of its tenth part, and reading follows them from the left. -/

namespace WordMachine.Text.Numeral

theorem decimal_eq (n : Nat) :
    decimal n =
      if n < 10 then [Bytes.ascii (Nat.digitChar n)]
      else decimal (n / 10) ++ [Bytes.ascii (Nat.digitChar (n % 10))] := by
  rw [decimal, Nat.toDigits_eq_if (by decide)]
  split
  · rfl
  · rw [List.map_append]
    rfl

theorem digit_cases {k : Nat} (small : k < 10) :
    Bytes.isDigit (Bytes.ascii (Nat.digitChar k)) = true ∧
      digit? (Bytes.ascii (Nat.digitChar k)) = some k := by
  have all : ∀ k : Fin 10, Bytes.isDigit (Bytes.ascii (Nat.digitChar k)) = true ∧
      digit? (Bytes.ascii (Nat.digitChar k)) = some k.val := by decide
  exact all ⟨k, small⟩

theorem decimal_ne_nil (n : Nat) : decimal n ≠ [] := by
  rw [decimal_eq]
  split <;> simp

theorem isDigit_of_mem_decimal {n : Nat} {b : UInt8} (mem : b ∈ decimal n) : Bytes.isDigit b = true := by
  induction n using Nat.strongRecOn generalizing b with
  | ind n ih =>
    rw [decimal_eq] at mem
    split at mem
    · next small =>
      obtain rfl := List.mem_singleton.mp mem
      exact (digit_cases small).1
    · next large =>
      obtain earlier | last := List.mem_append.mp mem
      · exact ih (n / 10) (by omega) earlier
      · obtain rfl := List.mem_singleton.mp last
        exact (digit_cases (Nat.mod_lt n (by decide))).1

theorem readDigits_append (base limit value : Nat) (t u : Bytes) :
    readDigits base limit value (t ++ u) =
      (readDigits base limit value t).bind fun value => readDigits base limit value u := by
  induction t generalizing value with
  | nil => rfl
  | cons b t ih =>
    rw [List.cons_append, readDigits, readDigits]
    cases digit? b with
    | none => rfl
    | some d =>
      dsimp only
      split
      · rfl
      · split
        · rfl
        · exact ih _

theorem readDigits_decimal {limit n : Nat} (fits : n ≤ limit) :
    readDigits 10 limit 0 (decimal n) = .ok n := by
  have last : ∀ {value k : Nat}, k < 10 → value * 10 + k ≤ limit →
      readDigits 10 limit value [Bytes.ascii (Nat.digitChar k)] = .ok (value * 10 + k) := by
    intro value k small within
    simp [readDigits, (digit_cases small).2, Nat.not_le.mpr small, Nat.not_lt.mpr within]
  induction n using Nat.strongRecOn with
  | ind n ih =>
    rw [decimal_eq]
    split
    · next small =>
      rw [last small (by omega)]
      simp
    · next large =>
      have whole : n / 10 * 10 + n % 10 = n := by omega
      rw [readDigits_append, ih (n / 10) (by omega) (by omega)]
      exact (last (Nat.mod_lt n (by decide)) (by omega)).trans (congrArg Except.ok whole)

theorem readNat_decimal {bits n : Nat} (fits : n < Nat.pow 2 bits) :
    readNat 10 bits (decimal n) = .ok n := by
  have filled : (decimal n).isEmpty = false := by simpa using decimal_ne_nil n
  rw [readNat, filled]
  exact readDigits_decimal (Nat.le_sub_one_of_lt fits)

end WordMachine.Text.Numeral
