import WordMachine.Text.Utf8

/-! Characters of a text that is put together. A character never reaches past an ASCII byte, so
the characters of two texts add up where the second of them starts with one. -/

namespace WordMachine.Text.Utf8

/-- A text that no character before it reaches into. -/
def Severed (t : Bytes) : Prop := ∀ b ∈ t.head?, b < 0x80

theorem isTail_ascii {b : UInt8} (ascii : b < 0x80) : isTail b = false := by
  have below : ¬(0x80 : UInt8) ≤ b := by rwa [UInt8.not_le]
  simp [isTail, below]

theorem admits_ascii {b : UInt8} (ascii : b < 0x80) (first : UInt8) : admits first b = false := by
  have small : ∀ bound : UInt8, 0x80 ≤ bound → ¬bound ≤ b := by
    intro bound high low
    exact absurd (UInt8.lt_of_lt_of_le ascii (UInt8.le_trans high low)) (UInt8.lt_irrefl b)
  unfold admits
  repeat' split
  · simp [small 0xA0 (by decide)]
  · simp [small 0x80 (by decide)]
  · simp [small 0x90 (by decide)]
  · simp [small 0x80 (by decide)]
  · exact isTail_ascii ascii

/-- A severed text adds nothing to the character before it, which ends inside its own text. -/
theorem lead_append (b : UInt8) (rest : Bytes) {t : Bytes} (severed : Severed t) :
    lead b (rest ++ t) = lead b rest ∧ (lead b rest).width - 1 ≤ rest.length := by
  have stop : ∀ u more, t = u :: more → isTail u = false ∧ ∀ first, admits first u = false := by
    rintro u more rfl
    exact ⟨isTail_ascii (severed u rfl), admits_ascii (severed u rfl)⟩
  by_cases one : b < 0x80
  · simp [lead, one]
  by_cases two : (0xC2 ≤ b && b ≤ 0xDF) = true
  · simp only [lead, one, two, if_true, if_false]
    rcases rest with _ | ⟨c, rest⟩
    · rcases t with _ | ⟨u, t⟩
      · simp [ill]
      · simp [stop u t rfl, ill]
    · refine ⟨rfl, ?_⟩
      dsimp only
      split <;> simp [ill]
  by_cases three : (0xE0 ≤ b && b ≤ 0xEF) = true
  · simp only [lead, one, two, three, if_true, if_false, Bool.false_eq_true]
    rcases rest with _ | ⟨c, _ | ⟨d, rest⟩⟩
    · rcases t with _ | ⟨u, _ | ⟨v, t⟩⟩ <;> simp [ill, stop u _ rfl]
    · rcases t with _ | ⟨u, t⟩ <;> simp [ill, stop u t rfl]
    · refine ⟨rfl, ?_⟩
      dsimp only
      split <;> simp [ill]
  by_cases four : (0xF0 ≤ b && b ≤ 0xF4) = true
  · simp only [lead, one, two, three, four, if_true, if_false, Bool.false_eq_true]
    rcases rest with _ | ⟨c, _ | ⟨d, _ | ⟨e, rest⟩⟩⟩
    · rcases t with _ | ⟨u, _ | ⟨v, _ | ⟨w, t⟩⟩⟩ <;> simp [ill, stop u _ rfl]
    · rcases t with _ | ⟨u, _ | ⟨v, t⟩⟩ <;> simp [ill, stop u _ rfl]
    · rcases t with _ | ⟨u, t⟩ <;> simp [ill, stop u t rfl]
    · refine ⟨rfl, ?_⟩
      dsimp only
      split <;> simp [ill]
  · simp [lead, one, two, three, four, ill]

theorem isTail_of_admits {first b : UInt8} (admitted : admits first b = true) : isTail b = true := by
  cases inside : isTail b with
  | true => rfl
  | false =>
    have outside : ¬(0x80 ≤ b && b ≤ 0xBF) = true := by simpa [isTail] using inside
    grind [admits]

theorem isTail_of_mem_lead {b u : UInt8} {rest : Bytes} (taken : u ∈ rest.take ((lead b rest).width - 1)) :
    isTail u = true := by
  have alone : u ∉ rest.take (ill.width - 1) := by simp [ill]
  unfold lead at taken
  split at taken
  · simp at taken
  split at taken
  · split at taken
    · next c _ =>
      split at taken
      · next tail =>
        obtain rfl : u = c := by simpa using taken
        exact tail
      · exact absurd taken alone
    · exact absurd taken alone
  split at taken
  · split at taken
    · next c d _ =>
      split at taken
      · next tails =>
        rw [Bool.and_eq_true] at tails
        obtain rfl | rfl : u = c ∨ u = d := by simpa using taken
        · exact isTail_of_admits tails.1
        · exact tails.2
      · exact absurd taken alone
    · exact absurd taken alone
  split at taken
  · split at taken
    · next c d e _ =>
      split at taken
      · next tails =>
        rw [Bool.and_eq_true, Bool.and_eq_true] at tails
        obtain rfl | rfl | rfl : u = c ∨ u = d ∨ u = e := by simpa using taken
        · exact isTail_of_admits tails.1.1
        · exact tails.1.2
        · exact tails.2
      · exact absurd taken alone
    · exact absurd taken alone
  · exact absurd taken alone

theorem scan_append {t : Bytes} (severed : Severed t) (a : Bytes) {skip : Nat} (inside : skip ≤ a.length) :
    scan skip (a ++ t) = scan skip a ++ characters t := by
  induction a generalizing skip with
  | nil =>
    obtain rfl : skip = 0 := Nat.le_zero.mp inside
    rfl
  | cons b rest ih =>
    cases skip with
    | zero =>
      obtain ⟨same, ends⟩ := lead_append b rest severed
      rw [List.cons_append, scan, scan, same, ih ends, List.cons_append]
    | succ skip => exact ih (Nat.le_of_succ_le_succ inside)

theorem count_append (a : Bytes) {t : Bytes} (severed : Severed t) : count (a ++ t) = count a + count t := by
  rw [count, characters, scan_append severed a (Nat.zero_le _), List.length_append]
  rfl

end WordMachine.Text.Utf8
