import WordMachine.Proofs.Cbor.Canonical
import Mathlib.Data.List.Sort

/-! The canonical order of the keys of a map: shorter forms first, and bytewise among forms of
one length. Numbers come in their own order. The canonical map has its pairs in the order of
their keys, and so it does not depend on the order in which they are given. -/

namespace WordMachine.Cbor

namespace Encode

def width (n : Nat) : Nat :=
  if n < 24 then 0 else if n < 0x100 then 1 else if n < 0x10000 then 2
  else if n < 0x100000000 then 4 else 8

theorem width_mono {m n : Nat} (le : m ≤ n) : width m ≤ width n := by
  unfold width
  split_ifs <;> omega

theorem head_length (major n : Nat) : (head major n).length = width n + 1 := by
  unfold head width
  split_ifs <;> simp [bigEndian_length]

theorem bigEndian_lt {width m n : Nat} (less : m < n) (bound : n < 256 ^ width) :
    bigEndian width m < bigEndian width n := by
  induction width generalizing m n with
  | zero => omega
  | succ width ih =>
    have positive : 0 < 256 ^ width := Nat.pow_pos (by decide)
    have leading : m / 256 ^ width ≤ n / 256 ^ width := Nat.div_le_div_right (Nat.le_of_lt less)
    have top : n / 256 ^ width < 256 := Nat.div_lt_of_lt_mul (by rwa [← Nat.pow_succ])
    rw [bigEndian, bigEndian, List.cons_lt_cons_iff]
    simp only [Nat.pow_eq]
    obtain equal | smaller := Nat.eq_or_lt_of_le leading
    · refine .inr ⟨by rw [equal], ih ?_ (Nat.mod_lt n positive)⟩
      have split := Nat.div_add_mod m (256 ^ width)
      have split' := Nat.div_add_mod n (256 ^ width)
      rw [equal] at split
      omega
    · refine .inl (UInt8.lt_iff_toNat_lt.mpr ?_)
      rw [UInt8.toNat_ofNat', UInt8.toNat_ofNat', Nat.mod_eq_of_lt (Nat.lt_trans smaller top),
        Nat.mod_eq_of_lt top]
      exact smaller

theorem head_wide {major n : Nat} (wide : 24 ≤ n) :
    head major n = (major * 32 + info n).toUInt8 :: bigEndian (width n) n := by
  unfold head info width
  split_ifs <;> first | omega | rfl

theorem info_of_width {m n : Nat} (wide : 24 ≤ n) (same : width m = width n) : info m = info n := by
  unfold width at same
  unfold info
  split_ifs at same ⊢ <;> omega

theorem lt_pow_width {n : Nat} (wide : 24 ≤ n) (bound : n < headBound) : n < 256 ^ width n := by
  rw [headBound] at bound
  unfold width
  split_ifs <;> omega

theorem width_of_tiny {n : Nat} : width n = 0 ↔ n < 24 := by
  unfold width
  split_ifs <;> simp <;> omega

theorem head_lt {major m n : Nat} (less : m < n) (bound : n < headBound)
    (same : width m = width n) : head major m < head major n := by
  by_cases tiny : n < 24
  · have tiny' : m < 24 := Nat.lt_trans less tiny
    rw [head, if_pos tiny', head, if_pos tiny, List.cons_lt_cons_iff]
    refine .inl (UInt8.lt_iff_toNat_lt.mpr ?_)
    rw [UInt8.toNat_ofNat', UInt8.toNat_ofNat']
    omega
  · have wide : 24 ≤ n := Nat.le_of_not_lt tiny
    have wide' : 24 ≤ m := by
      by_contra tiny'
      have none := width_of_tiny.mpr (Nat.lt_of_not_le tiny')
      exact tiny (width_of_tiny.mp (same.symm.trans none))
    rw [head_wide wide, head_wide wide', info_of_width wide same, same, List.cons_lt_cons_iff]
    exact .inr ⟨rfl, bigEndian_lt less (lt_pow_width wide bound)⟩

def keyLe (p q : Bytes × Bytes) : Bool :=
  p.1.length < q.1.length || (p.1.length == q.1.length && decide (p.1 ≤ q.1))

theorem keyLe_iff {p q : Bytes × Bytes} :
    keyLe p q = true ↔ p.1.length < q.1.length ∨ p.1.length = q.1.length ∧ p.1 ≤ q.1 := by
  simp [keyLe]

theorem keyLe_trans (p q r : Bytes × Bytes) (before : keyLe p q = true) (after : keyLe q r = true) :
    keyLe p r = true := by
  rw [keyLe_iff] at before after ⊢
  obtain shorter | ⟨same, le⟩ := before <;> obtain shorter' | ⟨same', le'⟩ := after
  · exact .inl (Nat.lt_trans shorter shorter')
  · exact .inl (same' ▸ shorter)
  · exact .inl (same ▸ shorter')
  · exact .inr ⟨same.trans same', List.le_trans le le'⟩

theorem keyLe_total (p q : Bytes × Bytes) : (keyLe p q || keyLe q p) = true := by
  rw [Bool.or_eq_true, keyLe_iff, keyLe_iff]
  obtain shorter | same | longer := Nat.lt_trichotomy p.1.length q.1.length
  · exact .inl (.inl shorter)
  · obtain le | ge := List.le_total p.1 q.1
    · exact .inl (.inr ⟨same, le⟩)
    · exact .inr (.inr ⟨same.symm, ge⟩)
  · exact .inr (.inl longer)

theorem key_eq {p q : Bytes × Bytes} (before : keyLe p q = true) (after : keyLe q p = true) :
    p.1 = q.1 := by
  rw [keyLe_iff] at before after
  obtain shorter | ⟨same, le⟩ := before <;> obtain longer | ⟨same', ge⟩ := after
  · omega
  · omega
  · omega
  · exact List.le_antisymm le ge

/-- Smaller numbers come first. -/
theorem keyLe_nat {m n : Nat} (less : m < n) (bound : n < headBound) (v w : Bytes) :
    keyLe (nat m, v) (nat n, w) = true := by
  rw [keyLe_iff, nat, nat, head_length, head_length]
  obtain same | shorter := Nat.eq_or_lt_of_le (width_mono (Nat.le_of_lt less))
  · exact .inr ⟨by rw [same], List.le_of_lt (head_lt less bound same)⟩
  · exact .inl (Nat.succ_lt_succ shorter)

theorem nat_ne {m n : Nat} (less : m < n) (bound : n < headBound) : nat m ≠ nat n := by
  rw [nat, nat]
  intro equal
  have lengths := congrArg List.length equal
  rw [head_length, head_length, Nat.add_right_cancel_iff] at lengths
  have before : head 0 m < head 0 n := head_lt less bound lengths
  rw [equal] at before
  exact List.lt_irrefl _ before

/-- A map in its canonical form: the pairs in the order of their keys. -/
def canonicalMap (pairs : List (Bytes × Bytes)) : Bytes := map (pairs.mergeSort keyLe)

theorem canonicalMap_of_perm {given sorted : List (Bytes × Bytes)} (same : given.Perm sorted)
    (ascending : sorted.Pairwise fun p q => keyLe p q = true) (distinct : (sorted.map Prod.fst).Nodup) :
    canonicalMap given = map sorted := by
  have permuted : (given.mergeSort keyLe).Perm sorted := (List.mergeSort_perm given keyLe).trans same
  have ordered := List.pairwise_mergeSort keyLe_trans keyLe_total given
  refine congrArg map (List.Perm.eq_of_pairwise ?_ ordered ascending permuted)
  intro p q given' sorted' before after
  exact List.inj_on_of_nodup_map distinct (permuted.mem_iff.mp given') sorted' (key_eq before after)

end Encode

end WordMachine.Cbor
