import WordMachine.Proofs.Cbor.Canonical
import WordMachine.Cbor.Decode

/-! What the items of the canonical form give as values of the type that is wanted: numbers in
their range, valid text, arrays and maps of such, and records field by field. -/

namespace WordMachine.Cbor.Item

theorem decodeNat_unsigned {high n : Nat} (bound : n ≤ high) :
    (unsigned n).decodeNat high = .ok (some n) := by
  simp [decodeNat, decodeInt, content, isNull, integer?, bound, pure, Except.pure, bind, Except.bind]

theorem decodeNats_unsigned {high : Nat} {values : List Nat} (bound : ∀ n ∈ values, n ≤ high) :
    decodeNats high (values.map unsigned) = .ok values := by
  induction values with
  | nil => rfl
  | cons n values ih =>
    have rest := ih fun n stored => bound n (List.mem_cons_of_mem _ stored)
    rw [decodeNats] at rest ⊢
    rw [List.map_cons, List.mapM_cons, decodeNat_unsigned (bound n List.mem_cons_self), rest]
    rfl

theorem decodeArray_unsigned {high : Nat} {values : List Nat} (take : Option Nat)
    (bound : ∀ n ∈ values, n ≤ high) (short : ∀ n, take = some n → values.length ≤ n) :
    (array (values.map unsigned)).decodeArray high take = .ok (some values) := by
  cases take with
  | none => simp [decodeArray, content, decodeNats_unsigned bound, pure, Except.pure, bind, Except.bind]
  | some n =>
    have whole : (values.map unsigned).take n = values.map unsigned :=
      List.take_of_length_le (by simpa using short n rfl)
    simp [decodeArray, content, whole, decodeNats_unsigned bound, pure, Except.pure, bind, Except.bind]

theorem decodeInt_ofInt {low high n : Int} (bound : low ≤ n ∧ n ≤ high) :
    (ofInt n).decodeInt low high = .ok (some n) := by
  cases n with
  | ofNat n => simp_all [ofInt, decodeInt, content, isNull, integer?, pure, Except.pure, bind, Except.bind]
  | negSucc n =>
    have value : (-1 - (n : Int)) = Int.negSucc n := by omega
    simp [ofInt, decodeInt, content, isNull, integer?, value, bound, pure, Except.pure, bind, Except.bind]

theorem decodeText_text {t : Bytes} (valid : Text.Utf8.isValid t = true) :
    (text [t]).decodeText = .ok (some t) := by
  simp [decodeText, content, valid, pure, Except.pure, bind, Except.bind]

section Pairs

variable {κ α : Type} {key : Item → Except Error (Option κ)} {value : Item → Except Error (Option α)}

theorem decodePairs_items {items : List (Item × Item)} {pairs : List (κ × α)}
    (given : List.Forall₂ (fun i p => key i.1 = .ok (some p.1) ∧ value i.2 = .ok (some p.2)) items pairs)
    (last : κ × α) (before : List (κ × α)) :
    decodePairs key value last before items = .ok (before.reverse ++ pairs) := by
  induction given generalizing last before with
  | nil => simp [decodePairs]
  | @cons i p items pairs here more ih =>
    obtain ⟨k, v⟩ := i
    rw [decodePairs, here.1, here.2]
    simp [ih]

theorem decodeMap_map [Inhabited κ] [Inhabited α] {items : List (Item × Item)} {pairs : List (κ × α)}
    (given : List.Forall₂ (fun i p => key i.1 = .ok (some p.1) ∧ value i.2 = .ok (some p.2)) items pairs) :
    (map items).decodeMap key value = .ok (some pairs) := by
  simp [decodeMap, content, decodePairs_items given, pure, Except.pure, bind, Except.bind]

end Pairs

theorem decodeFields_cons {σ : Type} {set : Nat → Item → σ → Except Error σ} {known : List Nat}
    {n : Nat} {value : Item} {more : List (Item × Item)} {s s' : σ} (has : known.contains n = true)
    (sets : set n value s = .ok s') :
    decodeFields set known ((unsigned n, value) :: more) s =
      decodeFields set (known.erase n) more s' := by
  simp only [decodeFields, fieldNumber?, has, ↓reduceIte, sets]

end WordMachine.Cbor.Item
