import WordMachine.Text.Bytes

/-!
Finite maps from addresses, kept as lists of pairs with ascending addresses, so that equal
maps are equal lists.
-/

namespace WordMachine

abbrev AddressMap (α : Type) := List (UInt16 × α)

namespace AddressMap

variable {α : Type}

def insert (addr : UInt16) (value : α) : AddressMap α → AddressMap α
  | [] => [(addr, value)]
  | (a, v) :: more =>
    if addr < a then (addr, value) :: (a, v) :: more
    else if addr = a then (addr, value) :: more
    else (a, v) :: insert addr value more

def get? (m : AddressMap α) (addr : UInt16) : Option α := m.lookup addr

def ofPairs (pairs : List (UInt16 × α)) : AddressMap α :=
  pairs.foldl (fun m (addr, value) => insert addr value m) []

/-- Addresses ascend strictly. -/
def Ascending (m : AddressMap α) : Prop := m.Pairwise fun p q => p.1 < q.1

theorem mem_insert_fst {addr : UInt16} {value : α} {m : AddressMap α} {p : UInt16 × α}
    (h : p ∈ insert addr value m) : p = (addr, value) ∨ p ∈ m := by
  induction m with
  | nil => simpa [insert] using h
  | cons q more ih =>
    obtain ⟨a, v⟩ := q
    unfold insert at h
    split at h
    · simpa using h
    · split at h
      · rcases List.mem_cons.1 h with h | h
        · exact .inl h
        · exact .inr (List.mem_cons_of_mem _ h)
      · rcases List.mem_cons.1 h with h | h
        · exact .inr (h ▸ List.mem_cons_self)
        · rcases ih h with h | h
          · exact .inl h
          · exact .inr (List.mem_cons_of_mem _ h)

theorem insert_ascending (addr : UInt16) (value : α) {m : AddressMap α} (h : Ascending m) :
    Ascending (insert addr value m) := by
  induction m with
  | nil => simp [insert, Ascending]
  | cons q more ih =>
    obtain ⟨a, v⟩ := q
    have hq : ∀ p ∈ more, a < p.1 := (List.pairwise_cons.1 h).1
    have hmore : Ascending more := (List.pairwise_cons.1 h).2
    unfold insert
    split
    · rename_i hlt
      refine List.pairwise_cons.2 ⟨?_, h⟩
      intro p hp
      rcases List.mem_cons.1 hp with hp | hp
      · exact hp ▸ hlt
      · exact UInt16.lt_trans hlt (hq p hp)
    · split
      · rename_i heq
        exact List.pairwise_cons.2 ⟨fun p hp => heq ▸ hq p hp, hmore⟩
      · rename_i hlt hne
        refine List.pairwise_cons.2 ⟨?_, ih hmore⟩
        intro p hp
        rcases mem_insert_fst hp with hp | hp
        · subst hp
          exact UInt16.lt_of_le_of_ne (UInt16.not_lt.1 hlt) (Ne.symm hne)
        · exact hq p hp

end AddressMap

end WordMachine
