import WordMachine.Proofs.Assembly.Labels
import WordMachine.Proofs.Cbor.KeyOrder
import WordMachine.Proofs.Cbor.Values
import WordMachine.SymbolTable
import Mathlib.Data.List.Induction

/-! The stored form of a symbol table. It is read back as the same table, a map that is absent
as an absent one. It is the canonical form of the entries in whatever order they are given, and
so a table has one stored form, however its maps were filled. -/

namespace WordMachine

namespace AddressMap

variable {α : Type}

theorem Ascending.nodup {m : AddressMap α} (ascending : m.Ascending) : (m.map Prod.fst).Nodup :=
  List.pairwise_map.mpr (ascending.imp fun below => UInt16.ne_of_lt below)

theorem Ascending.length_le {m : AddressMap α} (ascending : m.Ascending) : m.length ≤ 65536 := by
  have distinct : (m.map fun p => p.1.toNat).Nodup :=
    List.pairwise_map.mpr (ascending.imp fun below => Nat.ne_of_lt (UInt16.lt_iff_toNat_lt.mp below))
  have addresses : (m.map fun p => p.1.toNat) ⊆ List.range 65536 := by
    intro n stored
    obtain ⟨p, -, rfl⟩ := List.mem_map.mp stored
    exact List.mem_range.mpr p.1.toNat_lt
  have counted := (List.subperm_of_subset distinct addresses).length_le
  rwa [List.length_map, List.length_range] at counted

theorem insert_last {m : AddressMap α} {addr : UInt16} (value : α) (above : ∀ p ∈ m, p.1 < addr) :
    insert addr value m = m ++ [(addr, value)] := by
  induction m with
  | nil => rfl
  | cons p more ih =>
    obtain ⟨a, v⟩ := p
    have below : a < addr := above (a, v) List.mem_cons_self
    rw [insert, if_neg (UInt16.not_lt.mpr (UInt16.le_of_lt below)), if_neg (UInt16.ne_of_lt below).symm,
      ih fun p stored => above p (List.mem_cons_of_mem _ stored)]
    rfl

theorem ofPairs_of_ascending {m : AddressMap α} (ascending : m.Ascending) : ofPairs m = m := by
  have appended : ∀ before after : AddressMap α, Ascending (before ++ after) →
      after.foldl (fun m p => insert p.1 p.2 m) before = before ++ after := by
    intro before after
    induction after generalizing before with
    | nil => simp
    | cons p after ih =>
      intro ascending
      obtain ⟨addr, value⟩ := p
      have above : ∀ p ∈ before, p.1 < addr := fun p stored =>
        (List.pairwise_append.mp ascending).2.2 p stored (addr, value) List.mem_cons_self
      rw [List.foldl_cons]
      dsimp only
      rw [insert_last value above, ih _ (by simpa using ascending)]
      simp
  exact appended [] m ascending

theorem ofPairs_ascending (pairs : List (UInt16 × α)) : (ofPairs pairs).Ascending := by
  refine List.foldlRecOn pairs _ (List.Pairwise.nil) fun m ascending p _ => ?_
  exact insert_ascending p.1 p.2 ascending

theorem get?_ofPairs (pairs : List (UInt16 × α)) (addr : UInt16) :
    (ofPairs pairs).get? addr = pairs.reverse.lookup addr := by
  induction pairs using List.reverseRecOn with
  | nil => rfl
  | append_singleton pairs p ih =>
    obtain ⟨a, v⟩ := p
    rw [ofPairs, List.foldl_append, ← ofPairs, List.reverse_append]
    change get? (insert a v (ofPairs pairs)) addr = List.lookup addr ((a, v) :: pairs.reverse)
    rw [get?_insert, ih, List.lookup_cons]
    by_cases here : addr = a
    · simp [here]
    · have other : (addr == a) = false := by simpa using here
      simp [here, other]

def Holds (m : AddressMap α) (entries : List (UInt16 × α)) : Prop :=
  ∀ addr, m.get? addr = entries.reverse.lookup addr

theorem eq_of_get? {m m' : AddressMap α} (ascending : m.Ascending) (ascending' : m'.Ascending)
    (same : ∀ addr, m.get? addr = m'.get? addr) : m = m' := by
  have members : ∀ p, p ∈ m ↔ p ∈ m' := fun p => by
    rw [mem_iff_get? ascending, mem_iff_get? ascending', same]
  have perm : m.Perm m' := (List.perm_ext_iff_of_nodup (List.Nodup.of_map _ ascending.nodup)
    (List.Nodup.of_map _ ascending'.nodup)).mpr members
  refine perm.eq_of_pairwise ?_ ascending ascending'
  intro p q _ _ before after
  exact absurd after (UInt16.not_lt.mpr (UInt16.le_of_lt before))

/-- In whatever order a map is filled, what it holds makes it the map that it is. -/
theorem ofPairs_eq {m : AddressMap α} (ascending : m.Ascending) {entries : List (UInt16 × α)}
    (holds : m.Holds entries) : ofPairs entries = m :=
  eq_of_get? (ofPairs_ascending entries) ascending fun addr => by rw [get?_ofPairs, holds addr]

end AddressMap

namespace SymbolTable

open Cbor

/-- A text that can be stored: its characters are spelled well and its bytes can be counted. -/
structure StorableText (t : Bytes) : Prop where
  valid : Text.Utf8.isValid t = true
  countable : t.length < lengthBound

def StorableOffset (n : Int) : Prop := -0x8000000000000000 ≤ n ∧ n ≤ 0x7FFFFFFFFFFFFFFF

/-- A table that can be stored. Its maps may be absent. -/
structure Storable (t : SymbolTable) : Prop where
  source : StorableText t.source
  symbols : ∀ m, t.symbols = some m → m.Ascending ∧ ∀ p ∈ m, StorableOffset p.2
  labels : ∀ m, t.labels = some m → m.Ascending ∧ ∀ p ∈ m, StorableText p.2

def mapItem {α : Type} (item : α → Item) : Option (AddressMap α) → Item
  | none => .simple 22
  | some m => .map (m.map fun p => (.unsigned p.1.toNat, item p.2))

structure Coded {α : Type} (text : α → Bytes) (item : α → Item)
    (value : Item → Except Error (Option α)) (v : α) : Prop where
  form : ∀ levels depth, Form (levels + 1) depth (text v) (item v)
  back : value (item v) = .ok (some v)

theorem coded_offset {n : Int} (storable : StorableOffset n) :
    Coded Encode.int .ofInt decodeOffset n where
  form levels depth := form_int ⟨by rw [headBound]; have := storable.1; omega,
    by rw [headBound]; have := storable.2; omega⟩
  back := Item.decodeInt_ofInt storable

theorem coded_text {t : Bytes} (storable : StorableText t) :
    Coded Encode.text (fun t => .text [t]) Item.decodeText t where
  form _ _ := form_text storable.countable
  back := Item.decodeText_text storable.valid

theorem address_lt (addr : UInt16) : addr.toNat < headBound := Nat.lt_trans addr.toNat_lt (by decide)

section Maps

variable {α : Type} {text : α → Bytes} {item : α → Item} {value : Item → Except Error (Option α)}

theorem form_encodeMap {levels depth : Nat} {m : Option (AddressMap α)} (shallow : depth < maxDepth)
    (stored : ∀ entries, m = some entries →
      entries.Ascending ∧ ∀ p ∈ entries, Coded text item value p.2) :
    Form (levels + 2) depth (encodeMap text m) (mapItem item m) := by
  cases m with
  | none => exact form_null _ _
  | some entries =>
    obtain ⟨ascending, coded⟩ := stored entries rfl
    have short : entries.length ≤ maxLength := Nat.le_trans ascending.length_le (by decide)
    refine form_map ?_ (by simpa using short) shallow
    rw [List.forall₂_map_left_iff, List.forall₂_map_right_iff, List.forall₂_same]
    exact fun p here => ⟨form_nat (address_lt p.1), (coded p here).form _ _⟩

theorem decodeInto_mapItem [Inhabited α] {m : Option (AddressMap α)}
    (stored : ∀ entries, m = some entries →
      entries.Ascending ∧ ∀ p ∈ entries, Coded text item value p.2) :
    decodeInto value (some []) (mapItem item m) = .ok m := by
  cases m with
  | none => rfl
  | some entries =>
    obtain ⟨ascending, coded⟩ := stored entries rfl
    have address (addr : UInt16) : decodeAddress (.unsigned addr.toNat) = .ok (some addr) := by
      simp [decodeAddress, Item.decodeNat_unsigned (Nat.le_of_lt_succ addr.toNat_lt), bind, Except.bind,
        pure, Except.pure]
    have read : (mapItem item (some entries)).decodeMap decodeAddress value = .ok (some entries) := by
      refine Item.decodeMap_map ?_
      rw [List.forall₂_map_left_iff, List.forall₂_same]
      exact fun p here => ⟨address p.1, (coded p here).back⟩
    rw [decodeInto, read]
    exact congrArg (Except.ok ∘ some) (AddressMap.ofPairs_of_ascending ascending)

def canonicalEntries (text : α → Bytes) : Option (List (UInt16 × α)) → Bytes
  | none => Encode.null
  | some entries => Encode.canonicalMap (entries.map fun p => (Encode.nat p.1.toNat, text p.2))

theorem encodeMap_of_perm {m : AddressMap α} (ascending : m.Ascending) {entries : List (UInt16 × α)}
    (same : entries.Perm m) : encodeMap text (some m) = canonicalEntries text (some entries) := by
  refine (Encode.canonicalMap_of_perm (same.map _) ?_ ?_).symm
  · exact List.pairwise_map.mpr (ascending.imp fun below =>
      Encode.keyLe_nat (UInt16.lt_iff_toNat_lt.mp below) (address_lt _) _ _)
  · rw [List.map_map]
    exact List.pairwise_map.mpr (ascending.imp fun below =>
      Encode.nat_ne (UInt16.lt_iff_toNat_lt.mp below) (address_lt _))

theorem encodeMap_eq {m : Option (AddressMap α)} (ascending : ∀ entries, m = some entries → entries.Ascending)
    {entries : Option (List (UInt16 × α))} (same : Option.Rel List.Perm entries m) :
    encodeMap text m = canonicalEntries text entries := by
  cases same with
  | none => rfl
  | some same => exact encodeMap_of_perm (ascending _ rfl) same

end Maps

theorem ofPairs_of_rel {α : Type} {m : Option (AddressMap α)}
    (ascending : ∀ entries, m = some entries → entries.Ascending) {entries : Option (List (UInt16 × α))}
    (holds : Option.Rel AddressMap.Holds m entries) : entries.map .ofPairs = m := by
  cases holds with
  | none => rfl
  | some holds => exact congrArg some (AddressMap.ofPairs_eq (ascending _ rfl) holds)

def canonicalForm (source : Bytes) (symbols : Option (List (UInt16 × Int)))
    (labels : Option (List (UInt16 × Bytes))) : Bytes :=
  Encode.canonicalMap [
    (Encode.nat 1, Encode.text source),
    (Encode.nat 2, canonicalEntries Encode.int symbols),
    (Encode.nat 3, canonicalEntries Encode.text labels)]

section Storable

variable {t : SymbolTable}

theorem encode_canonical (storable : t.Storable) {symbols : Option (List (UInt16 × Int))}
    {labels : Option (List (UInt16 × Bytes))} (listed : Option.Rel List.Perm symbols t.symbols)
    (listed' : Option.Rel List.Perm labels t.labels) :
    t.encode = canonicalForm t.source symbols labels := by
  rw [encode, encodeMap_eq (fun m here => (storable.symbols m here).1) listed,
    encodeMap_eq (fun m here => (storable.labels m here).1) listed', canonicalForm]
  have key {m n : Nat} (less : m < n) (small : n < 4) (v w : Bytes) :
      Encode.keyLe (Encode.nat m, v) (Encode.nat n, w) = true :=
    Encode.keyLe_nat less (Nat.lt_trans small (by decide)) v w
  refine (Encode.canonicalMap_of_perm (.refl _) ?_ ?_).symm
  · simp [key]
  · change [Encode.nat 1, Encode.nat 2, Encode.nat 3].Nodup
    decide

def item (t : SymbolTable) : Item :=
  .map [(.unsigned 1, .text [t.source]), (.unsigned 2, mapItem .ofInt t.symbols),
    (.unsigned 3, mapItem (fun t => .text [t]) t.labels)]

theorem Storable.coded_symbols (storable : t.Storable) (m : AddressMap Int) (here : t.symbols = some m) :
    m.Ascending ∧ ∀ p ∈ m, Coded Encode.int .ofInt decodeOffset p.2 :=
  ⟨(storable.symbols m here).1, fun p stored => coded_offset ((storable.symbols m here).2 p stored)⟩

theorem Storable.coded_labels (storable : t.Storable) (m : AddressMap Bytes) (here : t.labels = some m) :
    m.Ascending ∧ ∀ p ∈ m, Coded Encode.text (fun t => .text [t]) Item.decodeText p.2 :=
  ⟨(storable.labels m here).1, fun p stored => coded_text ((storable.labels m here).2 p stored)⟩

theorem parse_encode (storable : t.Storable) : parse t.encode = .ok t.item := by
  have key (n : Nat) (small : n < 4) : Form 65 1 (Encode.nat n) (.unsigned n) :=
    form_nat (Nat.lt_trans small (by decide))
  have forms : List.Forall₂ (fun t i => Form 65 1 t.1 i.1 ∧ Form 65 1 t.2 i.2)
      [(Encode.nat 1, Encode.text t.source), (Encode.nat 2, encodeMap Encode.int t.symbols),
        (Encode.nat 3, encodeMap Encode.text t.labels)]
      [(.unsigned 1, .text [t.source]), (.unsigned 2, mapItem .ofInt t.symbols),
        (.unsigned 3, mapItem (fun t => .text [t]) t.labels)] :=
    .cons ⟨key 1 (by decide), form_text storable.source.countable⟩
      (.cons ⟨key 2 (by decide), form_encodeMap (by decide) storable.coded_symbols⟩
        (.cons ⟨key 3 (by decide), form_encodeMap (by decide) storable.coded_labels⟩ .nil))
  exact parse_form (form_map forms (by simp [maxLength]) (by decide)) (by simp [encode, Encode.map, Encode.head])

theorem setField_source (s : SymbolTable) {source : Bytes} (storable : StorableText source) :
    setField 1 (.text [source]) s = .ok { s with source } := by
  simp only [setField, Item.decodeText_text storable.valid]
  rfl

theorem setField_symbols (storable : t.Storable) (s : SymbolTable) (unset : s.symbols = some []) :
    setField 2 (mapItem .ofInt t.symbols) s = .ok { s with symbols := t.symbols } := by
  simp only [setField, unset, decodeInto_mapItem storable.coded_symbols]
  rfl

theorem setField_labels (storable : t.Storable) (s : SymbolTable) (unset : s.labels = some []) :
    setField 3 (mapItem (fun t => .text [t]) t.labels) s = .ok { s with labels := t.labels } := by
  simp only [setField, unset, decodeInto_mapItem storable.coded_labels]
  rfl

theorem decode_encode (storable : t.Storable) : decode t.encode = .ok t := by
  rw [decode, parse_encode storable]
  change Item.decodeFields setField [1, 2, 3] _ {} = .ok t
  rw [Item.decodeFields_cons (by decide) (setField_source _ storable.source),
    Item.decodeFields_cons (by decide) (setField_symbols storable _ rfl),
    Item.decodeFields_cons (by decide) (setField_labels storable _ rfl)]
  rfl

end Storable

/-- A table that can be stored is read back as it was, and what is read back is stored the same
way again. Its stored form is that of its entries in any order; a table whose maps were filled
in another way, and hold the same in the end, has the same stored form. -/
theorem stored_faithfully (t : SymbolTable) (storable : t.Storable) :
    decode t.encode = .ok t ∧
      (∀ t', decode t.encode = .ok t' → t'.encode = t.encode) ∧
      (∀ symbols labels, Option.Rel List.Perm symbols t.symbols → Option.Rel List.Perm labels t.labels →
        t.encode = canonicalForm t.source symbols labels) ∧
      ∀ symbols labels, Option.Rel AddressMap.Holds t.symbols symbols →
        Option.Rel AddressMap.Holds t.labels labels →
        encode ⟨t.source, symbols.map .ofPairs, labels.map .ofPairs⟩ = t.encode := by
  have back := decode_encode storable
  refine ⟨back, fun t' read => ?_, fun symbols labels => encode_canonical storable, ?_⟩
  · rw [back] at read
    rw [Except.ok.inj read]
  · intro symbols labels holds holds'
    have refilled := ofPairs_of_rel (fun m here => (storable.symbols m here).1) holds
    have refilled' := ofPairs_of_rel (fun m here => (storable.labels m here).1) holds'
    rw [refilled, refilled']

def partly : SymbolTable where
  source := "/a/é.asm"
  symbols := some [(3, -1), (23, 65536), (24, -0x8000000000000000), (40000, 4294967296)]
  labels := none

theorem partly_storable : partly.Storable where
  source := ⟨by decide, by decide⟩
  symbols := by
    rintro m ⟨⟩
    refine ⟨by simp [AddressMap.Ascending], ?_⟩
    simp [StorableOffset]
  labels := by rintro m ⟨⟩

theorem stored_faithfully_partly :
    partly.Storable ∧ decode partly.encode = .ok partly ∧
      partly.encode = canonicalForm partly.source
        (some [(40000, 4294967296), (24, -0x8000000000000000), (3, -1), (23, 65536)]) none ∧
      encode ⟨partly.source, some (.ofPairs [(24, 0), (40000, 4294967296), (23, 65536), (3, -1),
        (24, -0x8000000000000000)]), none⟩ = partly.encode := by
  obtain ⟨back, -, listed, filled⟩ := stored_faithfully partly partly_storable
  refine ⟨partly_storable, back, listed _ _ (.some (by decide)) .none, filled (some _) none (.some ?_) .none⟩
  intro addr
  rw [← AddressMap.get?_ofPairs]
  rfl

end SymbolTable

end WordMachine
