import WordMachine.AddressMap
import WordMachine.Cbor.Decode
import WordMachine.Cbor.Item

/-!
Symbol tables: where a program came from, the offset of the source line behind an address,
and the label at an address. Either map may be absent, which is told apart from empty.
-/

namespace WordMachine

structure SymbolTable where
  source : Bytes := []
  symbols : Option (AddressMap Int) := some []
  labels : Option (AddressMap Bytes) := some []
  deriving DecidableEq, Repr

namespace SymbolTable

def labelMap (t : SymbolTable) : AddressMap Bytes := t.labels.getD []

def symbolMap (t : SymbolTable) : AddressMap Int := t.symbols.getD []

def label? (t : SymbolTable) (addr : UInt16) : Option Bytes := t.labelMap.get? addr

def offset? (t : SymbolTable) (addr : UInt16) : Option Int := t.symbolMap.get? addr

def lookup (t : SymbolTable) (name : Bytes) : Option UInt16 :=
  (t.labelMap.find? fun (_, label) => label = name).map Prod.fst

theorem mem_of_lookup {t : SymbolTable} {name : Bytes} {addr : UInt16} (looked : t.lookup name = some addr) :
    (addr, name) ∈ t.labelMap := by
  obtain ⟨⟨a, label⟩, found, rfl⟩ := Option.map_eq_some_iff.mp looked
  obtain rfl : label = name := by simpa using List.find?_some found
  exact List.mem_of_find?_eq_some found

theorem not_mem_of_lookup {t : SymbolTable} {name : Bytes} (looked : t.lookup name = none) (addr : UInt16) :
    (addr, name) ∉ t.labelMap := by
  intro listed
  rw [lookup, Option.map_eq_none_iff] at looked
  simpa using List.find?_eq_none.mp looked _ listed

/-- A way to look names up. The entries of a table come in no order, so where a name stands at several
addresses any of these may be found, and another one the next time. -/
structure Finder where
  find : SymbolTable → Bytes → Option UInt16
  listed : ∀ {t name addr}, find t name = some addr → (addr, name) ∈ t.labelMap
  missing : ∀ {t name}, find t name = none → ∀ addr, (addr, name) ∉ t.labelMap

def Finder.lowest : Finder where
  find := lookup
  listed := mem_of_lookup
  missing := not_mem_of_lookup

def addLabel (t : SymbolTable) (addr : UInt16) (name : Bytes) : SymbolTable :=
  { t with labels := t.labels.map (AddressMap.insert addr name) }

def addSymbol (t : SymbolTable) (addr : UInt16) (offset : Int) : SymbolTable :=
  { t with symbols := t.symbols.map (AddressMap.insert addr offset) }

/-!
The stored form of symbol tables: a map with the source under 1, the line offsets under 2
and the labels under 3. An absent map is stored as null.
-/

open Cbor

/-- Ascending addresses are ascending encoded keys, so the pairs need no sorting. -/
def encodeMap {α : Type} (value : α → Bytes) : Option (AddressMap α) → Bytes
  | none => Encode.null
  | some m => Encode.map (m.map fun (addr, v) => (Encode.nat addr.toNat, value v))

def encode (t : SymbolTable) : Bytes :=
  Encode.map [
    (Encode.nat 1, Encode.text t.source),
    (Encode.nat 2, encodeMap Encode.int t.symbols),
    (Encode.nat 3, encodeMap Encode.text t.labels)]

def decodeAddress (i : Item) : Except Error (Option UInt16) := do
  return (← i.decodeNat 0xFFFF).map Nat.toUInt16

def decodeOffset (i : Item) : Except Error (Option Int) := i.decodeInt (-0x8000000000000000) 0x7FFFFFFFFFFFFFFF

/-- Adds the pairs of a map to one that is there; null takes it away. -/
def decodeInto {α : Type} [Inhabited α] (value : Item → Except Error (Option α))
    (m : Option (AddressMap α)) (i : Item) : Except Error (Option (AddressMap α)) := do
  match ← i.decodeMap decodeAddress value with
  | none => return none
  | some pairs => return some (pairs.foldl (fun m (addr, v) => AddressMap.insert addr v m) (m.getD []))

def setField (n : Nat) (i : Item) (t : SymbolTable) : Except Error SymbolTable := do
  match n with
  | 1 => return { t with source := (← i.decodeText).getD t.source }
  | 2 => return { t with symbols := ← decodeInto decodeOffset t.symbols i }
  | _ => return { t with labels := ← decodeInto Item.decodeText t.labels i }

def decode (bytes : Bytes) : Except Error SymbolTable := do
  (← parse bytes).decodeRecord [1, 2, 3] setField {}

end SymbolTable

end WordMachine
