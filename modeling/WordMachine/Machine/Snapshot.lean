import WordMachine.Machine.Image
import WordMachine.Cbor.Decode
import WordMachine.Cbor.Item

/-!
Snapshots: a state with everything in it, in a form that can be stored. A snapshot is
restored only if its version is known and all it holds is within range.
-/

namespace WordMachine

/-- A stored state. The stack has its bottom first; memory is bytes, low byte of a word first. -/
structure Snapshot where
  version : Nat := 0
  program : UInt16 := 0
  halted : Bool := false
  registers : Vector UInt16 registerCount := Vector.replicate registerCount 0
  stack : List UInt16 := []
  memory : Bytes := []
  deriving DecidableEq, Repr

inductive LoadError where
  | format (e : Cbor.Error)
  | image (e : InvalidImage)
  deriving DecidableEq, Repr

namespace Snapshot

open Cbor

def currentVersion : Nat := 1

def firstExcess (values : List UInt16) : Option (Nat × UInt16) :=
  (values.zipIdx.find? fun (v, _) => wordMax < v).map fun (v, k) => (k, v)

def defect? (s : Snapshot) : Option Defect :=
  if s.version ≠ currentVersion then some (.version s.version)
  else if s.memory.length ≠ memorySize * 2 then some .memorySize
  else if memorySize ≤ s.program.toNat then some (.program s.program)
  else match firstExcess s.registers.toList with
    | some (k, v) => some (.register k v)
    | none =>
      match firstExcess s.stack with
      | some (k, v) => some (.stack k v)
      | none => none

def encode (s : Snapshot) : Bytes :=
  Encode.map [
    (Encode.nat 1, Encode.nat s.version),
    (Encode.nat 2, Encode.nat s.program.toNat),
    (Encode.nat 3, Encode.bool s.halted),
    (Encode.nat 4, Encode.array (s.registers.toList.map fun w => Encode.nat w.toNat)),
    (Encode.nat 5,
      if s.stack.isEmpty then Encode.null else Encode.array (s.stack.map fun w => Encode.nat w.toNat)),
    (Encode.nat 6, Encode.bytes s.memory)]

def setField (n : Nat) (i : Item) (s : Snapshot) : Except Error Snapshot := do
  match n with
  | 1 => return { s with version := (← i.decodeNat 0xFFFFFFFFFFFFFFFF).getD s.version }
  | 2 => return { s with program := ((← i.decodeNat 0xFFFF).map Nat.toUInt16).getD s.program }
  | 3 => return { s with halted := (← i.decodeBool).getD s.halted }
  | 4 =>
    match ← i.decodeArray 0xFFFF (some registerCount) with
    | none => return s
    | some values => return { s with registers := Vector.ofFn fun k => (values[k.val]?.getD 0).toUInt16 }
  | 5 => return { s with stack := ((← i.decodeArray 0xFFFF none).getD []).map Nat.toUInt16 }
  | _ => return { s with memory := (← i.decodeBytes).getD [] }

def decode (bytes : Bytes) : Except Error Snapshot := do
  (← parse bytes).decodeRecord [1, 2, 3, 4, 5, 6] setField {}

end Snapshot

namespace State

def snapshot (s : State) : Snapshot where
  version := Snapshot.currentVersion
  program := s.program
  halted := s.halted
  registers := s.registers
  stack := s.stack.reverse
  memory := s.dump

def ofSnapshot (s : Snapshot) : Except InvalidImage State :=
  match s.defect? with
  | some d => .error ⟨s.memory.length, d⟩
  | none =>
    let words := Image.ofBytes s.memory
    if h : words.length ≤ memorySize then
      .ok ⟨s.registers, s.program, s.stack.reverse, Image.memory words h, s.halted⟩
    else .error ⟨s.memory.length, .memorySize⟩

def save (s : State) : Bytes := s.snapshot.encode

def ofSaved (bytes : Bytes) : Except LoadError State :=
  match Snapshot.decode bytes with
  | .error e => .error (.format e)
  | .ok s => (ofSnapshot s).mapError .image

end State

namespace Machine

def loadSaved (m : Machine) (bytes : Bytes) : Except LoadError Machine := m.load (State.ofSaved bytes)

end Machine

end WordMachine
