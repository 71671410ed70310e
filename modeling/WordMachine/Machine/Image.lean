import WordMachine.Machine.Basic

/-!
Program images: the words of memory from address 0 on, as a list or as bytes with the low
byte of each word first. Loading resets everything else.
-/

namespace WordMachine

open Text

inductive Defect where
  | partialWord
  | tooLong
  | version (v : Nat)
  | memorySize
  | program (addr : UInt16)
  | register (index : Nat) (value : UInt16)
  | stack (index : Nat) (value : UInt16)
  deriving DecidableEq, Repr

def Defect.message : Defect → Bytes
  | partialWord => "size is not a whole number of words"
  | tooLong => "image exceeds memory capacity"
  | version v => "unsupported snapshot version " ++ Numeral.decimal v
  | memorySize => "snapshot memory size mismatch"
  | program addr => "program counter " ++ Numeral.address addr.toNat ++ " out of bounds"
  | register index value => "register r" ++ Numeral.decimal index ++ " holds " ++ Numeral.decimal value.toNat
  | stack index value => "stack entry " ++ Numeral.decimal index ++ " holds " ++ Numeral.decimal value.toNat

structure InvalidImage where
  size : Nat
  defect : Defect
  deriving DecidableEq, Repr

def InvalidImage.message (e : InvalidImage) : Bytes :=
  "Invalid image (" ++ Numeral.decimal e.size ++ " bytes): " ++ e.defect.message

namespace Image

def wordBytes (w : UInt16) : Bytes := [w.toUInt8, (w >>> 8).toUInt8]

def wordOfBytes (low high : UInt8) : UInt16 := low.toUInt16 ||| (high.toUInt16 <<< 8)

def toBytes (words : List UInt16) : Bytes := words.flatMap wordBytes

/-- The words of a text of even length; a last odd byte is left out. -/
def ofBytes : Bytes → List UInt16
  | low :: high :: rest => wordOfBytes low high :: ofBytes rest
  | _ => []

def memory (words : List UInt16) (h : words.length ≤ memorySize) : Vector UInt16 memorySize :=
  ⟨(words ++ List.replicate (memorySize - words.length) 0).toArray, by
    simp only [List.size_toArray, List.length_append, List.length_replicate]
    omega⟩

theorem toBytes_cons (w : UInt16) (words : List UInt16) :
    toBytes (w :: words) = w.toUInt8 :: (w >>> 8).toUInt8 :: toBytes words := rfl

end Image

namespace State

def ofWords (words : List UInt16) : Except InvalidImage State :=
  if h : words.length ≤ memorySize then .ok { memory := Image.memory words h }
  else .error ⟨words.length * 2, .tooLong⟩

def ofImage (bytes : Bytes) : Except InvalidImage State :=
  if bytes.length % 2 ≠ 0 then .error ⟨bytes.length, .partialWord⟩
  else if memorySize < bytes.length / 2 then .error ⟨bytes.length, .tooLong⟩
  else ofWords (Image.ofBytes bytes)

def dump (s : State) : Bytes := Image.toBytes s.memory.toList

end State

namespace Machine

/-- Replaces the state, and keeps the machine as it was if there is none. -/
def load {ε : Type} (m : Machine) (state : Except ε State) : Except ε Machine :=
  match state with
  | .ok s => .ok { m with state := s }
  | .error e => .error e

def loadWords (m : Machine) (words : List UInt16) : Except InvalidImage Machine := m.load (State.ofWords words)

def loadImage (m : Machine) (bytes : Bytes) : Except InvalidImage Machine := m.load (State.ofImage bytes)

end Machine

end WordMachine
