import WordMachine.Word
import WordMachine.Text.Quoted

/-!
How words, addresses, registers and targets are written by a person. A number is decimal,
with an optional leading `#`, or hexadecimal after `x` or `0x`; an address may be marked
with `@`; a register is written `r0` to `r7`.
-/

namespace WordMachine.Location

open Text

inductive Error where
  | number (r : Rejected)
  | notHexadecimal
  | exceedsWord (value : Nat)
  | noRegister (text : Bytes)
  | noTarget (text : Bytes)
  deriving DecidableEq, Repr

def Error.message : Error → Bytes
  | number r => r.message
  | notHexadecimal => "Invalid hex string"
  | exceedsWord value => "Value " ++ Numeral.decimal value ++ " exceeds 32767"
  | noRegister text => "Invalid register '" ++ text ++ "'"
  | noTarget text => "invalid target: '" ++ text ++ "'"

def isHexMark (b : UInt8) : Bool := b = Bytes.ascii 'x' || b = Bytes.ascii 'X'

def readMarked (t : Bytes) : Except Numeral.Failure Nat :=
  match t with
  | zero :: _ :: digits =>
    if zero = Bytes.ascii '0' then Numeral.readSeparatedHex 16 digits else .error .malformed
  | _ => .error .malformed

/-- A hexadecimal 16-bit number. Its mark is the first or second character. -/
def readHex (t : Bytes) : Except Error UInt16 :=
  let full? := match t.findIdx? isHexMark with
    | some 0 => some (Bytes.ascii '0' :: t)
    | some 1 => some t
    | _ => none
  match full? with
  | none => .error .notHexadecimal
  | some full =>
    match readMarked full with
    | .ok n => .ok n.toUInt16
    | .error f => .error (.number ⟨"ParseUint", full, f⟩)

def readDecimal (t : Bytes) : Except Error UInt16 :=
  match Rejected.readNat 10 16 (Bytes.dropMark (Bytes.ascii '#') t) with
  | .ok n => .ok n.toUInt16
  | .error r => .error (.number r)

def readWord (t : Bytes) : Except Error UInt16 :=
  match if t.any isHexMark then readHex t else readDecimal t with
  | .error e => .error e
  | .ok n => if n > wordMax then .error (.exceedsWord n.toNat) else .ok n

def readAddress (t : Bytes) : Except Error UInt16 := readWord (Bytes.dropMark (Bytes.ascii '@') t)

def readRegister (t : Bytes) : Except Error Register :=
  let digits := Bytes.dropMark (Bytes.ascii 'R') (Bytes.dropMark (Bytes.ascii 'r') t)
  match Numeral.readNat 10 8 digits with
  | .ok n => if h : n < registerCount then .ok ⟨n, h⟩ else .error (.noRegister digits)
  | .error _ => .error (.noRegister digits)

inductive Target where
  | address (addr : UInt16)
  | register (r : Register)
  deriving DecidableEq, Repr

def Target.text : Target → Bytes
  | address addr => Bytes.ascii '@' :: Numeral.address addr.toNat
  | register r => Bytes.ascii 'r' :: Numeral.decimal r.val

def readTarget (t : Bytes) : Except Error Target :=
  match t with
  | [] => .error (.noTarget t)
  | b :: _ =>
    if b = Bytes.ascii '@' then (readAddress t).map .address
    else if b = Bytes.ascii 'r' || b = Bytes.ascii 'R' then (readRegister t).map .register
    else .error (.noTarget t)

def register? (t : Bytes) : Option Register :=
  match readTarget t with
  | .ok (.register r) => some r
  | _ => none

theorem readAddress_mark (t : Bytes) : readAddress (Bytes.ascii '@' :: t) = readWord t := by
  simp [readAddress, Bytes.dropMark_cons_self]

theorem readWord_le {t : Bytes} {v : UInt16} (h : readWord t = .ok v) : v ≤ wordMax := by
  unfold readWord at h
  split at h
  · simp at h
  · split at h
    · simp at h
    · simp_all

end WordMachine.Location
