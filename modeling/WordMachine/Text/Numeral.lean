import WordMachine.Text.Bytes

/-!
Numbers as text. Reading fails either at a character that is no digit of the base or at
the first digit that takes the value past the limit, whichever comes first.
-/

namespace WordMachine.Text.Numeral

def decimal (n : Nat) : Bytes := (Nat.toDigits 10 n).map Bytes.ascii

def signed : Int → Bytes
  | .ofNat n => decimal n
  | .negSucc n => Bytes.ascii '-' :: decimal (n + 1)

def decimalWide (width n : Nat) : Bytes := Bytes.padLeft 48 width (decimal n)

def hexWide (width n : Nat) : Bytes := Bytes.padLeft 48 width ((Nat.toDigits 16 n).map Bytes.ascii)

/-- An address: `0x` and at least four hexadecimal digits. -/
def address (n : Nat) : Bytes := Bytes.ascii '0' :: Bytes.ascii 'x' :: hexWide 4 n

inductive Failure where
  | malformed
  | outOfRange
  deriving DecidableEq, Repr

def digit? (b : UInt8) : Option Nat :=
  if Bytes.isDigit b then some (b.toNat - 48)
  else if Bytes.isLetter b then some ((Bytes.lower b).toNat - 87)
  else none

def readDigits (base limit : Nat) : (value : Nat) → Bytes → Except Failure Nat
  | value, [] => .ok value
  | value, b :: rest =>
    match digit? b with
    | none => .error .malformed
    | some d =>
      if base ≤ d then .error .malformed
      else if limit < value * base + d then .error .outOfRange
      else readDigits base limit (value * base + d) rest

/-- One or more digits whose value fits in `bits` bits. -/
def readNat (base bits : Nat) (t : Bytes) : Except Failure Nat :=
  if t.isEmpty then .error .malformed else readDigits base (Nat.pow 2 bits - 1) 0 t

def separated : (afterDigit : Bool) → Bytes → Bool
  | afterDigit, [] => afterDigit
  | afterDigit, b :: rest =>
    if b = Bytes.ascii '_' then afterDigit && separated false rest else separated true rest

/-- The digits after a `0x`, in which single underscores may separate digits. -/
def readSeparatedHex (bits : Nat) (t : Bytes) : Except Failure Nat :=
  if t.isEmpty then .error .malformed
  else
    match readDigits 16 (Nat.pow 2 bits - 1) 0 (t.filter (· ≠ Bytes.ascii '_')) with
    | .error e => .error e
    | .ok n => if separated true t then .ok n else .error .malformed

def readInt (bits : Nat) (t : Bytes) : Except Failure Int :=
  let negative := t.head? = some (Bytes.ascii '-')
  let digits := match t with
    | b :: rest => if b = Bytes.ascii '-' || b = Bytes.ascii '+' then rest else t
    | [] => t
  match readNat 10 bits digits with
  | .error e => .error e
  | .ok n =>
    if negative then
      if Nat.pow 2 (bits - 1) < n then .error .outOfRange else .ok (-(n : Int))
    else
      if Nat.pow 2 (bits - 1) ≤ n then .error .outOfRange else .ok n

end WordMachine.Text.Numeral
