import WordMachine.Cbor.Item
import WordMachine.Text.Utf8

/-!
Values of a wanted type from data items. Tags are transparent, apart from the two that make
a number of a byte string. Null and undefined give no value, and the caller keeps what it
had. The first mismatch in reading order is the one reported.
-/

namespace WordMachine.Cbor

namespace Item

def isText : Item → Bool
  | text _ => true
  | _ => false

def isBytes : Item → Bool
  | bytes _ => true
  | _ => false

def isNumber : Item → Bool
  | unsigned _ | negative _ | float => true
  | _ => false

def admits (number : Nat) (content : Item) : Bool :=
  match number with
  | 0 => content.isText
  | 1 => content.isNumber
  | 2 | 3 => content.isBytes
  | _ => true

def content : Item → Except Error Item
  | tag number inner =>
    if !admits number inner then .error .misplacedTag
    else if number = 2 || number = 3 then .ok (tag number inner)
    else inner.content
  | i => .ok i

def mismatch : Item → Error
  | text chunks => if chunks.all Text.Utf8.isValid then .wrongType else .invalidText
  | _ => .wrongType

def isNull : Item → Bool
  | simple n => n = 22 || n = 23
  | _ => false

def simpleNumber? (n : Nat) : Option Nat := if n < 20 || 32 ≤ n then some n else none

def integer? : Item → Option Int
  | unsigned n => some n
  | negative n => some (-1 - (n : Int))
  | simple n => (simpleNumber? n).map Int.ofNat
  | tag 2 (bytes chunks) => some (bigEndian chunks.flatten)
  | tag 3 (bytes chunks) => some (-1 - (bigEndian chunks.flatten : Int))
  | _ => none

def decodeInt (low high : Int) (i : Item) : Except Error (Option Int) := do
  let i ← i.content
  if i.isNull then return none
  match i.integer? with
  | some n => if low ≤ n ∧ n ≤ high then return some n else throw .wrongType
  | none => throw i.mismatch

def decodeNat (high : Nat) (i : Item) : Except Error (Option Nat) := do
  return (← i.decodeInt 0 high).map Int.toNat

def decodeBool (i : Item) : Except Error (Option Bool) := do
  let i ← i.content
  match i with
  | simple 20 => return some false
  | simple 21 => return some true
  | i => if i.isNull then return none else throw i.mismatch

def decodeText (i : Item) : Except Error (Option Bytes) := do
  let i ← i.content
  match i with
  | text chunks => if chunks.all Text.Utf8.isValid then return some chunks.flatten else throw .invalidText
  | i => if i.isNull then return none else throw i.mismatch

def decodeNats (high : Nat) (items : List Item) : Except Error (List Nat) :=
  items.mapM fun i => return (← i.decodeNat high).getD 0

def decodeArray (high : Nat) (take : Option Nat) (i : Item) : Except Error (Option (List Nat)) := do
  let i ← i.content
  match i with
  | array items =>
    let wanted := match take with
      | some n => items.take n
      | none => items
    return some (← decodeNats high wanted)
  | i => if i.isNull then return none else throw i.mismatch

def decodeBytes (i : Item) : Except Error (Option Bytes) := do
  let i ← i.content
  match i with
  | bytes chunks => return some chunks.flatten
  | tag _ (bytes chunks) => return some chunks.flatten
  | array items => return some ((← decodeNats 255 items).map Nat.toUInt8)
  | i => if i.isNull then return none else throw i.mismatch

/-- Pairs of a map in order, collected behind `pairs`. Where a key or value is null, that of
the pair before stands. -/
def decodePairs {κ α : Type} (key : Item → Except Error (Option κ)) (value : Item → Except Error (Option α)) :
    (last : κ × α) → (pairs : List (κ × α)) → List (Item × Item) → Except Error (List (κ × α))
  | _, pairs, [] => .ok pairs.reverse
  | last, pairs, (k, v) :: more =>
    match key k with
    | .error e => .error e
    | .ok k =>
      match value v with
      | .error e => .error e
      | .ok v =>
        let pair := (k.getD last.1, v.getD last.2)
        decodePairs key value pair (pair :: pairs) more

def decodeMap {κ α : Type} [Inhabited κ] [Inhabited α] (key : Item → Except Error (Option κ))
    (value : Item → Except Error (Option α)) (i : Item) : Except Error (Option (List (κ × α))) := do
  let i ← i.content
  match i with
  | map pairs => return some (← decodePairs key value (default, default) [] pairs)
  | i => if i.isNull then return none else throw i.mismatch

def fieldNumber? (known : List Nat) : Item → Except Error (Option Nat)
  | unsigned n => .ok (if known.contains n then some n else none)
  | negative n => if lengthBound ≤ n then .error .wrongType else .ok none
  | text chunks =>
    if chunks.all Text.Utf8.isValid then
      .ok (known.find? fun n => chunks.flatten == (Nat.toDigits 10 n).map Bytes.ascii)
    else .error .invalidText
  | _ => .error .wrongType

/-- Fills the fields of a record in reading order. Only the first value of a field counts,
and unknown fields are passed over. -/
def decodeFields {σ : Type} (set : Nat → Item → σ → Except Error σ) :
    (known : List Nat) → List (Item × Item) → σ → Except Error σ
  | _, [], s => .ok s
  | known, (key, value) :: more, s =>
    match fieldNumber? known key with
    | .error e => .error e
    | .ok none => decodeFields set known more s
    | .ok (some n) =>
      match set n value s with
      | .error e => .error e
      | .ok s => decodeFields set (known.erase n) more s

def decodeRecord {σ : Type} (known : List Nat) (set : Nat → Item → σ → Except Error σ) (s : σ)
    (i : Item) : Except Error σ := do
  let i ← i.content
  match i with
  | map pairs => decodeFields set known pairs s
  | i => if i.isNull then return s else throw i.mismatch

end Item

end WordMachine.Cbor
