import WordMachine.Text.Bytes

/-!
Data items of the concise binary object representation, and the reader that checks a whole
text for well-formedness. Strings keep their chunks apart, because the validity of text is
a matter of each chunk. Floating-point numbers are recognised but their value is not kept.
-/

namespace WordMachine.Cbor

inductive Error where
  | emptyInput
  | truncated
  | illFormed
  | lengthOverflow
  | tooDeep
  | tooManyElements
  | tooManyPairs
  | trailingBytes
  | invalidText
  | wrongType
  | misplacedTag
  deriving DecidableEq, Repr

inductive Item where
  | unsigned (n : Nat)
  /-- Stands for -1 - n. -/
  | negative (n : Nat)
  | bytes (chunks : List Bytes)
  | text (chunks : List Bytes)
  | array (items : List Item)
  | map (pairs : List (Item × Item))
  | tag (number : Nat) (content : Item)
  /-- Simple values; 20 and 21 are false and true, 22 and 23 null and undefined. -/
  | simple (n : Nat)
  | float
  deriving Repr

def maxDepth : Nat := 32

/-- Levels enough that the depth is the limit that is met first. -/
def maxLevels : Nat := 2 * maxDepth + 2

def maxLength : Nat := 131072

structure Head where
  major : Nat
  info : Nat
  argument : Nat
  deriving DecidableEq, Repr

def breakByte : UInt8 := 0xFF

def bigEndian (t : Bytes) : Nat := t.foldl (fun n b => n * 256 + b.toNat) 0

def argumentWidth? : Nat → Option Nat
  | 24 => some 1
  | 25 => some 2
  | 26 => some 4
  | 27 => some 8
  | _ => none

def readHead : Bytes → Except Error (Head × Bytes)
  | [] => .error .truncated
  | b :: rest =>
    let major := b.toNat / 32
    let info := b.toNat % 32
    if info < 24 then .ok (⟨major, info, info⟩, rest)
    else match argumentWidth? info with
      | some width =>
        let argument := rest.take width
        if argument.length < width then .error .truncated
        else if major = 7 && info = 24 && bigEndian argument < 32 then .error .illFormed
        else .ok (⟨major, info, bigEndian argument⟩, rest.drop width)
      | none =>
        if info = 31 && (2 ≤ major && major ≤ 5) then .ok (⟨major, info, info⟩, rest)
        else .error .illFormed

def lengthBound : Nat := 0x8000000000000000

def readBlock (length : Nat) (t : Bytes) : Except Error (Bytes × Bytes) :=
  if lengthBound ≤ length then .error .lengthOverflow
  else
    let block := t.take length
    if block.length < length then .error .truncated else .ok (block, t.drop length)

def readChunks (major : Nat) : (fuel : Nat) → (chunks : List Bytes) → Bytes → Except Error (List Bytes × Bytes)
  | 0, _, _ => .error .truncated
  | _ + 1, _, [] => .error .truncated
  | fuel + 1, chunks, b :: rest =>
    if b = breakByte then .ok (chunks.reverse, rest)
    else if b.toNat / 32 ≠ major || b.toNat % 32 = 31 then .error .illFormed
    else do
      let (head, t) ← readHead (b :: rest)
      let (block, t) ← readBlock head.argument t
      readChunks major fuel (block :: chunks) t

def readTags : (fuel : Nat) → (depth : Nat) → (tags : List Nat) → Bytes →
    Except Error (List Nat × Nat × Bytes)
  | 0, _, _, _ => .error .truncated
  | _ + 1, _, _, [] => .error .truncated
  | fuel + 1, depth, tags, b :: rest =>
    if b.toNat / 32 ≠ 6 then .ok (tags, depth, b :: rest)
    else do
      let (head, t) ← readHead (b :: rest)
      if maxDepth < depth + 1 then throw .tooDeep
      readTags fuel (depth + 1) (head.argument :: tags) t

def readMany (item : Bytes → Except Error (Item × Bytes)) :
    (count : Nat) → (items : List Item) → Bytes → Except Error (List Item × Bytes)
  | 0, items, t => .ok (items.reverse, t)
  | count + 1, items, t =>
    match item t with
    | .error e => .error e
    | .ok (i, t) => readMany item count (i :: items) t

def readUntilBreak (item : Bytes → Except Error (Item × Bytes)) (limit : Nat) (tooMany : Error) :
    (fuel : Nat) → (count : Nat) → (items : List Item) → Bytes → Except Error (List Item × Bytes)
  | 0, _, _, _ => .error .truncated
  | _ + 1, _, _, [] => .error .truncated
  | fuel + 1, count, items, b :: rest =>
    if b = breakByte then .ok (items.reverse, rest)
    else match item (b :: rest) with
      | .error e => .error e
      | .ok (i, t) =>
        if limit < count + 1 then .error tooMany
        else readUntilBreak item limit tooMany fuel (count + 1) (i :: items) t

def pairUp : (pairs : List (Item × Item)) → List Item → Option (List (Item × Item))
  | pairs, [] => some pairs.reverse
  | _, [_] => none
  | pairs, key :: value :: rest => pairUp ((key, value) :: pairs) rest

/-- One item inside `depth` arrays, maps and further tags. `levels` bounds how deep the
reader itself may go: an array or a map takes one level, and a run of tags before it another. -/
def readItem : (levels : Nat) → (depth : Nat) → Bytes → Except Error (Item × Bytes)
  | 0, _, _ => .error .tooDeep
  | levels + 1, depth, t => do
    let (head, rest) ← readHead t
    let indefinite := head.info = 31
    match head.major with
    | 0 => return (.unsigned head.argument, rest)
    | 1 => return (.negative head.argument, rest)
    | 2 =>
      if indefinite then
        let (chunks, rest) ← readChunks 2 (rest.length + 1) [] rest
        return (.bytes chunks, rest)
      let (block, rest) ← readBlock head.argument rest
      return (.bytes [block], rest)
    | 3 =>
      if indefinite then
        let (chunks, rest) ← readChunks 3 (rest.length + 1) [] rest
        return (.text chunks, rest)
      let (block, rest) ← readBlock head.argument rest
      return (.text [block], rest)
    | 4 =>
      if maxDepth < depth + 1 then throw .tooDeep
      if indefinite then
        let (items, rest) ←
          readUntilBreak (readItem levels (depth + 1)) maxLength .tooManyElements (rest.length + 1) 0 [] rest
        return (.array items, rest)
      if lengthBound ≤ head.argument then throw .lengthOverflow
      if maxLength < head.argument then throw .tooManyElements
      let (items, rest) ← readMany (readItem levels (depth + 1)) head.argument [] rest
      return (.array items, rest)
    | 5 =>
      if maxDepth < depth + 1 then throw .tooDeep
      let (items, rest) ←
        if indefinite then
          readUntilBreak (readItem levels (depth + 1)) (2 * maxLength + 1) .tooManyPairs (rest.length + 1) 0 [] rest
        else if lengthBound ≤ head.argument then throw .lengthOverflow
        else if maxLength < head.argument then throw .tooManyPairs
        else readMany (readItem levels (depth + 1)) (2 * head.argument) [] rest
      match pairUp [] items with
      | some pairs => return (.map pairs, rest)
      | none => throw .illFormed
    | 6 =>
      let (tags, depth, rest) ← readTags (rest.length + 1) depth [head.argument] rest
      let (content, rest) ← readItem levels depth rest
      return (tags.foldl (fun i n => .tag n i) content, rest)
    | _ =>
      if 25 ≤ head.info then return (.float, rest)
      return (.simple head.argument, rest)

def parse (t : Bytes) : Except Error Item :=
  if t.isEmpty then .error .emptyInput
  else match readItem maxLevels 0 t with
    | .error e => .error e
    | .ok (item, rest) => if rest.isEmpty then .ok item else .error .trailingBytes

end WordMachine.Cbor

/-!
The canonical form of data items: every head in its shortest form, every length definite.
-/

namespace WordMachine.Cbor.Encode

def bigEndian : (width : Nat) → Nat → Bytes
  | 0, _ => []
  | width + 1, n => (n / Nat.pow 256 width).toUInt8 :: bigEndian width (n % Nat.pow 256 width)

def head (major n : Nat) : Bytes :=
  let start (info : Nat) : UInt8 := (major * 32 + info).toUInt8
  if n < 24 then [start n]
  else if n < 0x100 then start 24 :: bigEndian 1 n
  else if n < 0x10000 then start 25 :: bigEndian 2 n
  else if n < 0x100000000 then start 26 :: bigEndian 4 n
  else start 27 :: bigEndian 8 n

def nat (n : Nat) : Bytes := head 0 n

def int : Int → Bytes
  | .ofNat n => head 0 n
  | .negSucc n => head 1 n

def bytes (t : Bytes) : Bytes := head 2 t.length ++ t

def text (t : Bytes) : Bytes := head 3 t.length ++ t

def array (items : List Bytes) : Bytes := head 4 items.length ++ items.flatten

/-- Pairs in the given order, which is canonical when the encoded keys ascend. -/
def map (pairs : List (Bytes × Bytes)) : Bytes :=
  head 5 pairs.length ++ pairs.flatMap fun (k, v) => k ++ v

def bool (b : Bool) : Bytes := [if b then 0xF5 else 0xF4]

def null : Bytes := [0xF6]

end WordMachine.Cbor.Encode
