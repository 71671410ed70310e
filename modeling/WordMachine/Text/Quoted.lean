import WordMachine.Text.Utf8
import WordMachine.Text.Printable
import WordMachine.Text.Numeral

/-!
Quoted text. Writing keeps printable characters and escapes the rest, so that the result
is printable; reading accepts every escape that writing produces and a few more.
-/

namespace WordMachine.Text.Quoted

def backslash : UInt8 := 92

def doubleQuote : UInt8 := 34

def singleQuote : UInt8 := 39

def controlLetter? (code : Nat) : Option Char :=
  match code with
  | 7 => some 'a'
  | 8 => some 'b'
  | 9 => some 't'
  | 10 => some 'n'
  | 11 => some 'v'
  | 12 => some 'f'
  | 13 => some 'r'
  | _ => none

def escape (quote : UInt8) (code : Nat) : Bytes :=
  if code = quote.toNat || code = backslash.toNat then [backslash, code.toUInt8]
  else if Printable.isPrintable code then Utf8.encode code
  else match controlLetter? code with
    | some letter => [backslash, Bytes.ascii letter]
    | none =>
      if code < 0x20 || code = 0x7F then backslash :: Bytes.ascii 'x' :: Numeral.hexWide 2 code
      else if !Utf8.isScalar code then backslash :: Bytes.ascii 'u' :: Numeral.hexWide 4 Utf8.replacement
      else if code < 0x10000 then backslash :: Bytes.ascii 'u' :: Numeral.hexWide 4 code
      else backslash :: Bytes.ascii 'U' :: Numeral.hexWide 8 code

/-- A text in double quotes; a byte that starts no character is written by its number. -/
def quote (t : Bytes) : Bytes :=
  let body := (Utf8.slices 0 t).flatMap fun (c, bytes) =>
    if c.valid then escape doubleQuote c.code
    else backslash :: Bytes.ascii 'x' :: bytes.flatMap fun b => Numeral.hexWide 2 b.toNat
  doubleQuote :: body ++ [doubleQuote]

def quoteCode (code : Nat) : Bytes := singleQuote :: escape singleQuote code ++ [singleQuote]

def fixedDigits (base : Nat) : (count : Nat) → (value : Nat) → Bytes → Option (Nat × Bytes)
  | 0, value, rest => some (value, rest)
  | _ + 1, _, [] => none
  | count + 1, value, b :: rest =>
    match Numeral.digit? b with
    | none => none
    | some d => if d < base then fixedDigits base count (value * base + d) rest else none

def controlOf? (letter : UInt8) : Option UInt8 :=
  if letter = Bytes.ascii 'a' then some 7
  else if letter = Bytes.ascii 'b' then some 8
  else if letter = Bytes.ascii 'f' then some 12
  else if letter = Bytes.ascii 'n' then some 10
  else if letter = Bytes.ascii 'r' then some 13
  else if letter = Bytes.ascii 't' then some 9
  else if letter = Bytes.ascii 'v' then some 11
  else none

/-- The bytes that an escape stands for, read after its backslash. Numbers of bytes
(`\x`, octal) give that byte; code points (`\u`, `\U`) give their UTF-8 form. -/
def unescape (quote : UInt8) : Bytes → Option (Bytes × Bytes)
  | [] => none
  | c :: rest =>
    match controlOf? c with
    | some b => some ([b], rest)
    | none =>
      if c = Bytes.ascii 'x' then
        (fixedDigits 16 2 0 rest).map fun (v, rest) => ([v.toUInt8], rest)
      else if c = Bytes.ascii 'u' || c = Bytes.ascii 'U' then
        match fixedDigits 16 (if c = Bytes.ascii 'u' then 4 else 8) 0 rest with
        | some (v, rest) => if Utf8.isScalar v then some (Utf8.encode v, rest) else none
        | none => none
      else if 48 ≤ c && c ≤ 55 then
        match fixedDigits 8 3 0 (c :: rest) with
        | some (v, rest) => if v ≤ 255 then some ([v.toUInt8], rest) else none
        | none => none
      else if c = backslash || c = quote then some ([c], rest)
      else none

def unquoteOne (quote : UInt8) : Bytes → Option (Bytes × Bytes)
  | [] => none
  | b :: rest =>
    if b = quote || b = Bytes.newline then none
    else if b = backslash then unescape quote rest
    else
      let c := Utf8.lead b rest
      some (Utf8.encode c.code, rest.drop (c.width - 1))

def unquoteBody (quote : UInt8) : (fuel : Nat) → Bytes → Option Bytes
  | 0, _ => none
  | fuel + 1, t =>
    if t = [quote] then some []
    else match unquoteOne quote t with
      | none => none
      | some (c, rest) => (unquoteBody quote fuel rest).map (c ++ ·)

def unquoteString : Bytes → Option Bytes
  | b :: rest => if b = doubleQuote then unquoteBody doubleQuote (rest.length + 1) rest else none
  | [] => none

def unquoteCharacter : Bytes → Option Bytes
  | b :: rest =>
    if b = singleQuote then
      match unquoteOne singleQuote rest with
      | some (c, tail) => if tail = [singleQuote] then some c else none
      | none => none
    else none
  | [] => none

end WordMachine.Text.Quoted

/-!
The message for a text that a reader of numbers or switches turned down.
-/

namespace WordMachine.Text

structure Rejected where
  reader : String
  text : Bytes
  failure : Numeral.Failure
  deriving DecidableEq, Repr

namespace Rejected

def reason : Numeral.Failure → String
  | .malformed => "invalid syntax"
  | .outOfRange => "value out of range"

def message (r : Rejected) : Bytes :=
  "strconv." ++ r.reader ++ ": parsing " ++ Quoted.quote r.text ++ ": " ++ reason r.failure

def readNat (base bits : Nat) (t : Bytes) : Except Rejected Nat :=
  (Numeral.readNat base bits t).mapError fun f => ⟨"ParseUint", t, f⟩

def readInt (bits : Nat) (t : Bytes) : Except Rejected Int :=
  (Numeral.readInt bits t).mapError fun f => ⟨"ParseInt", t, f⟩

def readSwitch (t : Bytes) : Except Rejected Bool :=
  if ["1", "t", "T", "TRUE", "true", "True"].any fun s => t == Bytes.ofString s then .ok true
  else if ["0", "f", "F", "FALSE", "false", "False"].any fun s => t == Bytes.ofString s then .ok false
  else .error ⟨"ParseBool", t, .malformed⟩

end Rejected

end WordMachine.Text
