import WordMachine.Text.Bytes
import WordMachine.Text.Numeral

/-!
Values of a TOML document. Strings and the structure around them are kept; of numbers,
truth values and dates it is enough that they are well formed.
-/

namespace WordMachine.Toml

abbrev Key := List Bytes

inductive Value where
  | string (t : Bytes)
  | array (items : List Value)
  | table (entries : List (Key × Value))
  | scalar
  deriving Repr

inductive Statement where
  | table (key : Key)
  | element (key : Key)
  | assign (key : Key) (value : Value)
  deriving Repr

def isBareByte (b : UInt8) : Bool :=
  Bytes.isLetter b || Bytes.isDigit b || b = Bytes.ascii '_' || b = Bytes.ascii '-'

end WordMachine.Toml

/-!
Numbers, dates and times: how far the text of one reaches, and whether it is well formed.
-/

namespace WordMachine.Toml.Scalar

open Text

inductive Shape where
  | integer
  | float
  | date
  deriving DecidableEq, Repr

def spanLength (test : UInt8 → Bool) (t : Bytes) : Nat := (t.takeWhile test).length

def among (s : String) (b : UInt8) : Bool := (Bytes.ofString s).contains b

def isDecimalByte (b : UInt8) : Bool := Bytes.isDigit b || b = Bytes.ascii '_'

def isFloatByte (b : UInt8) : Bool := Bytes.isDigit b || among "_.-+eE" b

def isDateByte (b : UInt8) : Bool := Bytes.isDigit b || among "-:Tt .Zz+" b

def startsFloat (t : Bytes) : Bool := t.head?.any (among ".eE")

def decimalExtent (t : Bytes) : Shape × Nat :=
  let n := spanLength isDecimalByte t
  let rest := t.drop n
  if startsFloat rest then (.float, n + spanLength isFloatByte rest) else (.integer, n)

def baseDigit? (letter : UInt8) : Option (UInt8 → Bool) :=
  if letter = Bytes.ascii 'x' then some Bytes.isHexDigit
  else if letter = Bytes.ascii 'o' then some fun b => 48 ≤ b && b ≤ 55
  else if letter = Bytes.ascii 'b' then some fun b => b = 48 || b = 49
  else none

def extent (t : Bytes) : Option (Shape × Nat) :=
  let digits := spanLength Bytes.isDigit t
  match t with
  | zero :: letter :: rest =>
    match if zero = 48 then baseDigit? letter else none with
    | some isDigit =>
      if rest.head?.any isDigit then
        some (.integer, 2 + spanLength (fun b => isDigit b || b = Bytes.ascii '_') rest)
      else none
    | none =>
      if 2 ≤ digits || zero ≠ 48 then
        let rest := t.drop digits
        if rest.head?.any (among "-:") then some (.date, digits + spanLength isDateByte rest)
        else some (decimalExtent t)
      else some (decimalExtent t)
  | _ => some (.integer, digits)

def underscoresOk (t : Bytes) : Bool :=
  let (ok, afterDigit) := t.foldl (fun (ok, afterDigit) b =>
    (ok && (b ≠ Bytes.ascii '_' || afterDigit), Bytes.isHexDigit b)) (true, false)
  ok && afterDigit

def hasLeadingZero (t : Bytes) : Bool :=
  match t with
  | a :: b :: rest =>
    (a = 48 && (baseDigit? b).isNone) || (among "+-" a && b = 48 && !rest.isEmpty)
  | _ => false

def splitSign (t : Bytes) : Bool × Bytes :=
  match t with
  | b :: rest => if b = Bytes.ascii '-' then (true, rest) else if b = Bytes.ascii '+' then (false, rest) else (false, t)
  | [] => (false, [])

def integerOk (t : Bytes) : Bool :=
  let plain := t.filter (· ≠ Bytes.ascii '_')
  let (negative, digits) := splitSign plain
  let (base, digits) : Nat × Bytes := match digits with
    | zero :: letter :: rest =>
      if zero = 48 && letter = Bytes.ascii 'x' then (16, rest)
      else if zero = 48 && letter = Bytes.ascii 'o' then (8, rest)
      else if zero = 48 && letter = Bytes.ascii 'b' then (2, rest)
      else (10, digits)
    | _ => (10, digits)
  let limit := if negative then 0x8000000000000000 else 0x7FFFFFFFFFFFFFFF
  underscoresOk t && !hasLeadingZero t && (Numeral.readDigits base limit 0 digits).toOption.isSome

def pointsOk (t : Bytes) : Bool :=
  let (ok, afterPoint) := t.foldl (fun (ok, afterPoint) b =>
    (ok && (!afterPoint || Bytes.isDigit b), b = Bytes.ascii '.')) (true, false)
  ok && !afterPoint

def overflowBound : Nat := Nat.pow 2 1024 - Nat.pow 2 970

/-- Whether `mantissa` times ten to the `exponent` fits in a double precision number. -/
def fits (mantissa : Nat) (exponent : Int) : Bool :=
  let magnitude : Int := (Nat.toDigits 10 mantissa).length + exponent
  if mantissa = 0 || magnitude < 300 then true
  else if 310 < magnitude then false
  else if 0 ≤ exponent then mantissa * Nat.pow 10 exponent.toNat < overflowBound
  else mantissa < overflowBound * Nat.pow 10 (-exponent).toNat

def digitsValue (t : Bytes) : Nat := t.foldl (fun n b => n * 10 + (b.toNat - 48)) 0

/-- The size of an exponent. Its digits count until it has reached this bound. -/
def exponentBound : Nat := 10000

def exponentValue (t : Bytes) : Nat :=
  t.foldl (fun n b => if n < exponentBound then n * 10 + (b.toNat - 48) else n) 0

def decimalFloatOk (t : Bytes) : Bool :=
  let t := (splitSign t).2
  let whole := t.takeWhile Bytes.isDigit
  let rest := t.drop whole.length
  let (fraction, rest) := match rest with
    | b :: more =>
      if b = Bytes.ascii '.' then (more.takeWhile Bytes.isDigit, more.dropWhile Bytes.isDigit) else ([], rest)
    | [] => ([], rest)
  let mantissa := digitsValue (whole ++ fraction)
  match rest with
  | [] => !whole.isEmpty && fits mantissa (-(fraction.length : Int))
  | e :: more =>
    let (negative, digits) := splitSign more
    let size : Int := exponentValue digits
    let exponent := (if negative then -size else size) - fraction.length
    !whole.isEmpty && Bytes.lower e = Bytes.ascii 'e' && !digits.isEmpty && digits.all Bytes.isDigit &&
      fits mantissa exponent

def floatOk (t : Bytes) : Bool :=
  let parts := (t.splitBy fun a b => among ".eE" a == among ".eE" b).filter fun p => !p.any (among ".eE")
  parts.all underscoresOk && !(parts.head?.any hasLeadingZero) && pointsOk t &&
    decimalFloatOk (t.filter (· ≠ Bytes.ascii '_'))

def digits (count : Nat) (t : Bytes) : Option (Nat × Bytes) :=
  let head := t.take count
  if head.length = count && head.all Bytes.isDigit then some (digitsValue head, t.drop count) else none

def after (c : Char) : Bytes → Option Bytes
  | b :: rest => if b = Bytes.ascii c then some rest else none
  | [] => none

def isLeap (year : Nat) : Bool := year % 4 = 0 && (year % 100 ≠ 0 || year % 400 = 0)

def daysIn (year month : Nat) : Nat :=
  if month = 2 then (if isLeap year then 29 else 28)
  else if month = 4 || month = 6 || month = 9 || month = 11 then 30
  else 31

def afterDate (t : Bytes) : Option Bytes := do
  let (year, t) ← digits 4 t
  let (month, t) ← digits 2 (← after '-' t)
  let (day, t) ← digits 2 (← after '-' t)
  if 1 ≤ month && month ≤ 12 && 1 ≤ day && day ≤ daysIn year month then some t else none

def afterTime (t : Bytes) : Option Bytes := do
  let (hour, t) ← digits 2 t
  let (minute, t) ← digits 2 (← after ':' t)
  if 24 ≤ hour || 60 ≤ minute then none
  match after ':' t with
  | none => some t
  | some t =>
    let (second, t) ← digits 2 t
    if 60 ≤ second then none
    match after '.' t with
    | some fraction =>
      if fraction.head?.any Bytes.isDigit then some (fraction.dropWhile Bytes.isDigit) else some t
    | none => some t

def afterZone (t : Bytes) : Option Bytes :=
  match t with
  | b :: rest =>
    if b = Bytes.ascii 'Z' then some rest
    else if among "+-" b then do
      let (hour, rest) ← digits 2 rest
      let (minute, rest) ← digits 2 (← after ':' rest)
      if hour ≤ 24 && minute ≤ 60 then some rest else none
    else none
  | [] => none

def normalDateByte (b : UInt8) : UInt8 :=
  if b = Bytes.ascii 'z' then Bytes.ascii 'Z'
  else if b = Bytes.ascii 't' || b = Bytes.space then Bytes.ascii 'T'
  else b

def dateOk (t : Bytes) : Bool :=
  let t := ((t.reverse.dropWhile (· = Bytes.space)).reverse).map normalDateByte
  match afterDate t with
  | some [] => true
  | some rest =>
    match (after 'T' rest).bind afterTime with
    | some [] => true
    | some rest => afterZone rest = some []
    | none => false
  | none => afterTime t = some []

def special (t : Bytes) : Option Bytes :=
  let word := t.take 3
  if word = Bytes.ofString "inf" || word = Bytes.ofString "nan" then some (t.drop 3) else none

def finish (t : Bytes) : Shape × Nat → Option Bytes
  | (shape, n) =>
    let token := t.take n
    let ok := match shape with
      | .integer => integerOk token
      | .float => floatOk token
      | .date => dateOk token
    if ok then some (t.drop n) else none

def read (t : Bytes) : Option Bytes :=
  match t with
  | [] => none
  | b :: rest =>
    if Bytes.isDigit b then (extent t).bind (finish t)
    else if among "+-" b then
      match special rest with
      | some rest => some rest
      | none =>
        if rest.head?.any Bytes.isDigit then
          let (shape, n) := decimalExtent rest
          if rest.head? = some 48 && (rest.drop 1).head?.any (among "box") then none
          else finish t (shape, n + 1)
        else none
    else special t

end WordMachine.Toml.Scalar
