import WordMachine.Toml.Scalar
import WordMachine.Text.Utf8

/-!
The statements of a TOML text. Every reader takes the text from where it stands and gives
what it read and what follows, or nothing where the text is not well formed.
-/

namespace WordMachine.Toml.Reader

open Text

def quote : UInt8 := 34

def apostrophe : UInt8 := 39

def backslash : UInt8 := 92

def isBlank (b : UInt8) : Bool := b = 32 || b = 9

def isLineBreak (b : UInt8) : Bool := b = 10 || b = 13

def skipBlank (t : Bytes) : Bytes := t.dropWhile isBlank

def skipComment (t : Bytes) : Bytes :=
  if t.head? = some (Bytes.ascii '#') then t.dropWhile fun b => !isLineBreak b else t

def skipLayout : (fuel : Nat) → Bytes → Bytes
  | 0, t => t
  | fuel + 1, t =>
    let rest := skipComment (t.dropWhile fun b => isBlank b || isLineBreak b)
    if rest.head?.any (fun b => isBlank b || isLineBreak b || b = Bytes.ascii '#') then skipLayout fuel rest
    else rest

/-- Control characters other than tab and line breaks have no place in a document, and a
carriage return only before a newline. -/
def controlsOk : Bytes → Bool
  | [] => true
  | b :: rest =>
    (if b = 13 then rest.head? = some 10 else b = 9 || b = 10 || (32 ≤ b && b ≠ 127)) && controlsOk rest

def codePoint (count : Nat) (t : Bytes) : Option (Bytes × Bytes) :=
  let digits := t.take count
  if digits.length = count && digits.all Bytes.isHexDigit then
    match Numeral.readDigits 16 0x100000000 0 digits with
    | .ok code => if Utf8.isScalar code then some (Utf8.encode code, t.drop count) else none
    | .error _ => none
  else none

def escape : Bytes → Option (Bytes × Bytes)
  | [] => none
  | b :: rest =>
    if b = Bytes.ascii 'b' then some ([8], rest)
    else if b = Bytes.ascii 't' then some ([9], rest)
    else if b = Bytes.ascii 'n' then some ([10], rest)
    else if b = Bytes.ascii 'f' then some ([12], rest)
    else if b = Bytes.ascii 'r' then some ([13], rest)
    else if b = Bytes.ascii 'e' then some ([27], rest)
    else if b = quote || b = backslash then some ([b], rest)
    else if b = Bytes.ascii 'x' then codePoint 2 rest
    else if b = Bytes.ascii 'u' then codePoint 4 rest
    else if b = Bytes.ascii 'U' then codePoint 8 rest
    else none

def basicString : (fuel : Nat) → (done : Bytes) → Bytes → Option (Bytes × Bytes)
  | 0, _, _ => none
  | _ + 1, _, [] => none
  | fuel + 1, done, b :: rest =>
    if b = quote then some (done.reverse, rest)
    else if isLineBreak b then none
    else if b = backslash then
      match escape rest with
      | some (c, rest) => basicString fuel (c.reverse ++ done) rest
      | none => none
    else basicString fuel (b :: done) rest

def literalString (t : Bytes) : Option (Bytes × Bytes) :=
  let body := t.takeWhile fun b => b ≠ apostrophe && !isLineBreak b
  match t.drop body.length with
  | b :: rest => if b = apostrophe then some (body, rest) else none
  | [] => none

/-- The end of a string over several lines, at a run of its marks: up to two of them may
belong to the string. After a backslash that stands for itself a third one may. -/
def closing (mark : UInt8) (afterBackslash : Bool) (t : Bytes) : Option (Option (Bytes × Bytes)) :=
  let run := (t.takeWhile (· = mark)).length
  if run < 3 then some none
  else if run ≤ (if afterBackslash then 6 else 5) then
    some (some (List.replicate (run - 3) mark, t.drop run))
  else none

/-- A string over several lines, after its opening quotes. A backslash at the end of a line
takes the white space after it away. -/
def longString : (fuel : Nat) → (afterBackslash : Bool) → (done : Bytes) → Bytes → Option (Bytes × Bytes)
  | 0, _, _, _ => none
  | _ + 1, _, _, [] => none
  | fuel + 1, afterBackslash, done, b :: rest =>
    if b = quote then
      match closing quote afterBackslash (b :: rest) with
      | none => none
      | some (some (extra, rest)) => some (done.reverse ++ extra, rest)
      | some none => longString fuel false (b :: done) rest
    else if b = backslash then
      let space := rest.takeWhile fun c => isBlank c || isLineBreak c
      if space.any (· = Bytes.newline) then longString fuel false done (rest.drop space.length)
      else match escape rest with
        | some (c, rest') => longString fuel (rest.head? = some backslash) (c.reverse ++ done) rest'
        | none => none
    else longString fuel false (b :: done) rest

def longLiteral : (fuel : Nat) → (done : Bytes) → Bytes → Option (Bytes × Bytes)
  | 0, _, _ => none
  | _ + 1, _, [] => none
  | fuel + 1, done, b :: rest =>
    if b = apostrophe then
      match closing apostrophe false (b :: rest) with
      | none => none
      | some (some (extra, rest)) => some (done.reverse ++ extra, rest)
      | some none => longLiteral fuel (b :: done) rest
    else longLiteral fuel (b :: done) rest

def dropFirstBreak : Bytes → Bytes
  | 10 :: rest => rest
  | 13 :: 10 :: rest => rest
  | t => t

def string (t : Bytes) : Option (Bytes × Bytes) :=
  let fuel := t.length + 1
  match t with
  | 34 :: 34 :: 34 :: rest => longString fuel false [] (dropFirstBreak rest)
  | 34 :: rest => basicString fuel [] rest
  | 39 :: 39 :: 39 :: rest => longLiteral fuel [] (dropFirstBreak rest)
  | 39 :: rest => literalString rest
  | _ => none

def keyPart (t : Bytes) : Option (Bytes × Bytes) :=
  match t with
  | b :: rest =>
    if b = quote then basicString (rest.length + 1) [] rest
    else if b = apostrophe then literalString rest
    else
      let name := t.takeWhile isBareByte
      if name.isEmpty then none else some (name, t.drop name.length)
  | [] => none

def key : (fuel : Nat) → Bytes → Option (Key × Bytes)
  | 0, _ => none
  | fuel + 1, t => do
    let (part, rest) ← keyPart (skipBlank t)
    let rest := skipBlank rest
    if rest.head? = some (Bytes.ascii '.') then
      let (more, rest) ← key fuel (rest.drop 1)
      some (part :: more, rest)
    else some ([part], rest)

def mark (c : Char) : Bytes → Option Bytes
  | b :: rest => if b = Bytes.ascii c then some rest else none
  | [] => none

def truth (t : Bytes) : Option Bytes :=
  if (Bytes.ofString "true").isPrefixOf t then some (t.drop 4)
  else if (Bytes.ofString "false").isPrefixOf t then some (t.drop 5)
  else none

mutual

def value : (fuel : Nat) → Bytes → Option (Value × Bytes)
  | 0, _ => none
  | fuel + 1, t =>
    let t := skipBlank t
    match t with
    | [] => none
    | b :: rest =>
      if b = Bytes.ascii '[' then
        (items fuel [] rest).map fun (vs, rest) => (.array vs, rest)
      else if b = Bytes.ascii '\x7b' then
        (entries fuel [] rest).map fun (es, rest) => (.table es, rest)
      else if b = quote || b = apostrophe then (string t).map fun (s, rest) => (.string s, rest)
      else match truth t with
        | some rest => some (.scalar, rest)
        | none => (Scalar.read t).map fun rest => (.scalar, rest)

def items : (fuel : Nat) → (done : List Value) → Bytes → Option (List Value × Bytes)
  | 0, _, _ => none
  | fuel + 1, done, t =>
    let t := skipLayout t.length t
    if t.head? = some (Bytes.ascii ']') then some (done.reverse, t.drop 1)
    else match value fuel t with
      | none => none
      | some (v, rest) =>
        let rest := skipLayout rest.length rest
        if rest.head? = some (Bytes.ascii ',') then items fuel (v :: done) (rest.drop 1)
        else if rest.head? = some (Bytes.ascii ']') then some ((v :: done).reverse, rest.drop 1)
        else none

def entries : (fuel : Nat) → (done : List (Key × Value)) → Bytes → Option (List (Key × Value) × Bytes)
  | 0, _, _ => none
  | fuel + 1, done, t =>
    let t := skipLayout t.length t
    if t.head? = some (Bytes.ascii '\x7d') then some (done.reverse, t.drop 1)
    else match (key (t.length + 1) t).bind fun (k, rest) => (mark '=' rest).map fun rest => (k, rest) with
      | none => none
      | some (k, rest) =>
        match value fuel rest with
        | none => none
        | some (v, rest) =>
          let rest := skipLayout rest.length rest
          if rest.head? = some (Bytes.ascii ',') then entries fuel ((k, v) :: done) (rest.drop 1)
          else if rest.head? = some (Bytes.ascii '\x7d') then some (((k, v) :: done).reverse, rest.drop 1)
          else none

end

def endOfLine (t : Bytes) : Option Bytes :=
  match skipComment (skipBlank t) with
  | [] => some []
  | b :: rest => if isLineBreak b then some rest else none

def statement (t : Bytes) : Option (Statement × Bytes) :=
  let fuel := t.length + 1
  match t with
  | 91 :: 91 :: rest => do
    let (k, rest) ← key fuel rest
    let rest ← mark ']' rest
    let rest ← mark ']' rest
    some (.element k, rest)
  | 91 :: rest => do
    let (k, rest) ← key fuel rest
    let rest ← mark ']' rest
    some (.table k, rest)
  | t => do
    let (k, rest) ← key fuel t
    let rest ← mark '=' rest
    let (v, rest) ← value fuel rest
    some (.assign k v, rest)

def statements : (fuel : Nat) → (done : List Statement) → Bytes → Option (List Statement)
  | 0, _, _ => none
  | fuel + 1, done, t =>
    match skipLayout t.length t with
    | [] => some done.reverse
    | t =>
      match statement t with
      | none => none
      | some (s, rest) =>
        match endOfLine rest with
        | none => none
        | some rest => statements fuel (s :: done) rest

def dropByteOrderMark : Bytes → Bytes
  | 0xEF :: 0xBB :: 0xBF :: rest => rest
  | 0xFF :: 0xFE :: rest => rest
  | 0xFE :: 0xFF :: rest => rest
  | t => t

def read (document : Bytes) : Option (List Statement) :=
  let t := dropByteOrderMark document
  if Utf8.isValid t && controlsOk t then statements (t.length + 1) [] t else none

end WordMachine.Toml.Reader
