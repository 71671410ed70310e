import WordMachine.Text.Utf8

/-!
Tokens of assembly source. At every place the rules are tried in the order they are listed
and the first that matches gives the token, even where a later one would match more.
-/

namespace WordMachine.Assembly

open Text

/-- A place in a source: line and column count from one, the column in characters, and the
offset counts bytes from zero. -/
structure Position where
  line : Nat := 1
  column : Nat := 1
  offset : Nat := 0
  deriving DecidableEq, Repr

def Position.advance (p : Position) (text : Bytes) : Position :=
  if text = [Bytes.newline] then ⟨p.line + 1, 1, p.offset + 1⟩
  else { p with column := p.column + Utf8.count text, offset := p.offset + text.length }

inductive TokenKind where
  | comment | blank | newline | string | character | directive | number | label | name | comma
  deriving DecidableEq, Repr

structure Token where
  kind : TokenKind
  text : Bytes
  position : Position
  deriving DecidableEq, Repr

def Token.isLayout (t : Token) : Bool := t.kind = .comment || t.kind = .blank

def Token.isOperand (t : Token) : Bool :=
  t.kind = .number || t.kind = .character || t.kind = .string || t.kind = .name

namespace Token

def isBlank (b : UInt8) : Bool := b = 32 || b = 9 || b = 13

def isNameStart (b : UInt8) : Bool := Bytes.isLetter b || b = Bytes.ascii '_'

def isNameByte (b : UInt8) : Bool := isNameStart b || Bytes.isDigit b

def spanLength (test : UInt8 → Bool) (t : Bytes) : Nat := (t.takeWhile test).length

/-- The bytes up to and with the closing quote: a backslash takes the byte after it along,
and a newline never stands inside. -/
def quotedLength (quote : UInt8) : Bytes → Option Nat
  | [] => none
  | 92 :: c :: rest => if c = Bytes.newline then none else (quotedLength quote rest).map (· + 2)
  | b :: rest =>
    if b = quote then some 1
    else if b = 92 || b = Bytes.newline then none
    else (quotedLength quote rest).map (· + 1)

def matchLength (kind : TokenKind) (t : Bytes) : Option Nat :=
  match t with
  | [] => none
  | b :: rest =>
    match kind with
    | .comment => if b = Bytes.ascii ';' then some (1 + spanLength (· ≠ Bytes.newline) rest) else none
    | .blank => if isBlank b then some (1 + spanLength isBlank rest) else none
    | .newline => if b = Bytes.newline then some 1 else none
    | .string => if b = 34 then (quotedLength 34 rest).map (· + 1) else none
    | .character =>
      if b = 39 && rest.head? ≠ some 39 then (quotedLength 39 rest).map (· + 1) else none
    | .directive =>
      let letters := spanLength Bytes.isLetter rest
      if b = Bytes.ascii '.' && 0 < letters then some (1 + letters) else none
    | .number =>
      let digits := spanLength Bytes.isDigit t
      let hex := spanLength Bytes.isHexDigit (rest.drop 1)
      if b = Bytes.ascii '0' && (rest.head?.map Bytes.lower = some (Bytes.ascii 'x')) && 0 < hex then
        some (2 + hex)
      else if 0 < digits then some digits
      else none
    | .label =>
      let length := 1 + spanLength isNameByte rest
      if isNameStart b && (t.drop length).head? = some (Bytes.ascii ':') then some (length + 1) else none
    | .name => if isNameStart b then some (1 + spanLength isNameByte rest) else none
    | .comma => if b = Bytes.ascii ',' then some 1 else none

def rules : List TokenKind :=
  [.comment, .blank, .newline, .string, .character, .directive, .number, .label, .name, .comma]

def next? (t : Bytes) : Option (TokenKind × Nat) :=
  rules.findSome? fun kind => (matchLength kind t).map (kind, ·)

structure Stuck where
  position : Position
  rest : Bytes
  deriving DecidableEq, Repr

def scanFrom : (fuel : Nat) → Position → (tokens : List Token) → Bytes → Except Stuck (List Token)
  | _, _, tokens, [] => .ok tokens.reverse
  | 0, p, _, t => .error ⟨p, t⟩
  | fuel + 1, p, tokens, t =>
    match next? t with
    | none => .error ⟨p, t⟩
    | some (kind, length) =>
      let text := t.take length
      scanFrom fuel (p.advance text) (⟨kind, text, p⟩ :: tokens) (t.drop length)

def scan (source : Bytes) : Except Stuck (List Token) := scanFrom source.length {} [] source

end Token

end WordMachine.Assembly
