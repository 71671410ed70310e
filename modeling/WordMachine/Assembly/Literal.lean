import WordMachine.Assembly.Error
import WordMachine.Location

/-!
The values of operands that stand for themselves: numbers, characters, strings and registers.
-/

namespace WordMachine.Assembly

open Text

def isRegisterName : Bytes → Bool
  | r :: digit :: more =>
    (r = Bytes.ascii 'r' || r = Bytes.ascii 'R') && (digit :: more).all Bytes.isDigit
  | _ => false

def operandKind (t : Token) : OperandKind :=
  match t.kind with
  | .number => .literal
  | .character => .character
  | .string => .string
  | .name => if isRegisterName t.text then .register else .label
  | _ => .unknown

def digitsOf (text : Bytes) : Nat × Bytes :=
  match text with
  | z :: x :: digits =>
    if z = Bytes.ascii '0' && Bytes.lower x = Bytes.ascii 'x' then (16, digits) else (10, text)
  | _ => (10, text)

/-- A number up to `limit`. One past 64 bits is reported as the largest of them. -/
def literalValue (limit : Nat) (text : Bytes) : Except Cause UInt16 :=
  let (base, digits) := digitsOf text
  match Numeral.readNat base 64 digits with
  | .ok n => if limit < n then .error (.oversizedLiteral limit n) else .ok n.toUInt16
  | .error .outOfRange => .error (.oversizedLiteral limit 0xFFFFFFFFFFFFFFFF)
  | .error .malformed => .error .invalidLiteral

def literalLimit : Nat := 0x7FFF

def rawLimit : Nat := 0xFFFF

def characterValue (text : Bytes) : Except Cause UInt16 :=
  match (Quoted.unquoteCharacter text).map Utf8.codes with
  | some [code] => if literalLimit < code then .error (.oversizedLiteral literalLimit code) else .ok code.toUInt16
  | _ => .error .invalidLiteral

def stringValue (text : Bytes) : Except Cause (List UInt16) :=
  match (Quoted.unquoteString text).map Utf8.codes with
  | none => .error .invalidString
  | some codes =>
    if codes.any fun code => code = Utf8.replacement || literalLimit < code then .error .invalidString
    else .ok (codes.map Nat.toUInt16)

def registerValue (text : Bytes) : Except Cause UInt16 :=
  match Location.readRegister text with
  | .ok r => .ok r.raw
  | .error _ => .error .invalidRegister

end WordMachine.Assembly
