import WordMachine.Assembly.Token
import WordMachine.Text.Quoted

/-!
What can be wrong with a source, and where. A cursor points at the token at fault.
-/

namespace WordMachine.Assembly

open Text

structure Cursor where
  line : Nat
  column : Nat
  byte : Nat
  size : Nat
  deriving DecidableEq, Repr

namespace Cursor

def of (p : Position) (size : Nat) : Cursor := ⟨p.line, p.column, p.offset, max size 1⟩

def ofToken (t : Token) : Cursor := .of t.position t.text.length

/-- The start of the line, counted back from the cursor by one byte a column. -/
def lineByte (c : Cursor) : Nat := c.byte - (c.column - 1)

def text (c : Cursor) : Bytes := Numeral.decimalWide 2 c.line ++ ":" ++ Numeral.decimalWide 2 c.column

end Cursor

inductive OperandKind where
  | unknown
  | register
  | literal
  | character
  | string
  | label
  deriving DecidableEq, Repr

def OperandKind.name : OperandKind → String
  | unknown => "<invalid>"
  | register => "Register"
  | literal => "Literal"
  | character => "Character"
  | string => "String"
  | label => "Label"

/-- The parts of the grammar that may be repeated, as it writes them. -/
inductive Repetition where
  | lines
  | labels
  | operands
  deriving DecidableEq, Repr

def Repetition.form : Repetition → String
  | lines => "SourceLine*"
  | labels => "SourceLabel*"
  | operands => "(\",\"? SourceOperand)*"

/-- A repetition that has matched so often is given up. -/
def repetitionLimit : Nat := 1000000

inductive Cause where
  | noToken (rest : Bytes)
  | unexpectedToken (text : Bytes) (expectsNewline : Bool)
  | overrun (repetition : Repetition)
  | invalidOperand (required : List OperandKind) (received : OperandKind)
  | argumentCount (required received : Nat)
  | invalidLiteral
  | invalidString
  | oversizedLiteral (limit received : Nat)
  | reservedLabel (name : Bytes)
  | redeclaredLabel (name : Bytes)
  | unknownLabel (name : Bytes)
  | unknownIdentifier (name : Bytes)
  | oversizedBinary
  | invalidRegister
  deriving DecidableEq, Repr

namespace Cause

def alternatives (kinds : List OperandKind) : Bytes :=
  match kinds.map fun k => Bytes.ofString k.name with
  | [] => []
  | [a] => a
  | [a, b] => a ++ " or " ++ b
  | names => Bytes.join ", " names.dropLast ++ ", or " ++ names.getLastD []

def sample (rest : Bytes) : Bytes :=
  let codes := Utf8.codes rest
  let shown := if 16 < codes.length then codes.take 16 ++ [46, 46, 46] else codes
  shown.flatMap Utf8.encode

def message : Cause → Bytes
  | noToken rest => "lexer: invalid input text " ++ Quoted.quote (sample rest)
  | unexpectedToken text expectsNewline =>
    "unexpected token " ++ Quoted.quote text ++ (if expectsNewline then " (expected <eol>)" else "")
  | overrun repetition =>
    "too many iterations of " ++ repetition.form ++ " (> " ++ Numeral.decimal repetitionLimit ++ ")"
  | invalidOperand required received =>
    "Invalid operands\n\twant:" ++ alternatives required ++ "\n\thave:" ++ received.name
  | argumentCount required received =>
    "Invalid number of arguments\n\twant:" ++ Numeral.decimal required ++
      "\n\thave:" ++ Numeral.decimal received
  | invalidLiteral => "Invalid numeric literal"
  | invalidString => "Invalid string literal"
  | oversizedLiteral limit received =>
    "Literal exceeds allowed size\n\twant:" ++ Numeral.decimal limit ++
      "\n\thave:" ++ Numeral.decimal received
  | reservedLabel name => "Label '" ++ name ++ "' is a reserved name"
  | redeclaredLabel name => "Redeclaration of label '" ++ name ++ "'"
  | unknownLabel name => "Unknown label '" ++ name ++ "'"
  | unknownIdentifier name => "Unknown identifier '" ++ name ++ "'"
  | oversizedBinary => "Binary exceeds allowed size"
  | invalidRegister => "Invalid register identifier"

def isSyntax : Cause → Bool
  | noToken _ | unexpectedToken _ _ | overrun _ => true
  | _ => false

end Cause

structure Error where
  cursor : Cursor
  cause : Cause
  deriving DecidableEq, Repr

def Error.message (e : Error) : Bytes := e.cursor.text ++ ": " ++ e.cause.message

end WordMachine.Assembly
