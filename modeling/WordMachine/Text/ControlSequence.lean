import WordMachine.Text.Bytes

/-!
Control sequences for a terminal. A byte is shown or belongs to a sequence, depending on the
bytes before it; this module follows where in a sequence a text stands.
-/

namespace WordMachine.Text

/-- Where in a control sequence a text stands; `ground` is outside of any. Parameters come
before intermediates, and a final byte ends the sequence; strings run up to a terminator. -/
inductive Phase where
  | ground
  | escape
  | escapeIntermediate
  | sequence
  | parameter
  | intermediate
  | device
  | deviceParameter
  | deviceIntermediate
  | deviceString
  | command
  | message
  deriving DecidableEq, Repr

namespace Phase

def isPlain (b : UInt8) : Bool := 0x20 ≤ b && b ≤ 0x7E

def isLead (b : UInt8) : Bool := 0xC2 ≤ b && b ≤ 0xF4

def holdsText (p : Phase) : Bool := p = deviceString || p = command

/-- Whether a byte begins a character that is shown. Only text inside a string is not. -/
def shows (p : Phase) (b : UInt8) : Bool := !p.holdsText && isLead b

def afterEscape (b : UInt8) : Phase :=
  if b = Bytes.ascii '[' then sequence
  else if b = Bytes.ascii ']' then command
  else if b = Bytes.ascii 'P' then device
  else if b = Bytes.ascii 'X' || b = Bytes.ascii '^' || b = Bytes.ascii '_' then message
  else if b < 0x20 || b = 0x7F then escape
  else if b < 0x30 then escapeIntermediate
  else ground

def afterHigh (b : UInt8) : Phase :=
  if b = 0x90 then device
  else if b = 0x98 || b = 0x9E || b = 0x9F then message
  else if b = 0x9B then sequence
  else if b = 0x9D then command
  else ground

def inSequence (p strayed : Phase) (b : UInt8) : Phase :=
  if b < 0x20 || b = 0x7F then p
  else if b < 0x30 then intermediate
  else if b < 0x40 then strayed
  else ground

def inDevice (p strayed : Phase) (b : UInt8) : Phase :=
  if b < 0x20 || b = 0x7F then p
  else if b < 0x30 then deviceIntermediate
  else if b < 0x40 then strayed
  else deviceString

/-- The phase after a byte. An escape begins anew everywhere but at the head of a device
string, and two of the controls cancel whatever is going on. -/
def next (p : Phase) (b : UInt8) : Phase :=
  if p = device && (b = 0x1B || (8 ≤ b && b ≤ 13)) then deviceString
  else if b = 0x1B then escape
  else if b = 0x18 || b = 0x1A then ground
  else if p.holdsText then if b = 0x9C || (p = command && b = 7) then ground else p
  else if 0x80 ≤ b then afterHigh b
  else match p with
    | ground => ground
    | escape => afterEscape b
    | escapeIntermediate => if b < 0x30 || b = 0x7F then escapeIntermediate else ground
    | sequence => inSequence sequence parameter b
    | parameter => inSequence parameter parameter b
    | intermediate => inSequence intermediate ground b
    | device => inDevice device deviceParameter b
    | deviceParameter => inDevice deviceParameter deviceParameter b
    | deviceIntermediate => inDevice deviceIntermediate deviceString b
    | p => p

end Phase

end WordMachine.Text
