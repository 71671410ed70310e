/-!
Text is a list of bytes. Sources, labels, messages and input may hold bytes that
are not valid UTF-8, and offsets into them count bytes.
-/

namespace WordMachine

abbrev Bytes := List UInt8

namespace Bytes

def ofString (s : String) : Bytes := s.toList.flatMap String.utf8EncodeChar

instance : Coe String Bytes := ⟨ofString⟩

def ascii (c : Char) : UInt8 := c.toNat.toUInt8

def newline : UInt8 := 10

def space : UInt8 := 32

def isDigit (b : UInt8) : Bool := 48 ≤ b && b ≤ 57

def isLetter (b : UInt8) : Bool := (97 ≤ b && b ≤ 122) || (65 ≤ b && b ≤ 90)

def isHexDigit (b : UInt8) : Bool :=
  isDigit b || (97 ≤ b && b ≤ 102) || (65 ≤ b && b ≤ 70)

def lower (b : UInt8) : UInt8 := if 65 ≤ b && b ≤ 90 then b + 32 else b

def toLower (t : Bytes) : Bytes := t.map lower

/-- The text without one leading `mark`, if it has it. -/
def dropMark (mark : UInt8) : Bytes → Bytes
  | b :: rest => if b = mark then rest else b :: rest
  | [] => []

def trimSuffix (t tail : Bytes) : Bytes :=
  if tail.isSuffixOf t then t.take (t.length - tail.length) else t

def padRight (width : Nat) (t : Bytes) : Bytes :=
  t ++ List.replicate (width - t.length) space

def padLeft (mark : UInt8) (width : Nat) (t : Bytes) : Bytes :=
  List.replicate (width - t.length) mark ++ t

/-- The pieces between occurrences of `mark`; a text without it is one piece. -/
def splitAll (mark : UInt8) : Bytes → List Bytes
  | [] => [[]]
  | b :: rest =>
    if b = mark then [] :: splitAll mark rest
    else match splitAll mark rest with
      | [] => [[b]]
      | piece :: more => (b :: piece) :: more

def join (separator : Bytes) : List Bytes → Bytes
  | [] => []
  | [t] => t
  | t :: more => t ++ separator ++ join separator more

theorem dropMark_cons_self (mark : UInt8) (t : Bytes) : dropMark mark (mark :: t) = t := by
  simp [dropMark]

theorem splitAll_ne_nil (mark : UInt8) (t : Bytes) : splitAll mark t ≠ [] := by
  cases t with
  | nil => simp [splitAll]
  | cons b rest =>
    unfold splitAll
    split
    · simp
    · split <;> simp

end Bytes

end WordMachine
