import WordMachine.Text.Bytes

/-!
Characters of a text that may be ill-formed UTF-8. A byte that starts no character
counts as one replacement character of width one.
-/

namespace WordMachine.Text.Utf8

def replacement : Nat := 0xFFFD

/-- The character at the head of a text: its code point, how many bytes it takes,
and whether those bytes spell it. -/
structure Lead where
  code : Nat
  width : Nat
  valid : Bool
  deriving DecidableEq, Repr

def ill : Lead := ⟨replacement, 1, false⟩

def isTail (b : UInt8) : Bool := 0x80 ≤ b && b ≤ 0xBF

def payload (b : UInt8) : Nat := b.toNat % 64

/-- Whether a continuation byte may follow a lead byte directly: overlong forms,
surrogates and code points past U+10FFFF are ruled out here. -/
def admits (lead second : UInt8) : Bool :=
  if lead = 0xE0 then 0xA0 ≤ second && second ≤ 0xBF
  else if lead = 0xED then 0x80 ≤ second && second ≤ 0x9F
  else if lead = 0xF0 then 0x90 ≤ second && second ≤ 0xBF
  else if lead = 0xF4 then 0x80 ≤ second && second ≤ 0x8F
  else isTail second

def lead (b : UInt8) (rest : Bytes) : Lead :=
  if b < 0x80 then ⟨b.toNat, 1, true⟩
  else if 0xC2 ≤ b && b ≤ 0xDF then
    match rest with
    | c :: _ => if isTail c then ⟨b.toNat % 32 * 64 + payload c, 2, true⟩ else ill
    | [] => ill
  else if 0xE0 ≤ b && b ≤ 0xEF then
    match rest with
    | c :: d :: _ =>
      if admits b c && isTail d then
        ⟨(b.toNat % 16 * 64 + payload c) * 64 + payload d, 3, true⟩
      else ill
    | _ => ill
  else if 0xF0 ≤ b && b ≤ 0xF4 then
    match rest with
    | c :: d :: e :: _ =>
      if admits b c && isTail d && isTail e then
        ⟨((b.toNat % 8 * 64 + payload c) * 64 + payload d) * 64 + payload e, 4, true⟩
      else ill
    | _ => ill
  else ill

def scan : Nat → Bytes → List Lead
  | _, [] => []
  | skip + 1, _ :: rest => scan skip rest
  | 0, b :: rest => let c := lead b rest; c :: scan (c.width - 1) rest

def characters (t : Bytes) : List Lead := scan 0 t

def slices : Nat → Bytes → List (Lead × Bytes)
  | _, [] => []
  | skip + 1, _ :: rest => slices skip rest
  | 0, b :: rest =>
    let c := lead b rest
    (c, b :: rest.take (c.width - 1)) :: slices (c.width - 1) rest

def codes (t : Bytes) : List Nat := (characters t).map (·.code)

def count (t : Bytes) : Nat := (characters t).length

def isValid (t : Bytes) : Bool := (characters t).all (·.valid)

def isScalar (code : Nat) : Bool := code < 0xD800 || (0xE000 ≤ code && code < 0x110000)

def encode (code : Nat) : Bytes :=
  if code < 0x80 then [code.toUInt8]
  else if code < 0x800 then [(0xC0 + code / 64).toUInt8, (0x80 + code % 64).toUInt8]
  else if !isScalar code then [0xEF, 0xBF, 0xBD]
  else if code < 0x10000 then
    [(0xE0 + code / 4096).toUInt8, (0x80 + code / 64 % 64).toUInt8, (0x80 + code % 64).toUInt8]
  else
    [(0xF0 + code / 262144).toUInt8, (0x80 + code / 4096 % 64).toUInt8,
      (0x80 + code / 64 % 64).toUInt8, (0x80 + code % 64).toUInt8]

theorem lead_ascii {b : UInt8} (h : b < 0x80) (rest : Bytes) :
    lead b rest = ⟨b.toNat, 1, true⟩ := by
  simp [lead, h]

theorem characters_nil : characters [] = [] := rfl

theorem characters_ascii {b : UInt8} (h : b < 0x80) (rest : Bytes) :
    characters (b :: rest) = ⟨b.toNat, 1, true⟩ :: characters rest := by
  simp [characters, scan, lead_ascii h]

end WordMachine.Text.Utf8

/-!
Sets of code points, given in ascending order by the places at which membership changes. The
first place is that of the first member.
-/

namespace WordMachine.Text

abbrev CodeSet := List Nat

namespace CodeSet

/-- A code point is a member when an odd number of changes lie at or below it. -/
def has (s : CodeSet) (code : Nat) : Bool := ((s.takeWhile (· ≤ code)).length % 2 = 1 : Bool)

end CodeSet

end WordMachine.Text

/-!
White space: the ASCII controls from tab to carriage return, the space, and the other
code points with the Unicode property White_Space.
-/

namespace WordMachine.Text.Blank

def isBlank (code : Nat) : Bool :=
  (9 ≤ code && code ≤ 13) || code == 0x20 || code == 0x85 || code == 0xA0 || code == 0x1680 ||
  (0x2000 ≤ code && code ≤ 0x200A) || code == 0x2028 || code == 0x2029 || code == 0x202F ||
  code == 0x205F || code == 0x3000

def allBlank (t : Bytes) : Bool := (Utf8.codes t).all isBlank

def words (t : Bytes) : List Bytes :=
  ((Utf8.slices 0 t).splitBy fun a b => isBlank a.1.code == isBlank b.1.code).filterMap fun run =>
    match run with
    | [] => none
    | (c, _) :: _ => if isBlank c.code then none else some (run.flatMap (·.2))

end WordMachine.Text.Blank
