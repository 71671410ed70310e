import WordMachine.Assembly.Error

/-!
Source lines. A line is any number of labels, then at most one statement: a directive or
an operation with its operands, any two of which may have one comma between them.
-/

namespace WordMachine.Assembly

structure Statement where
  head : Token
  operands : List Token
  deriving DecidableEq, Repr

structure Line where
  start : Position
  labels : List Token
  statement : Option Statement
  deriving DecidableEq, Repr

namespace Line

def unexpected (t : Token) (expectsNewline : Bool) : Error :=
  ⟨.of t.position 1, .unexpectedToken t.text expectsNewline⟩

/-- Operands after the first. A comma that no operand follows is itself the one at fault. -/
def moreOperands : List Token → Except Error (List Token)
  | [] => .ok []
  | t :: rest =>
    if t.isOperand then (moreOperands rest).map (t :: ·)
    else if t.kind = .comma then
      match rest with
      | u :: rest => if u.isOperand then (moreOperands rest).map (u :: ·) else .error (unexpected t true)
      | [] => .error (unexpected t true)
    else .error (unexpected t true)

def readOperands : List Token → Except Error (List Token)
  | [] => .ok []
  | t :: rest =>
    if t.isOperand then (moreOperands rest).map (t :: ·) else .error (unexpected t true)

def readStatement (labels : List Token) : List Token → Except Error (Option Statement)
  | [] => .ok none
  | t :: rest =>
    if t.kind = .directive || t.kind = .name then (readOperands rest).map fun os => some ⟨t, os⟩
    else .error (unexpected t (!labels.isEmpty))

def ofTokens (tokens : List Token) : Except Error Line :=
  let labels := tokens.takeWhile (·.kind = .label)
  let start := match tokens with
    | t :: _ => t.position
    | [] => {}
  (readStatement labels (tokens.dropWhile (·.kind = .label))).map fun s => ⟨start, labels, s⟩

end Line

def splitLines : List Token → List (List Token)
  | tokens => go [] tokens
where
  go : (line : List Token) → List Token → List (List Token)
    | _, [] => []
    | line, t :: rest => if t.kind = .newline then line.reverse :: go [] rest else go (t :: line) rest

def closeLast (source : Bytes) : Bytes :=
  if source.getLast? = some Bytes.newline then source else source ++ [Bytes.newline]

/-- How often the repetitions have matched: the lines so far, and on the line at hand its labels and
the words behind these, of which the head and the first operand are not repeated. -/
structure Tally where
  lines : Nat := 0
  labels : Nat := 0
  words : Nat := 0
  deriving DecidableEq, Repr

namespace Tally

def add (c : Tally) (t : Token) : Tally :=
  match t.kind with
  | .newline => { lines := c.lines + 1 }
  | .label => { c with labels := c.labels + 1 }
  | .comma => c
  | _ => { c with words := c.words + 1 }

def full? (c : Tally) : Option Repetition :=
  if c.lines = repetitionLimit then some .lines
  else if c.labels = repetitionLimit then some .labels
  else if c.words = repetitionLimit + 2 then some .operands
  else none

/-- The repetition that comes to its limit first, and the tokens behind that. -/
def overrun? (c : Tally) : List Token → Option (Repetition × List Token)
  | [] => none
  | t :: rest =>
    match (c.add t).full? with
    | some r => some (r, rest)
    | none => overrun? (c.add t) rest

end Tally

def placeBetween (before : List Token) : (after : List Token) → Position
  | t :: _ => t.position
  | [] => (before.getLast?.map fun t => t.position.advance t.text).getD {}

def readLines (tokens : List Token) : Except Error (List Line) := (splitLines tokens).mapM Line.ofTokens

def closing : Token := ⟨.newline, [Bytes.newline], {}⟩

/-- The lines that tokens make up. Where a repetition comes to its limit nothing more is read, so
that only what stands before can have no place there. -/
def parseTokens (tokens : List Token) : Except Error (List Line) :=
  match Tally.overrun? {} tokens with
  | none => readLines tokens
  | some (r, after) =>
    let before := tokens.take (tokens.length - after.length)
    match readLines (before ++ [closing]) with
    | .error e => .error e
    | .ok _ => .error ⟨.of (placeBetween before after) 1, .overrun r⟩

def parse (source : Bytes) : Except Error (List Line) :=
  match Token.scan (closeLast source) with
  | .error s => .error ⟨.of s.position 1, .noToken s.rest⟩
  | .ok tokens => parseTokens (tokens.filter fun t => !t.isLayout)

end WordMachine.Assembly
