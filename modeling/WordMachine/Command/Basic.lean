import WordMachine.Text.Quoted
import WordMachine.Files
import WordMachine.Log

/-!
Flags of a command line. A flag has a long name after two dashes and may have a letter after
one; a switch may be given a truth value with `=`, a text flag takes what follows. Letters can
stand together. What is no flag is an operand, and after `--` everything is.
-/

namespace WordMachine

open Text

structure Flag where
  name : String
  letter : Option Char := none
  takesText : Bool := false
  about : String := ""
  deriving DecidableEq, Repr

namespace Flag

def label (f : Flag) : Bytes :=
  match f.letter with
  | some c => "-" ++ Bytes.ascii c :: (", --" ++ f.name : Bytes)
  | none => "--" ++ f.name

end Flag

inductive FlagError where
  | malformed (arg : Bytes)
  | unknown (name : Bytes)
  | unknownLetter (letters : Bytes)
  | needsText (name : String)
  | letterNeedsText (letters : Bytes)
  | badSwitch (f : Flag) (text : Bytes) (r : Rejected)
  | tooMany (most given : Nat)
  deriving DecidableEq, Repr

namespace FlagError

/-- The character shown for a letter. For a byte beyond ASCII it is the first byte of the
UTF-8 form of the code point with that number. -/
def shownLetter (letters : Bytes) : Bytes :=
  match letters with
  | [] => []
  | b :: _ => Quoted.quoteCode (if b < 0x80 then b.toNat else if b < 0xC0 then 0xC2 else 0xC3)

def message : FlagError → Bytes
  | malformed arg => "bad flag syntax: " ++ arg
  | unknown name => "unknown flag: --" ++ name
  | unknownLetter letters => "unknown shorthand flag: " ++ shownLetter letters ++ " in -" ++ letters
  | needsText name => "flag needs an argument: --" ++ name
  | letterNeedsText letters => "flag needs an argument: " ++ shownLetter letters ++ " in -" ++ letters
  | badSwitch f text r =>
    "invalid argument " ++ Quoted.quote text ++ " for " ++ Quoted.quote f.label ++ " flag: " ++ r.message
  | tooMany most given =>
    "accepts at most " ++ Numeral.decimal most ++ " arg(s), received " ++ Numeral.decimal given

end FlagError

structure CommandLine where
  given : List (String × Bytes) := []
  operands : List Bytes := []
  deriving DecidableEq, Repr

namespace CommandLine

def give (c : CommandLine) (f : Flag) (text : Bytes) : Except FlagError CommandLine :=
  let given := { c with given := (f.name, text) :: c.given }
  if f.takesText then .ok given
  else match Rejected.readSwitch text with
    | .ok _ => .ok given
    | .error r => .error (.badSwitch f text r)

def text (c : CommandLine) (name : String) : Bytes := (c.given.lookup name).getD []

def isOn (c : CommandLine) (name : String) : Bool := (Rejected.readSwitch (c.text name)).toOption.getD false

def dash : UInt8 := 45

def equals : UInt8 := 61

def readLetters (flags : List Flag) (c : CommandLine) : Bytes → Except FlagError (CommandLine × Option Flag)
  | [] => .ok (c, none)
  | b :: rest =>
    if (Bytes.ofString "test.").isPrefixOf (b :: rest) then .ok (c, none)
    else match flags.find? fun f => f.letter.map Bytes.ascii = some b with
      | none => .error (.unknownLetter (b :: rest))
      | some f =>
        if rest.head? = some equals && 1 < rest.length then (c.give f (rest.drop 1)).map (·, none)
        else if !f.takesText then
          match c.give f "true" with
          | .ok c => readLetters flags c rest
          | .error e => .error e
        else if rest.isEmpty then .ok (c, some f)
        else (c.give f rest).map (·, none)

def readName (flags : List Flag) (c : CommandLine) (t : Bytes) : Except FlagError (CommandLine × Option Flag) :=
  let name := t.takeWhile (· ≠ equals)
  if name.isEmpty || name.head? = some dash then .error (.malformed (dash :: dash :: t))
  else match flags.find? fun f => Bytes.ofString f.name = name with
    | none => .error (.unknown name)
    | some f =>
      if name.length < t.length then (c.give f (t.drop (name.length + 1))).map (·, none)
      else if f.takesText then .ok (c, some f)
      else (c.give f "true").map (·, none)

def readFrom (flags : List Flag) (c : CommandLine) : List Bytes → Except FlagError CommandLine
  | [] => .ok c
  | arg :: rest =>
    match arg with
    | 45 :: 45 :: [] => .ok { c with operands := c.operands ++ rest }
    | 45 :: 45 :: t =>
      match readName flags c t with
      | .error e => .error e
      | .ok (c, none) => readFrom flags c rest
      | .ok (c, some f) =>
        match rest with
        | [] => .error (.needsText f.name)
        | text :: rest => (c.give f text).bind fun c => readFrom flags c rest
    | 45 :: b :: t =>
      match readLetters flags c (b :: t) with
      | .error e => .error e
      | .ok (c, none) => readFrom flags c rest
      | .ok (c, some f) =>
        match rest with
        | [] => .error (.letterNeedsText ((f.letter.map Bytes.ascii).toList))
        | text :: rest => (c.give f text).bind fun c => readFrom flags c rest
    | arg => readFrom flags { c with operands := c.operands ++ [arg] } rest

def help (about : String) : Flag := { name := "help", letter := some 'h', about }

/-- Reads the arguments of a command that takes at most `most` operands. A request for help
wins over a wrong number of operands. -/
def read (flags : List Flag) (most : Nat) (args : List Bytes) : Except FlagError CommandLine :=
  match readFrom flags {} args with
  | .error e => .error e
  | .ok c =>
    if !c.isOn "help" && most < c.operands.length then .error (.tooMany most c.operands.length) else .ok c

def listing (flags : List Flag) : Bytes :=
  let head (f : Flag) : Bytes :=
    (if f.letter.isNone then "      " else "  ") ++ f.label ++ (if f.takesText then " string" else "")
  let width := (flags.map fun f => (head f).length).foldl max 0
  flags.flatMap fun f => Bytes.padRight (width + 3) (head f) ++ (f.about ++ "\n" : Bytes)

end CommandLine

/-!
How a command ends: its status, what it has shown, and the files as it leaves them.
-/

/-- `console` holds the standard output and the messages of the command in the order in which
they were written; the records of its log are kept apart. `crash` says what ended the program
before its time. -/
structure CommandResult where
  status : Nat := 0
  console : Bytes := []
  log : List LogRecord := []
  files : Files
  crash : Option Bytes := none
  deriving DecidableEq, Repr

namespace CommandResult

def help (files : Files) (about use : String) (flags : List Flag) : CommandResult where
  console := about ++ "\n\nUsage:\n  " ++ use ++ "\n\nFlags:\n" ++ CommandLine.listing flags
  files := files

end CommandResult

end WordMachine
