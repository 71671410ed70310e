import WordMachine.Session.Basic
import WordMachine.Debugger.Listing

/-!
Commands that show the machine: the next instruction, registers, memory, the stack, listings,
labels and source lines. None of them changes the machine.
-/

namespace WordMachine.Session

open Text

def cursorMark : Bytes := "=>"

def printCurrent (s : Session) : Session :=
  match s.debugger.peek with
  | .ok i => s.printLine (cursorMark ++ " " ++ s.debugger.formatInstruction i)
  | .error f => s.note (Block.render f.message)

def unknownLocation (d : Debugger) (t : Bytes) : Bytes :=
  if d.symbols.isNone then "Invalid address '" ++ t ++ "'" else "Unable to find '" ++ t ++ "'"

def locationBy (f : SymbolTable.Finder) (s : Session) (t : Bytes) : Except Bytes UInt16 :=
  match s.debugger.locateBy f t with
  | some addr => .ok addr
  | none => .error (unknownLocation s.debugger t)

def location (s : Session) (t : Bytes) : Except Bytes UInt16 := locationBy .lowest s t

def withOk {α : Type} (s : Session) (value : Except Bytes α) (go : α → Session) : Session :=
  match value with
  | .ok a => go a
  | .error message => s.note message

def registerCell (r : Register) (value : UInt16) : Bytes :=
  "R" ++ Numeral.decimal r.val ++ ": " ++ Numeral.address value.toNat

def registerRow (s : Session) (rs : List Register) : Bytes :=
  rs.flatMap fun r => registerCell r (s.debugger.machine.state.registers.get r) ++ "\t"

def printRegisters (s : Session) : Session :=
  let state := s.debugger.machine.state
  let rs := List.finRange registerCount
  s.print (registerRow s (rs.take 4) ++ "\n" ++ registerRow s (rs.drop 4) ++ "\n" ++
    "PC: " ++ Numeral.address state.program.toNat ++ "\tSP: " ++ Numeral.decimal state.stack.length ++
    "\tMODE: " ++ s.debugger.mode.name ++ "\n")

def memoryRows : (fuel : Nat) → (addr : Nat) → List UInt16 → Bytes
  | 0, _, _ => []
  | fuel + 1, addr, words =>
    if words.isEmpty then []
    else Numeral.address addr ++ ":" ++ ((words.take 8).flatMap fun w => (" " ++ Numeral.hexWide 4 w.toNat : Bytes)) ++
      "\n" ++ memoryRows fuel (addr + 8) (words.drop 8)

def printMemory (s : Session) (addr : UInt16) (count : Int) : Session :=
  match s.debugger.readMemory addr count with
  | .ok words => s.print (memoryRows words.length addr.toNat words)
  | .error e => s.note e.message

def readCount (t : Bytes) : Except Bytes Int := (Rejected.readInt 32 t).mapError Rejected.message

/-- An optional location and an optional count. A number on its own is a count; it is a
location where it has a mark of one. -/
def readRangeBy (f : SymbolTable.Finder) (s : Session) (args : List Bytes) (count : Int) :
    Except Bytes (UInt16 × Int) := do
  let (addr, count) ← match args with
    | [] => .ok (s.debugger.program, count)
    | t :: _ =>
      if t.head? = some (Bytes.ascii '@') || t.any Location.isHexMark then
        (locationBy f s t).map fun addr => (addr, count)
      else match readCount t with
        | .ok n => .ok (s.debugger.program, n)
        | .error _ => (locationBy f s t).map fun addr => (addr, count)
  match args with
  | _ :: t :: _ => (readCount t).map fun n => (addr, n)
  | _ => .ok (addr, count)

def readRange (s : Session) (args : List Bytes) (count : Int) : Except Bytes (UInt16 × Int) :=
  readRangeBy .lowest s args count

def memory (s : Session) (args : List Bytes) : Session :=
  if 2 < args.length then s.note "memory [@addr|label|#] [#]"
  else s.withOk (s.readRange args 8) fun (addr, count) => s.printMemory addr count

def inspect (s : Session) (args : List Bytes) : Session :=
  match args with
  | [t] =>
    match Location.register? t with
    | some r =>
      let value := s.debugger.machine.state.registers.get r
      s.printLine ((Location.Target.register r).text ++ ": " ++ Numeral.decimal value.toNat ++ " (" ++
        Numeral.address value.toNat ++ ")")
    | none =>
      s.withOk (s.location t) fun addr =>
        match s.debugger.readMemory addr 1 with
        | .ok words =>
          let word := words.headD 0
          s.printLine ((Location.Target.address addr).text ++ ": " ++ Numeral.decimal word.toNat ++ " (" ++
            Instruction.formatOperand word ++ ")")
        | .error e => s.note e.message
  | _ => s.note "print [r#|@addr|label]"

def stackLine (value : UInt16) (k : Nat) : Bytes :=
  "#" ++ Numeral.decimal k ++ ": " ++ Numeral.decimal value.toNat ++ " (" ++ Numeral.address value.toNat ++ ")\n"

def printStack (s : Session) : Session :=
  match s.debugger.stack with
  | [] => s.printLine "Stack is empty"
  | stack => s.print (stack.zipIdx.flatMap fun (value, k) => stackLine value k)

def listedText (s : Session) (l : Listed) : Bytes :=
  let label : Bytes := if l.label.isEmpty then [] else Block.render (l.label ++ ":") ++ "\n"
  let marker : Bytes := if l.addr = s.debugger.program then cursorMark else "  "
  label ++ marker ++ " " ++ Numeral.address l.addr.toNat ++ ": " ++ l.text ++ "\n"

def disassemble (s : Session) (args : List Bytes) : Session :=
  if 2 < args.length then s.note "disasm [@addr|label|#] [#]"
  else s.withOk (s.readRange args 10) fun (addr, count) =>
    s.print ((s.debugger.disassemble addr count).flatMap s.listedText)

def printStrings (s : Session) : Session :=
  s.print ((s.debugger.strings.filter fun t => !Blank.allBlank t).flatMap fun t => t ++ "\n")

def noSymbols : Bytes := "No symbol table loaded"

def printLabels (s : Session) (args : List Bytes) : Session :=
  if !args.isEmpty then s.printLine "labels"
  else match s.debugger.symbols with
    | none => s.printLine noSymbols
    | some t =>
      s.print (t.labelMap.flatMap fun (addr, label) =>
        ("[" ++ Numeral.address addr.toNat ++ "] " ++ label ++ "\n" : Bytes))

def sourceLines (text : Bytes) (count : Int) : Bytes :=
  ((Bytes.splitAll Bytes.newline text).take count.toNat).zipIdx.flatMap fun (line, k) =>
    ((if k = 0 then cursorMark else "  ") ++ " " ++ line ++ "\n" : Bytes)

/-- The source text from a recorded offset on; none if the offset lies before the text. -/
def sourceFrom? (text : Bytes) (offset : Int) : Option Bytes :=
  if offset < 0 then none else some (text.drop offset.toNat)

def loadSource (s : Session) (path : Bytes) : Except FileError (Bytes × Session) :=
  match s.sourceText with
  | some text => .ok (text, s)
  | none => (s.files.read path).map fun text => (text, { s with sourceText := some text })

/-- Shows the source lines behind an address. The offset that the symbol table gives comes back where
it lies before the source text: nothing can be shown for it, and the program ends there. -/
def sourceBy (f : SymbolTable.Finder) (s : Session) (args : List Bytes) : Session × Option Int :=
  if 2 < args.length then (s.note "source [@addr|label|#] [#]", none)
  else match s.debugger.symbols with
    | none => (s.printLine noSymbols, none)
    | some t =>
      if t.source.isEmpty then (s.printLine noSymbols, none)
      else match s.loadSource t.source with
        | .error e => ((s.note "Error loading source file").note e.message, none)
        | .ok (text, s) =>
          match readRangeBy f s args 3 with
          | .error message => (s.note message, none)
          | .ok (addr, count) =>
            match t.offset? addr with
            | none => (s.printLine ("No source for " ++ Numeral.address addr.toNat), none)
            | some offset =>
              if (text.length : Int) ≤ offset then
                (s.printLine ("No source for " ++ Numeral.address addr.toNat), none)
              else match sourceFrom? text offset with
                | none => (s, some offset)
                | some rest => (s.print (sourceLines rest count), none)

def source (s : Session) (args : List Bytes) : Session × Option Int := sourceBy .lowest s args

end WordMachine.Session
