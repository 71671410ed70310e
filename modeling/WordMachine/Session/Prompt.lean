import WordMachine.Session.Triggers
import WordMachine.Session.Change

/-!
The prompt: it reads a line of the standard input, carries out the command on it, and asks
again. A line without words repeats the last command.
-/

namespace WordMachine.Session

open Text

def report (s : Session) (e : Event) : Session :=
  let s := s.printLine []
  let text := Block.render e.text
  let s := match e.stop with
    | .fault _ => s.note text
    | .stalled _ => (s.printLine text).printLine "Queue more with 'input <text>' and continue"
    | _ => s.printLine text
  match e.stop with
  | .halted | .alreadyHalted => s
  | _ => s.printCurrent

/-- What a command leaves to do: ask again, or end. A run may have found no reason to stop in
the turns it was given, and the offset of a source line may lie before the source. -/
inductive Next where
  | ask
  | quit
  | crash (offset : Int)
  | unfinished
  deriving DecidableEq, Repr

def runAndReport (s : Session) (limit : Option Nat) (turns : Nat) : Session × Next :=
  match s.run? limit turns with
  | some (e, s) => (s.report e, .ask)
  | none => (s, .unfinished)

def step (s : Session) (args : List Bytes) (turns : Nat) : Session × Next :=
  match args with
  | [] => s.runAndReport (Debugger.stepLimit 1) turns
  | [t] =>
    match Rejected.readNat 10 64 t with
    | .ok count => s.runAndReport (Debugger.stepLimit count) turns
    | .error r => (s.note r.message, .ask)
  | _ => (s.note "next [#]", .ask)

inductive Verb where
  | breakpoints | watches | registers | memory | set | write | inspect | stack | jump | disassemble
  | peek | strings | labels | source | load | save | dump | trace | input | resume | step | quit | clear
  deriving DecidableEq, Repr

def Verb.names : List (String × Verb) :=
  [("b", breakpoints), ("bp", breakpoints), ("break", breakpoints), ("breakpoint", breakpoints),
   ("w", watches), ("wp", watches), ("watch", watches),
   ("r", registers), ("reg", registers), ("register", registers), ("registers", registers),
   ("m", memory), ("mem", memory), ("memory", memory),
   ("set", set), ("write", write), ("p", inspect), ("print", inspect), ("stack", stack),
   ("j", jump), ("jmp", jump), ("jump", jump),
   ("d", disassemble), ("dis", disassemble), ("disasm", disassemble),
   ("x", peek), ("peek", peek), ("strings", strings),
   ("l", labels), ("label", labels), ("labels", labels), ("src", source), ("source", source),
   ("load", load), ("reset", load), ("save", save), ("dump", dump),
   ("t", trace), ("trace", trace), ("enable-trace", trace), ("i", input), ("input", input),
   ("c", resume), ("continue", resume),
   ("n", step), ("next", step), ("s", step), ("step", step),
   ("q", quit), ("quit", quit), ("exit", quit), ("clear", clear)]

def perform (s : Session) (verb : Verb) (args : List Bytes) (turns : Nat) : Session × Next :=
  match verb with
  | .breakpoints => (s.breakpoints args, .ask)
  | .watches => (s.watches args, .ask)
  | .registers => (s.registers args, .ask)
  | .memory => (s.memory args, .ask)
  | .set => (s.setMemory args, .ask)
  | .write => (s.write args, .ask)
  | .inspect => (s.inspect args, .ask)
  | .stack => (s.printStack, .ask)
  | .jump => (s.jump args, .ask)
  | .disassemble => (s.disassemble args, .ask)
  | .peek => (s.printCurrent, .ask)
  | .strings => (s.printStrings, .ask)
  | .labels => (s.printLabels args, .ask)
  | .source => let (s, before) := s.source args; (s, before.elim .ask .crash)
  | .load => (s.load args, .ask)
  | .save => (s.save args, .ask)
  | .dump => (s.dump args, .ask)
  | .trace => (s.trace args, .ask)
  | .input => (s.input args, .ask)
  | .resume => s.runAndReport none turns
  | .step => s.step args turns
  | .quit => (s, .quit)
  | .clear => (s.print "\x1b[H\x1b[2J", .ask)

def obey (s : Session) (words : List Bytes) (turns : Nat) : Session × Next :=
  match words with
  | [] => (s, .ask)
  | word :: args =>
    match named? Verb.names word with
    | some verb => s.perform verb args turns
    | none => (s.printLine ("error: '" ++ word ++ "' is not a valid command"), .ask)

def takeLine (s : Session) : Bytes × Session :=
  let (line, rest) := splitLine s.stdin
  (line, s.setStdin rest)

def ask (s : Session) (turns : Nat) : Session × Next :=
  let s := s.print "(dbg) "
  let (line, s) := s.takeLine
  if line.isEmpty then (s.printLine [], .quit)
  else
    let words := Blank.words line
    let words := if words.isEmpty then s.last else words
    { s with last := words }.obey words turns

/-- Rounds until one ends the prompt. Each round takes at least one byte of the input, so there
are no more rounds than it has bytes, and one. -/
def askAll (turns : Nat) : (rounds : Nat) → Session → Session × Next
  | 0, s => (s, .quit)
  | rounds + 1, s =>
    match s.ask turns with
    | (s, .ask) => askAll turns rounds s
    | ended => ended

def prompt (s : Session) (turns : Nat) : Session × Next :=
  let s := s.printCurrent
  askAll turns (s.stdin.length + 1) s

/-- Runs without a prompt until the machine halts or cannot go on. Breakpoints and watches are
reported and passed over. The message of the failure, if it ends with one. -/
def runThrough (turns : Nat) : (rounds : Nat) → Session → Option (Session × Option Bytes)
  | 0, _ => none
  | rounds + 1, s =>
    match s.run? none turns with
    | none => none
    | some (e, s) =>
      match e.stop with
      | .halted | .alreadyHalted => some (s, none)
      | .breakpoint _ _ | .watch _ _ _ _ => runThrough turns rounds (s.note e.text)
      | _ => some (s, some e.text)

end WordMachine.Session
