import WordMachine.Command.Basic
import WordMachine.Assembly.Assemble
import WordMachine.Machine.Image
import WordMachine.SymbolTable

/-!
The assembler as a command: it reads one source, writes the image beside it and, on demand,
the symbol table beside the image. A source with errors leaves every file as it was.
-/

namespace WordMachine.Command.Assembler

open Text

def flags : List Flag :=
  [{ name := "debug", letter := some 'd'
     about := "Specifies whether to generate debugging information as a symbol table. The table will " ++
       "use the output filename with extension '.syndb'" },
   CommandLine.help "help for gosyn-asm",
   { name := "out", letter := some 'o', takesText := true
     about := "Specifies a precise name for the output file, overriding the default means of determining it" }]

structure Input where
  name : Bytes
  text : Bytes
  file : Option Bytes
  output : Bytes
  deriving DecidableEq, Repr

def heading (name : Bytes) : Bytes := "\x1b[1m" ++ name ++ ":\x1b[0m"

def Input.line (i : Input) (message : Bytes) : Bytes := heading i.name ++ message ++ "\n"

/-- The source line of an error: from where the line is taken to begin up to its newline; none
where that lies behind the source. -/
def sourceLine? (source : Bytes) (c : Assembly.Cursor) : Option Bytes :=
  if source.length < c.lineByte then none
  else some ((source.drop c.lineByte).takeWhile (· ≠ Bytes.newline))

def underline (c : Assembly.Cursor) : Bytes :=
  Bytes.padLeft Bytes.space (c.byte - c.lineByte + 1) "^" ++ List.replicate (c.size - 1) (Bytes.ascii '~')

def errorText (source : Bytes) (e : Assembly.Error) : Bytes :=
  match sourceLine? source e.cursor with
  | none => e.message
  | some line => e.message ++ "\n" ++ line ++ "\n\x1b[31m" ++ underline e.cursor ++ "\x1b[0m"

def choose (c : CommandLine) (stdin : Bytes) (files : Files) : Except Bytes Input :=
  let output (default : Bytes) : Bytes := if (c.text "out").isEmpty then default else c.text "out"
  match c.operands with
  | [] => .ok ⟨"<stdin>", stdin, none, output "out.bin"⟩
  | path :: _ =>
    match files.openEntry path with
    | .error e => .error e.message
    | .ok .directory => .error (Path.base path ++ " is not a valid assembly file")
    | .ok (.file text) => .ok ⟨Path.base path, text, some path, output (Path.withExtension path ".bin")⟩

/-- Writes the image and, if there is one, the symbol table. What was written before a failure
stays. -/
def store (i : Input) (words : List UInt16) (table : Option SymbolTable) (files : Files) : CommandResult :=
  match files.write i.output (Image.toBytes words) with
  | .error e =>
    { status := 1, console := i.line "Error writing output file" ++ i.line e.message, files }
  | .ok files =>
    match table with
    | none => { files }
    | some t =>
      match files.write (Path.withExtension i.output ".syndb") t.encode with
      | .error e =>
        { status := 1, console := i.line "Error creating symbol table" ++ i.line e.message, files }
      | .ok files => { files }

def freshTable (c : CommandLine) (i : Input) (files : Files) : Option SymbolTable :=
  if c.isOn "debug" then some { source := (i.file.map files.absolute).getD [] } else none

def assemble (c : CommandLine) (i : Input) (files : Files) : CommandResult :=
  let assembled := Assembly.assemble i.text (freshTable c i files)
  match assembled.outcome with
  | .error errors => { status := 1, console := errors.flatMap fun e => i.line (errorText i.text e), files }
  | .ok words => store i words assembled.table files

def refuse (message : Bytes) (files : Files) : CommandResult :=
  { status := 1, console := message ++ "\n", files }

def run (args : List Bytes) (stdin : Bytes) (files : Files) : CommandResult :=
  match CommandLine.read flags 1 args with
  | .error e => refuse e.message files
  | .ok c =>
    if c.isOn "help" then
      .help files ("Assembles source into a little endian program image. Source is read from stdin " ++
        "when stdin is not a terminal.") "gosyn-asm [-debug] [-o outfile] filename [flags]" flags
    else match choose c stdin files with
      | .error message => refuse message files
      | .ok i => assemble c i files

end WordMachine.Command.Assembler
