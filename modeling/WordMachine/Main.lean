import WordMachine.Command.Assembler
import WordMachine.Command.Runner

/-!
The commands at the operating system. The files that a command can reach are read first; then
it runs on them as values, and what it has changed is written back. Under a name that ends in
`-asm` the program is the assembler, and otherwise the machine.
-/

namespace WordMachine.Main

def pathText? (place : Place) : Option String :=
  String.fromUTF8? ⟨(Path.slash :: Bytes.join [Path.slash] place).toArray⟩

def readEntry (place : Place) : IO (Option Entry) := do
  let some path := pathText? place | return none
  try
    return some (.file (← IO.FS.readBinFile path).toList)
  catch
    | .inappropriateType _ 21 _ => return some .directory
    | _ => return none

def gather (places : List Place) (files : Files) : IO Files :=
  places.eraseDups.foldlM (fun files place => do
    if (files.entries.lookup place).isSome then return files
    match ← readEntry place with
    | some e => return files.set place e
    | none => return files) files

partial def readAll (input : IO.FS.Stream) (done : ByteArray) : IO Bytes := do
  let piece ← input.read 65536
  if piece.isEmpty then return done.toList else readAll input (done ++ piece)

def writeBack (old new : Files) : IO Unit :=
  new.entries.forM fun (place, e) => do
    match e, pathText? place with
    | .file contents, some path =>
      if old.entries.lookup place ≠ some e then IO.FS.writeBinFile path ⟨contents.toArray⟩
    | _, _ => return

def turns : Nat := 0x4000000000000000

def run (asAssembler : Bool) (args : List Bytes) (stdin : Bytes) (files : Files) : CommandResult :=
  if asAssembler then Command.Assembler.run args stdin files
  else (Command.Runner.run? args stdin files turns).getD { status := 2, files }

end WordMachine.Main

open WordMachine in
def main (arguments : List String) : IO UInt32 := do
  let args := arguments.map Bytes.ofString
  let stdin ← WordMachine.Main.readAll (← IO.getStdin) .empty
  let workdir := Path.parts (Bytes.ofString (toString (← IO.currentDir)))
  let mut files : Files := { workdir }
  for _ in [0, 1, 2] do
    files ← WordMachine.Main.gather (Command.Reach.places args stdin files) files
  let asAssembler := (toString (← IO.appPath)).endsWith "-asm"
  let result := WordMachine.Main.run asAssembler args stdin files
  WordMachine.Main.writeBack files result.files
  (← IO.getStdout).write ⟨result.console.toArray⟩
  (← IO.getStderr).write ⟨(result.log.flatMap LogRecord.text).toArray⟩
  if let some message := result.crash then
    (← IO.getStderr).write ⟨("panic: " ++ message ++ "\n" : Bytes).toArray⟩
  return result.status.toUInt32
