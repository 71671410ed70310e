import WordMachine.Command.Basic
import WordMachine.Session.Prompt
import WordMachine.Settings
import WordMachine.SymbolTable

/-!
The machine as a command: it gathers the settings of a session, loads an image or a snapshot,
and runs it, on its own or under the prompt.
-/

namespace WordMachine.Command.Runner

open Text

def flags : List Flag :=
  [{ name := "config", letter := some 'c', takesText := true, about := "Session file (TOML)" },
   { name := "debug", letter := some 'd', about := "Runs the machine in a debug CLI" },
   CommandLine.help "help for gosyn",
   { name := "input", letter := some 'i', takesText := true
     about := "File whose contents are fed to the machine before the terminal" },
   { name := "log-level", takesText := true, about := "debug, info, warn or error" },
   { name := "raw", about := "Delivers terminal input one character at a time instead of by line" },
   { name := "snapshot", letter := some 's', takesText := true
     about := "Resumes a saved snapshot instead of loading an image" },
   { name := "symbols", takesText := true
     about := "Symbol table written by gosyn-asm. Defaults to the image name with extension '.syndb' " ++
       "when that file exists" },
   { name := "trace", letter := some 't', takesText := true
     about := "Traces every executed instruction to a file, or '-' for stdout" }]

def absolute (files : Files) (path : Bytes) : Bytes :=
  if path.isEmpty || path = Settings.console then path else files.absolute path

def readSettings (files : Files) (path : Bytes) : Except Bytes Settings :=
  match files.read path with
  | .error e => .error ("cannot read " ++ path ++ ": " ++ e.message)
  | .ok text =>
    match Settings.read text with
    | .error e => .error ("parse error in " ++ path ++ ": " ++ e.message)
    | .ok s => .ok { s with directory := files.absolute (Path.directory path) }

def settings (c : CommandLine) (files : Files) : Except Bytes Settings := do
  let base ← if (c.text "config").isEmpty then .ok {} else readSettings files (c.text "config")
  let input ← if (c.text "input").isEmpty then .ok []
    else (files.read (c.text "input")).mapError FileError.message
  let s := base.merge {
    image := absolute files (c.operands.headD [])
    snapshot := absolute files (c.text "snapshot")
    symbols := absolute files (c.text "symbols")
    trace := absolute files (c.text "trace")
    logLevel := c.text "log-level"
    input }
  match s.level with
  | .ok _ => .ok s
  | .error e => .error e.message

def symbolsPath (s : Settings) (files : Files) : Bytes :=
  let image := s.path s.image
  let beside := Path.withExtension image ".syndb"
  if !s.symbols.isEmpty then s.path s.symbols
  else if !image.isEmpty && files.holds beside then beside
  else []

def readSymbols (files : Files) (path : Bytes) : Except Bytes SymbolTable :=
  match files.read path with
  | .error e => .error e.message
  | .ok bytes =>
    match SymbolTable.decode bytes with
    | .ok t => .ok t
    | .error _ => .error "assembler: unmarshal symtable: cbor: malformed data"

def loadSymbols (s : Session) (path : Bytes) : Session :=
  if path.isEmpty then s
  else match readSymbols s.files path with
    | .ok t => { s with debugger := { s.debugger with symbols := some t } }
    | .error message => (s.note "Error loading symbol file").note message

def loadMachine (s : Settings) (session : Session) : Except Bytes Debugger :=
  let d := session.debugger
  if !s.snapshot.isEmpty then Session.loadWith session.files (s.path s.snapshot) d.loadSnapshot
  else if !(s.path s.image).isEmpty then Session.loadWith session.files (s.path s.image) d.loadImage
  else .error "no image or snapshot given"

def fresh (s : Settings) (stdin : Bytes) (files : Files) : Session :=
  let keyboard : Keyboard := { queue := s.input, source := stdin }
  let machine : Machine := { devices := { keyboard := some keyboard } }
  let debugger : Debugger := { machine, log := { threshold := s.level.toOption } }
  { debugger, files, image := s.path s.image }

def start (s : Settings) (stdin : Bytes) (files : Files) : Session × Option Bytes :=
  let session := fresh s stdin files
  let session := loadSymbols session (symbolsPath s files)
  match loadMachine s session with
  | .error message => (session, some message)
  | .ok debugger =>
    let (debugger, failed) := s.install debugger
    let session := { session with debugger }
    match failed with
    | some e => (session, some e.message)
    | none =>
      match session.openTrace (s.path s.trace) .startFile with
      | .error e => (session, some e.message)
      | .ok (startTrace, session) => ({ session with startTrace }, none)

def finish (s : Session) (failure : Option Bytes) : CommandResult :=
  let s := s.close
  let s := match failure with
    | some message => s.note message
    | none => s
  { status := if failure.isSome then 1 else 0, console := s.console.toList
    log := s.debugger.log.records.toList, files := s.files }

/-- How a session ends in the middle of a command, at an offset before the source. Its traces are
closed all the same. -/
def abandon (s : Session) (offset : Int) : CommandResult :=
  let s := s.close
  { status := 2, console := s.console.toList, log := s.debugger.log.records.toList, files := s.files
    crash := some ("runtime error: slice bounds out of range [" ++ Numeral.signed offset ++ ":]") }

def runSession (s : Session) (underPrompt : Bool) (turns : Nat) : Option CommandResult :=
  if underPrompt then
    match s.prompt turns with
    | (s, .ask) | (s, .quit) => some (finish s none)
    | (s, .crash offset) => some (abandon s offset)
    | (_, .unfinished) => none
  else (s.runThrough turns turns).map fun (s, failure) => finish s failure

def refuse (message : Bytes) (files : Files) : CommandResult :=
  { status := 1, console := "gosyn: " ++ message ++ "\n", files }

/-- Runs the command, with at most `turns` turns of the machine at a time. -/
def run? (args : List Bytes) (stdin : Bytes) (files : Files) (turns : Nat) : Option CommandResult :=
  match CommandLine.read flags 1 args with
  | .error e => some (refuse e.message files)
  | .ok c =>
    if c.isOn "help" then
      some (.help files ("Runs a little endian program image. With --debug the machine starts stopped " ++
        "at address 0 inside the debugger prompt.") "gosyn [flags] [image]" flags)
    else match settings c files with
      | .error message => some (refuse message files)
      | .ok s =>
        match start s stdin files with
        | (session, some message) => some (finish session (some message))
        | (session, none) => runSession session (c.isOn "debug") turns

end WordMachine.Command.Runner

/-!
The names of files that a command may ask for: those on its command line and in its input, and
those that the settings and symbol tables among its files mention.
-/

namespace WordMachine.Command.Reach

open Text

def ofArgument (arg : Bytes) : List Bytes :=
  [arg, arg.drop 2, (arg.dropWhile (· ≠ CommandLine.equals)).drop 1]

def ofContents (files : Files) (place : Place) (contents : Bytes) : List Bytes :=
  let directory := Path.slash :: Bytes.join [Path.slash] place.dropLast
  let mentioned := match Settings.read contents with
    | .ok s => [s.image, s.snapshot, s.symbols, s.trace].map { s with directory }.path
    | .error _ => []
  let sources := match SymbolTable.decode contents with
    | .ok t => [t.source]
    | .error _ => []
  (mentioned ++ sources).map files.absolute

def withAbove (place : Place) : List Place := (List.range (place.length + 1)).map place.take

def places (args : List Bytes) (stdin : Bytes) (files : Files) : List Place :=
  let named := args.flatMap ofArgument ++ Blank.words stdin
  let mentioned := files.entries.flatMap fun (place, e) =>
    match e with
    | .file contents => ofContents files place contents
    | .directory => []
  let names := ((named ++ mentioned).filter fun t => !t.isEmpty).map files.absolute
  let tables := names.map fun t => Path.withExtension t ".syndb"
  (names ++ tables).flatMap fun t => withAbove (Path.parts t)

end WordMachine.Command.Reach
