import WordMachine.Session.Inspect
import WordMachine.Settings

/-!
Commands that change the machine or the files: writing registers and memory, jumping, loading,
saving, queueing input, and turning the trace on and off.
-/

namespace WordMachine.Session

open Text

def readWord (t : Bytes) : Except Bytes UInt16 := (Location.readWord t).mapError Location.Error.message

def changed (s : Session) (d : Except DebugError Debugger) (go : Session → Session) : Session :=
  match d with
  | .ok debugger => go { s with debugger }
  | .error e => s.note e.message

def writeRegister (s : Session) (register value : Bytes) : Session :=
  s.withOk ((Location.readRegister register).mapError Location.Error.message) fun r =>
    s.withOk (readWord value) fun w =>
      s.changed (s.debugger.writeRegister r.val w) fun s =>
        s.printLine (registerCell r w ++ " (" ++ Numeral.decimal w.toNat ++ ")")

def registers (s : Session) (args : List Bytes) : Session :=
  match args with
  | [] => s.printRegisters
  | [register, value] => s.writeRegister register value
  | _ => s.note "register [r# value]"

def setMemory (s : Session) (args : List Bytes) : Session :=
  match args with
  | [t, value] =>
    s.withOk (s.location t) fun addr =>
      s.withOk (readWord value) fun w =>
        s.changed (s.debugger.writeMemory addr w) fun s => s.printMemory addr 1
  | _ => s.note "set [@addr|label] [value]"

def write (s : Session) (args : List Bytes) : Session :=
  match args with
  | [t, value] =>
    if (Location.register? t).isSome then s.writeRegister t value else s.setMemory args
  | _ => s.note "write [r#|@addr|label] [value]"

def jump (s : Session) (args : List Bytes) : Session :=
  match args with
  | [t] =>
    s.withOk (s.location t) fun addr =>
      s.changed (s.debugger.jump addr) fun s =>
        let label := s.debugger.label addr
        let remark : Bytes := if label.isEmpty then [] else " " ++ Block.render ("(" ++ label ++ ")")
        s.printLine ("PC: " ++ Numeral.address addr.toNat ++ remark)
  | _ => s.printLine "jump [@addr|label]"

def loadWith (files : Files) (path : Bytes) (load : Bytes → Except DebugError Debugger) : Except Bytes Debugger :=
  match files.openEntry path with
  | .error e => .error e.message
  | .ok .directory => .error (Path.base path ++ " is not a valid program image")
  | .ok (.file contents) => (load contents).mapError DebugError.message

def load (s : Session) (args : List Bytes) : Session :=
  let path := args.headD s.image
  if 1 < args.length || path.isEmpty then s.note "load [file]"
  else s.withOk (loadWith s.files path s.debugger.load) fun debugger =>
    ({ s with debugger }.printLine ("Loaded " ++ path)).printCurrent

/-- Writes a file; the old one is gone before the new contents are there. -/
def store (s : Session) (path : Bytes) (contents : Bytes × Debugger) (remark : Bytes) : Session :=
  s.withOk ((s.files.write path contents.1).mapError FileError.message) fun files =>
    { s with files, debugger := contents.2 }.printLine (remark ++ " " ++ path)

def save (s : Session) (args : List Bytes) : Session :=
  match args with
  | [path] =>
    match s.debugger.save with
    | .ok saved => s.store path saved "Saved"
    | .error e => s.withOk ((s.files.create path).mapError FileError.message) fun (_, files) =>
      { s with files }.note e.message
  | _ => s.note "save [file]"

def dump (s : Session) (args : List Bytes) : Session :=
  match args with
  | [path] => s.store path (s.debugger.machine.state.dump, s.debugger) "Memory written to"
  | _ => s.note "dump [file]"

def input (s : Session) (args : List Bytes) : Session :=
  let m := s.debugger.machine
  let devices := m.devices.feed (Bytes.join [Bytes.space] args ++ [Bytes.newline])
  let s := { s with debugger := { s.debugger with machine := { m with devices } } }
  s.printLine (Numeral.decimal ((devices.keyboard.map Keyboard.pending).getD 0) ++ " characters queued")

def openTrace (s : Session) (path : Bytes) (sink : Sink) : Except FileError (Option Writer × Session) :=
  if path.isEmpty then .ok (none, s)
  else if path = Settings.console then .ok (none, (s.setSink .console).toggleTrace)
  else (s.files.create path).map fun (place, files) =>
    (some { place }, ({ s with files }.setSink sink).toggleTrace)

def stopTracing (s : Session) : Session := if s.debugger.tracing then s.toggleTrace else s

def tracingText (s : Session) : Session :=
  s.printLine (if s.debugger.tracing then "Trace enabled" else "Trace disabled")

/-- The trace command: without an argument it turns tracing on or off, to the console if no
file of its own is open. -/
def trace (s : Session) (args : List Bytes) : Session :=
  match args with
  | [] =>
    let s := if !s.debugger.tracing && s.commandTrace.isNone then s.setSink .console else s
    s.toggleTrace.tracingText
  | [word] =>
    if word = Bytes.ofString "off" then s.stopTracing.closeCommandTrace.tracingText
    else
      let s := s.closeCommandTrace.stopTracing
      let path := if word = Settings.console then word else s.files.absolute word
      match s.openTrace path .commandFile with
      | .error e => s.note e.message
      | .ok (commandTrace, s) => { s with commandTrace }.tracingText
  | _ => s.note "trace [-|off|file]"

end WordMachine.Session
