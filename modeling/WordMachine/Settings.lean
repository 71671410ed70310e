import WordMachine.Toml.Document
import WordMachine.Path
import WordMachine.Log
import WordMachine.Debugger.Basic

/-!
The settings of a session, read from a TOML document and merged in order.
-/

namespace WordMachine

open Text

/-- What a session starts from. Empty texts are settings not given; `directory` is where
relative names start. -/
structure Settings where
  image : Bytes := []
  snapshot : Bytes := []
  symbols : Bytes := []
  breakpoints : List Bytes := []
  watches : List Bytes := []
  trace : Bytes := []
  input : Bytes := []
  logLevel : Bytes := []
  directory : Bytes := []
  deriving DecidableEq, Repr

inductive SettingsError where
  | malformed
  | unknownKey (key : Toml.Key)
  | logLevel (text : Bytes)
  deriving DecidableEq, Repr

def SettingsError.message : SettingsError → Bytes
  | malformed => "toml: malformed document"
  | unknownKey key => "unknown key '" ++ key.text ++ "'"
  | logLevel t => "invalid log-level '" ++ t ++ "'"

namespace Settings

inductive Field where
  | image | snapshot | symbols | breakpoints | watches | trace | input | logLevel
  deriving DecidableEq, Repr

namespace Field

def all : List Field := [image, snapshot, symbols, breakpoints, watches, trace, input, logLevel]

def name : Field → String
  | image => "image"
  | snapshot => "snapshot"
  | symbols => "symbols"
  | breakpoints => "breakpoints"
  | watches => "watches"
  | trace => "trace"
  | input => "input"
  | logLevel => "log-level"

/-- The letter that a character is taken for when case does not matter: the Kelvin sign is a
`k`, the long `s` an `s`. -/
def fold (code : Nat) : Nat :=
  if 65 ≤ code && code ≤ 90 then code + 32
  else if code = 0x212A then 107
  else if code = 0x17F then 115
  else code

def ofName? (t : Bytes) : Option Field :=
  let folded := (Utf8.codes t).map fold
  all.find? fun f => f.name.toList.map Char.toNat = folded

def ofKey? : Toml.Key → Option Field
  | [part] => ofName? part
  | _ => none

end Field

def string? : Toml.Node → Option Bytes
  | .value (.string t) => some t
  | _ => none

def strings? : Toml.Node → Option (List Bytes)
  | .value (.array items) => items.mapM fun
    | .string t => some t
    | _ => none
  | _ => none

def set? (s : Settings) (f : Field) (node : Toml.Node) : Option Settings :=
  match f with
  | .image => (string? node).map ({ s with image := · })
  | .snapshot => (string? node).map ({ s with snapshot := · })
  | .symbols => (string? node).map ({ s with symbols := · })
  | .breakpoints => (strings? node).map ({ s with breakpoints := · })
  | .watches => (strings? node).map ({ s with watches := · })
  | .trace => (string? node).map ({ s with trace := · })
  | .input => (string? node).map ({ s with input := · })
  | .logLevel => (string? node).map ({ s with logLevel := · })

def ofDocument? (d : Toml.Document) : Option Settings :=
  d.root.foldlM (fun s (part, node) =>
    match Field.ofName? part with
    | some f => set? s f node
    | none => some s) {}

def levelOf (t : Bytes) : Except SettingsError Int :=
  if t.isEmpty then .ok LogLevel.warn.rank
  else match LogLevel.readThreshold t with
    | some n => .ok n
    | none => .error (.logLevel t)

def level (s : Settings) : Except SettingsError Int := levelOf s.logLevel

/-- The settings of a document. Its form comes first, then the kinds of its values, then its
first key that is no setting, and last its level. -/
def read (t : Bytes) : Except SettingsError Settings :=
  match (Toml.Document.read t).bind fun d => (ofDocument? d).map fun s => (d, s) with
  | none => .error .malformed
  | some (d, s) =>
    match d.mentioned.find? fun key => (Field.ofKey? key).isNone with
    | some key => .error (.unknownKey key)
    | none => s.level.map fun _ => s

def merge (s newer : Settings) : Settings :=
  let pick (old new : Bytes) : Bytes := if new.isEmpty then old else new
  { s with
    image := pick s.image newer.image
    snapshot := pick s.snapshot newer.snapshot
    symbols := pick s.symbols newer.symbols
    breakpoints := s.breakpoints ++ newer.breakpoints
    watches := s.watches ++ newer.watches
    trace := pick s.trace newer.trace
    input := pick s.input newer.input
    logLevel := pick s.logLevel newer.logLevel }

def console : Bytes := "-"

def path (s : Settings) (name : Bytes) : Bytes :=
  if name.isEmpty || name = console || Path.isAbsolute name then name else Path.join s.directory name

end Settings

/-!
Installing the breakpoints and watches of a session's settings. The first one that cannot be
installed ends it, and those before it stay.
-/

inductive InstallError where
  | breakpointUnknown (location : Bytes)
  | breakpointRefused (location : Bytes) (e : DebugError)
  | watchUnknown (location : Bytes)
  | watchRefused (location : Bytes) (e : DebugError)
  deriving DecidableEq, Repr

def InstallError.message : InstallError → Bytes
  | breakpointUnknown location => "breakpoint: unknown location '" ++ location ++ "'"
  | breakpointRefused location e => "breakpoint " ++ location ++ ": " ++ e.message
  | watchUnknown location => "watch " ++ location ++ ": unknown location '" ++ location ++ "'"
  | watchRefused location e => "watch " ++ location ++ ": " ++ e.message

namespace Settings

def installBreakpoint (d : Debugger) (location : Bytes) : Except InstallError Debugger :=
  match d.locate? location with
  | none => .error (.breakpointUnknown location)
  | some addr =>
    match d.setBreakpoint addr with
    | .ok (_, d) => .ok d
    | .error e => .error (.breakpointRefused location e)

def installWatch (d : Debugger) (location : Bytes) : Except InstallError Debugger :=
  match d.watch? location with
  | none => .error (.watchUnknown location)
  | some (.ok (_, d)) => .ok d
  | some (.error e) => .error (.watchRefused location e)

/-- Installs entries in order: the debugger at the end, and what stopped it, if anything. -/
def installEach (install : Debugger → Bytes → Except InstallError Debugger) (d : Debugger) :
    List Bytes → Debugger × Option InstallError
  | [] => (d, none)
  | entry :: rest =>
    match install d entry with
    | .ok d => installEach install d rest
    | .error e => (d, some e)

def install (s : Settings) (d : Debugger) : Debugger × Option InstallError :=
  match installEach installBreakpoint d s.breakpoints with
  | (d, some e) => (d, some e)
  | (d, none) => installEach installWatch d s.watches

end Settings

end WordMachine
