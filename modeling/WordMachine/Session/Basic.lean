import WordMachine.Debugger.Run
import WordMachine.Debugger.Basic
import WordMachine.Text.Cells
import WordMachine.Files

/-!
A session: a debugger, the files around it, and a console. The keyboard of the machine and the
prompt read the same standard input, which is the source of the keyboard.
-/

namespace WordMachine

open Text

inductive Sink where
  | nowhere
  | console
  | startFile
  | commandFile
  deriving DecidableEq, Repr

/-- `image` is the file to load when none is named, `last` the command that an empty line
repeats, and `sourceText` the source of the program once it has been read. -/
structure Session where
  debugger : Debugger
  files : Files
  console : Array UInt8 := #[]
  image : Bytes := []
  last : List Bytes := []
  sourceText : Option Bytes := none
  sink : Sink := .nowhere
  startTrace : Option Writer := none
  commandTrace : Option Writer := none

namespace Session

def print (s : Session) (t : Bytes) : Session := { s with console := s.console.appendList t }

def printLine (s : Session) (t : Bytes) : Session := s.print (t ++ "\n")

def note (s : Session) (t : Bytes) : Session := s.print ("gosyn: " ++ t ++ "\n")

theorem print_debugger (s : Session) (t : Bytes) : (s.print t).debugger = s.debugger := rfl

theorem note_debugger (s : Session) (t : Bytes) : (s.note t).debugger = s.debugger := rfl

def stdin (s : Session) : Bytes :=
  match s.debugger.machine.devices.keyboard with
  | some k => k.source
  | none => []

def setStdin (s : Session) (rest : Bytes) : Session :=
  let m := s.debugger.machine
  let devices := { m.devices with keyboard := m.devices.keyboard.map fun k => { k with source := rest } }
  { s with debugger := { s.debugger with machine := { m with devices } } }

def splitLine (t : Bytes) : Bytes × Bytes :=
  let line := t.takeWhile (· ≠ Bytes.newline)
  let rest := t.dropWhile (· ≠ Bytes.newline)
  (line ++ rest.take 1, rest.drop 1)

theorem splitLine_append (t : Bytes) : (splitLine t).1 ++ (splitLine t).2 = t := by
  simp only [splitLine, List.append_assoc, List.take_append_drop, List.takeWhile_append_dropWhile]

/-- What was shown, with the lines of the trace where they belong. `base` is how much had been
shown before. -/
def interleave (line : Traced → Bytes) : (base : Nat) → Bytes → List Traced → Bytes
  | _, shown, [] => shown
  | base, shown, t :: rest =>
    shown.take (t.shown - base) ++ line t ++
      interleave line (max base t.shown) (shown.drop (t.shown - base)) rest

def writeTrace (trace : Option Writer) (f : Files) (lines : List Bytes) : Option Writer × Files :=
  match trace with
  | none => (none, f)
  | some w => let (w, f) := w.write f lines; (some w, f)

/-- Takes over the debugger after a run: what it has shown since goes to the console, and what
it has traced to where the trace goes. -/
def adopt (s : Session) (d : Debugger) : Session :=
  let base := s.debugger.machine.devices.shown.size
  let shown := d.machine.devices.shown.toList.drop base
  let traced := (d.trace.getD #[]).toList
  let s := { s with debugger := { d with trace := d.trace.map fun _ => #[] } }
  match s.sink with
  | .nowhere => s.print shown
  | .console => s.print (interleave d.traceLine base shown traced)
  | .startFile =>
    let (startTrace, files) := writeTrace s.startTrace s.files (traced.map d.traceLine)
    { s with startTrace, files }.print shown
  | .commandFile =>
    let (commandTrace, files) := writeTrace s.commandTrace s.files (traced.map d.traceLine)
    { s with commandTrace, files }.print shown

def run? (s : Session) (limit : Option Nat) (turns : Nat) : Option (Event × Session) :=
  (s.debugger.run? limit turns).map fun (event, d) => (event, s.adopt d)

def setSink (s : Session) (sink : Sink) : Session :=
  { s with sink, debugger := { s.debugger with trace := some #[] } }

def toggleTrace (s : Session) : Session := { s with debugger := s.debugger.toggleTrace }

def closing (trace : Option Writer) (f : Files) : Files :=
  match trace with
  | none => f
  | some w => (w.flush f).2

def closeCommandTrace (s : Session) : Session :=
  { s with files := closing s.commandTrace s.files, commandTrace := none }

def closeStartTrace (s : Session) : Session :=
  { s with files := closing s.startTrace s.files, startTrace := none }

def close (s : Session) : Session := s.closeCommandTrace.closeStartTrace

end Session

end WordMachine
