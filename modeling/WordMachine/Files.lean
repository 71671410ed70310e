import WordMachine.Path

/-!
Files as a value: what lies where, seen from a working directory. A place is the list of
the names that lead to it from the root.
-/

namespace WordMachine

/-- The names that lead from the root to a file. -/
abbrev Place := List Bytes

inductive Entry where
  | file (contents : Bytes)
  | directory
  deriving DecidableEq, Repr

inductive FileFault where
  | missing
  | isDirectory
  | notDirectory
  | nameTooLong
  | invalidName
  deriving DecidableEq, Repr

def FileFault.text : FileFault → String
  | missing => "no such file or directory"
  | isDirectory => "is a directory"
  | notDirectory => "not a directory"
  | nameTooLong => "file name too long"
  | invalidName => "invalid argument"

structure FileError where
  action : String
  path : Bytes
  fault : FileFault
  deriving DecidableEq, Repr

def FileError.message (e : FileError) : Bytes := e.action ++ " " ++ e.path ++ ": " ++ e.fault.text

structure Files where
  workdir : Place := []
  entries : List (Place × Entry) := []
  deriving DecidableEq, Repr

namespace Files

/-- What lies at a location. The directories above an entry and above the working directory
exist without being listed. -/
def found? (f : Files) (place : Place) : Option Entry :=
  match f.entries.lookup place with
  | some e => some e
  | none =>
    if place.isPrefixOf f.workdir || f.entries.any fun e => place.isPrefixOf e.1 then some .directory else none

def set (f : Files) (place : Place) (e : Entry) : Files :=
  { f with entries := (place, e) :: f.entries.filter fun other => other.1 ≠ place }

theorem found?_set (f : Files) (place : Place) (e : Entry) : (f.set place e).found? place = some e := by
  simp [set, found?]

theorem lookup_filter_ne (entries : List (Place × Entry)) {place other : Place}
    (h : other ≠ place) :
    (entries.filter fun e => e.1 ≠ place).lookup other = entries.lookup other := by
  induction entries with
  | nil => rfl
  | cons e rest ih =>
    rcases e with ⟨p, entry⟩
    by_cases hp : p = place
    · subst hp
      have : (other == p) = false := by simpa using h
      simpa [List.lookup_cons, this] using ih
    · by_cases ho : other == p <;> simp_all [List.lookup_cons]

theorem lookup_set_of_ne (f : Files) (e : Entry) {place other : Place} (h : other ≠ place) :
    (f.set place e).entries.lookup other = f.entries.lookup other := by
  have hb : (other == place) = false := by simpa using h
  simpa [set, List.lookup_cons, hb] using lookup_filter_ne f.entries h

def nameLimit : Nat := 255

def pathLimit : Nat := 4095

/-- Follows parts from a directory: where they lead, and what is there. Only the last part may
lead to nothing. -/
def walk (f : Files) : (place : Place) → List Bytes →
    Except FileFault (Place × Option Entry)
  | place, [] => .ok (place, some .directory)
  | place, part :: rest =>
    if part.isEmpty || part = [Path.dot] then f.walk place rest
    else if part = Path.up then f.walk place.dropLast rest
    else if nameLimit < part.length then .error .nameTooLong
    else
      let next := place ++ [part]
      match f.found? next with
      | some .directory => f.walk next rest
      | some e => if rest.isEmpty then .ok (next, some e) else .error .notDirectory
      | none => if rest.isEmpty then .ok (next, none) else .error .missing

def resolve (f : Files) (path : Bytes) : Except FileFault (Place × Option Entry) :=
  if path.contains 0 then .error .invalidName
  else if path.isEmpty then .error .missing
  else if pathLimit < path.length then .error .nameTooLong
  else f.walk (if Path.isAbsolute path then [] else f.workdir) (Bytes.splitAll Path.slash path)

def openEntry (f : Files) (path : Bytes) : Except FileError Entry :=
  match f.resolve path with
  | .ok (_, some e) => .ok e
  | .ok (_, none) => .error ⟨"open", path, .missing⟩
  | .error fault => .error ⟨"open", path, fault⟩

def read (f : Files) (path : Bytes) : Except FileError Bytes :=
  match f.openEntry path with
  | .ok (.file contents) => .ok contents
  | .ok .directory => .error ⟨"read", path, .isDirectory⟩
  | .error e => .error e

def holds (f : Files) (path : Bytes) : Bool := (f.openEntry path).toOption.isSome

def create (f : Files) (path : Bytes) : Except FileError (Place × Files) :=
  match f.resolve (if (Path.trimSlashes path).isEmpty then path else Path.trimSlashes path) with
  | .error fault => .error ⟨"open", path, fault⟩
  | .ok (_, some .directory) => .error ⟨"open", path, .isDirectory⟩
  | .ok (place, _) =>
    if path.getLast? = some Path.slash then .error ⟨"open", path, .isDirectory⟩
    else .ok (place, f.set place (.file []))

def write (f : Files) (path contents : Bytes) : Except FileError Files :=
  (f.create path).map fun (place, f) => f.set place (.file contents)

/-- Contents with bytes in them from an offset on; a gap before the offset is filled with zeros. -/
def splice (old : Bytes) (offset : Nat) (bytes : Bytes) : Bytes :=
  old.take offset ++ List.replicate (offset - old.length) 0 ++ bytes ++ old.drop (offset + bytes.length)

def writeAt (f : Files) (place : Place) (offset : Nat) (bytes : Bytes) : Files :=
  let old := match f.found? place with
    | some (.file contents) => contents
    | _ => []
  f.set place (.file (splice old offset bytes))

theorem set_set (f : Files) (place : Place) (e e' : Entry) :
    (f.set place e).set place e' = f.set place e' := by
  simp [set, List.filter_filter]

def workdirName (f : Files) : Bytes := Path.slash :: Bytes.join [Path.slash] f.workdir

def absolute (f : Files) (path : Bytes) : Bytes := Path.absolute f.workdirName path

end Files

/-!
Writing a file piece by piece. Small pieces wait in a buffer until there are enough of them; the
file has what went out of the buffer, and the rest once the writer is flushed.
-/

structure Buffer where
  gone : Array UInt8 := #[]
  waiting : Array UInt8 := #[]
  deriving DecidableEq, Repr

namespace Buffer

def capacity : Nat := 4096

def toList (b : Buffer) : Bytes := b.gone.toList ++ b.waiting.toList

/-- Takes more bytes. What fits waits; else the waiting bytes are filled up and go, and a rest
that could not wait goes with them. -/
def push (b : Buffer) (bytes : Bytes) : Buffer :=
  let room := capacity - b.waiting.size
  if bytes.length ≤ room then { b with waiting := b.waiting.appendList bytes }
  else if b.waiting.isEmpty then { b with gone := b.gone.appendList bytes }
  else
    let gone := (b.gone ++ b.waiting).appendList (bytes.take room)
    let rest := bytes.drop room
    if rest.length ≤ capacity then ⟨gone, rest.toArray⟩ else ⟨gone.appendList rest, #[]⟩

end Buffer

structure Writer where
  place : Place
  offset : Nat := 0
  waiting : Array UInt8 := #[]
  deriving DecidableEq, Repr

namespace Writer

def put (w : Writer) (f : Files) (b : Buffer) : Writer × Files :=
  if b.gone.isEmpty then ({ w with waiting := b.waiting }, f)
  else
    ({ w with offset := w.offset + b.gone.size, waiting := b.waiting },
      f.writeAt w.place w.offset b.gone.toList)

def write (w : Writer) (f : Files) (texts : List Bytes) : Writer × Files :=
  w.put f (texts.foldl Buffer.push { waiting := w.waiting })

def flush (w : Writer) (f : Files) : Writer × Files := w.put f { gone := w.waiting }

end Writer

end WordMachine
