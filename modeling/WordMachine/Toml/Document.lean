import WordMachine.Toml.Reader

/-!
Documents built from statements. A key may be given a meaning once. A table that exists only
because something below it does may still be given its own header, and where such a key was
last known to hold an array it is given a new value.
-/

namespace WordMachine.Toml

/-- What a key stands for. Of an array of tables only the last table can still grow. -/
inductive Node where
  | value (v : Value)
  | table (entries : List (Bytes × Node))
  | tables (items : List (List (Bytes × Node)))

abbrev Entries := List (Bytes × Node)

namespace Entries

def set (part : Bytes) (node : Node) (es : Entries) : Entries :=
  if es.any (·.1 = part) then es.map fun e => if e.1 = part then (part, node) else e
  else es ++ [(part, node)]

/-- Changes the entries of the table at a path, and makes tables for what is missing on the
way. A value in the way refuses. -/
def modifyAt (f : Entries → Option Entries) : Key → Entries → Option Entries
  | [], es => f es
  | part :: path, es =>
    match es.lookup part with
    | none => (modifyAt f path []).map fun t => es.set part (.table t)
    | some (.table t) => (modifyAt f path t).map fun t => es.set part (.table t)
    | some (.tables items) =>
      (modifyAt f path (items.getLast?.getD [])).map fun t => es.set part (.tables (items.dropLast ++ [t]))
    | some (.value _) => none

def find? : Key → Entries → Option Node
  | [], es => some (.table es)
  | part :: path, es =>
    match es.lookup part, path with
    | found, [] => found
    | some (.table t), _ => find? path t
    | some (.tables items), _ => find? path (items.getLast?.getD [])
    | _, _ => none

end Entries

/-- A document in the making. `keys` lists the keys in the order of their mention, the latest
first; `implied` are the tables that nothing has named yet, `arrays` the keys that hold arrays. -/
structure Document where
  root : Entries := []
  keys : List Key := []
  implied : List Key := []
  arrays : List Key := []

namespace Document

def mention (d : Document) (key : Key) : Document := { d with keys := key :: d.keys }

def imply (d : Document) (path : Key) : Document := { d with implied := path :: d.implied }

def name (d : Document) (path : Key) : Document := { d with implied := d.implied.filter (· ≠ path) }

def kindPath (path : Key) : Key :=
  if path.getLast? = some [] && 1 < path.length then path.dropLast else path

def holdsArray (d : Document) (path : Key) : Bool := d.arrays.contains path

def setKind (d : Document) (path : Key) (isArray : Bool) : Document :=
  let others := d.arrays.filter (· ≠ path)
  { d with arrays := if isArray then path :: others else others }

def define (d : Document) (path : Key) (node : Node) : Option Document :=
  let put (d : Document) : Option Document :=
    (d.root.modifyAt (fun es => some (es.set (path.getLast?.getD []) node)) path.dropLast).map
      ({ d with root := · })
  match d.root.find? path with
  | none => put d
  | some _ =>
    if !d.implied.contains path then none
    else if d.holdsArray path then put (d.name path)
    else some (d.name path)

def above (path : Key) : List Key := (List.range path.length).tail.map path.take

def implyAbove (d : Document) (path : Key) : Document :=
  (above path).foldl (fun d p => if (d.root.find? p).isNone then d.imply p else d) d

def openTable (d : Document) (path : Key) : Option Document := (d.implyAbove path).define path (.table [])

def openElement (d : Document) (path : Key) : Option Document :=
  let d := d.implyAbove path
  let part := path.getLast?.getD []
  (d.root.modifyAt (fun es =>
    match es.lookup part with
    | none => some (es.set part (.tables [[]]))
    | some (.tables items) => some (es.set part (.tables (items ++ [[]])))
    | some _ => none) path.dropLast).map ({ d with root := · })

def openDotted (d : Document) (context key : Key) : Option Document :=
  (above key).foldlM (fun d p => (d.imply (context ++ p)).openTable (context ++ p)) d

def crossesArray (d : Document) (context key : Key) : Bool :=
  (above key).any fun p => match d.root.find? (context ++ p) with
    | some (.value (.array _)) => true
    | _ => false

mutual

def assign (d : Document) (path : Key) : Value → Option Document
  | .array items => do
    let d ← assignItems (d.setKind (kindPath path) true) path items
    some ((← d.define path (.value (.array items))).setKind (kindPath path) true)
  | .table entries => do
    let d ← assignEntries (← (d.imply path).openTable path) path entries
    if d.implied.contains path then some ((d.name path).setKind (kindPath path) false) else none
  | v => (d.define path (.value v)).map (·.setKind (kindPath path) false)

def assignItems (d : Document) (path : Key) : List Value → Option Document
  | [] => some d
  | .table entries :: rest => do
    assignItems (← assignEntries (← (d.imply path).openElement path) path entries) path rest
  | .array items :: rest => do assignItems (← assignItems d path items) path rest
  | _ :: rest => assignItems d path rest

def assignEntries (d : Document) (path : Key) : List (Key × Value) → Option Document
  | [] => some d
  | (key, v) :: rest => do
    if d.crossesArray path key then none
    let d ← d.openDotted path key
    assignEntries (← assign (d.mention (path ++ key)) (path ++ key) v) path rest

end

def enter (context : Key) (d : Document) : Statement → Option (Key × Document)
  | .table key => (d.openTable key).map fun d => (key, (d.setKind key false).mention key)
  | .element key => (d.openElement key).map fun d => (key, (d.setKind key false).mention key)
  | .assign key v => do
    let d ← d.openDotted context key
    let d ← (d.mention (context ++ key)).assign (context ++ key) v
    some (context, d)

def ofStatements (ss : List Statement) : Option Document :=
  (ss.foldlM (fun (context, d) s => enter context d s) (([] : Key), ({} : Document))).map Prod.snd

def read (t : Bytes) : Option Document := (Reader.read t).bind ofStatements

def mentioned (d : Document) : List Key := d.keys.reverse

end Document

namespace Key

def escapeByte (b : UInt8) : Bytes :=
  if b = 34 || b = 92 then [92, b]
  else if b = 8 then "\\b"
  else if b = 9 then "\\t"
  else if b = 10 then "\\n"
  else if b = 12 then "\\f"
  else if b = 13 then "\\r"
  else if b < 32 || b = 127 then "\\u" ++ Text.Numeral.hexWide 4 b.toNat
  else [b]

def partText (part : Bytes) : Bytes :=
  if !part.isEmpty && part.all isBareByte then part else "\"" ++ part.flatMap escapeByte ++ "\""

def text (key : Key) : Bytes := Bytes.join "." (key.map partText)

end Key

end WordMachine.Toml
