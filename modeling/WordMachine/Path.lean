import WordMachine.Text.Bytes

/-!
Names of files, as parts with slashes between them. These are rules on names alone; whether
the files exist does not matter here.
-/

namespace WordMachine.Path

def slash : UInt8 := 47

def dot : UInt8 := 46

def isAbsolute (path : Bytes) : Bool := path.head? = some slash

def up : Bytes := [dot, dot]

/-- One more part on a stack of parts, its top first. A part that leads up takes the part
before it away; at the root it leads nowhere. -/
def push (rooted : Bool) (stack : List Bytes) (part : Bytes) : List Bytes :=
  if part = [] || part = [dot] then stack
  else if part = up then
    match stack with
    | [] => if rooted then [] else [up]
    | top :: rest => if top = up then up :: stack else rest
  else part :: stack

def parts (path : Bytes) : List Bytes :=
  ((Bytes.splitAll slash path).foldl (push (isAbsolute path)) []).reverse

/-- The shortest name with the same meaning; the directory itself is a point. -/
def clean (path : Bytes) : Bytes :=
  let body := Bytes.join [slash] (parts path)
  if isAbsolute path then slash :: body
  else if body.isEmpty then [dot]
  else body

def join (dir path : Bytes) : Bytes :=
  if dir.isEmpty then (if path.isEmpty then [] else clean path)
  else if path.isEmpty then clean dir
  else clean (dir ++ slash :: path)

def lastPart (path : Bytes) : Bytes := (path.reverse.takeWhile (· ≠ slash)).reverse

def beforeLast (path : Bytes) : Bytes := (path.reverse.dropWhile (· ≠ slash)).reverse

def trimSlashes (path : Bytes) : Bytes := (path.reverse.dropWhile (· = slash)).reverse

def base (path : Bytes) : Bytes :=
  if path.isEmpty then [dot]
  else
    let name := lastPart (trimSlashes path)
    if name.isEmpty then [slash] else name

def directory (path : Bytes) : Bytes := clean (beforeLast path)

def extension (path : Bytes) : Bytes :=
  let name := lastPart path
  let tail := name.reverse.takeWhile (· ≠ dot)
  if tail.length < name.length then dot :: tail.reverse else []

def withExtension (path extension : Bytes) : Bytes := Bytes.trimSuffix path (Path.extension path) ++ extension

def absolute (workdir path : Bytes) : Bytes := if isAbsolute path then clean path else join workdir path

theorem lastPart_ne_slash {path : Bytes} {b : UInt8} (h : b ∈ lastPart path) : b ≠ slash := by
  simp only [lastPart, List.mem_reverse] at h
  simpa using List.all_eq_true.1 (@List.all_takeWhile _ (fun b => decide (b ≠ slash)) path.reverse) b h

theorem beforeLast_append_lastPart (path : Bytes) : beforeLast path ++ lastPart path = path := by
  simp only [beforeLast, lastPart, ← List.reverse_append, List.takeWhile_append_dropWhile, List.reverse_reverse]

end WordMachine.Path
