import WordMachine.Text.Quoted
import WordMachine.Text.Utf8

/-!
Log records, written one a line as `key=value` pairs. A value is quoted when it is empty or
could be mistaken for something else.
-/

namespace WordMachine

open Text

inductive LogValue where
  | text (t : Bytes)
  | number (n : Int)
  deriving DecidableEq, Repr

inductive LogLevel where
  | debug | info | warn
  deriving DecidableEq, Repr

def LogLevel.rank : LogLevel → Int
  | debug => -4
  | info => 0
  | warn => 4

def LogLevel.name : LogLevel → String
  | debug => "DEBUG"
  | info => "INFO"
  | warn => "WARN"

def LogLevel.thresholds : List (String × Int) := [("DEBUG", -4), ("INFO", 0), ("WARN", 4), ("ERROR", 8)]

def LogLevel.upper (code : Nat) : Nat :=
  if 97 ≤ code && code ≤ 122 then code - 32 else if code = 0x131 then 73 else code

/-- A threshold: the name of a level in any case, and a signed distance from it. Thresholds
are 64-bit numbers. -/
def LogLevel.readThreshold (t : Bytes) : Option Int :=
  let isSign (b : UInt8) : Bool := b = 43 || b = 45
  let name := (Utf8.codes (t.takeWhile fun b => !isSign b)).map upper
  let distance := t.dropWhile fun b => !isSign b
  let distance? := if distance.isEmpty then some 0 else (Numeral.readInt 64 distance).toOption
  match thresholds.find? (fun (s, _) => s.toList.map Char.toNat = name), distance? with
  | some (_, rank), some n => some (Int64.ofInt (rank + n)).toInt
  | _, _ => none

structure LogRecord where
  level : LogLevel
  message : String
  fields : List (String × LogValue) := []
  deriving DecidableEq, Repr

namespace LogRecord

def isDelicate (c : Utf8.Lead) : Bool :=
  if c.code < 0x80 then c.code < 0x20 || c.code = 32 || c.code = 61 || c.code = 34
  else c.code = Utf8.replacement || Blank.isBlank c.code || !Printable.isPrintable c.code

def writeText (t : Bytes) : Bytes :=
  if t.isEmpty || (Utf8.characters t).any isDelicate then Quoted.quote t else t

def writeValue : LogValue → Bytes
  | .text t => writeText t
  | .number n => Numeral.signed n

def text (r : LogRecord) : Bytes :=
  let fields := r.fields.flatMap fun (key, value) => (" " ++ key ++ "=" ++ writeValue value : Bytes)
  "level=" ++ r.level.name ++ " msg=" ++ writeText r.message ++ fields ++ "\n"

end LogRecord

/-- A log keeps the records at or above its threshold; without one it keeps none. -/
structure Log where
  threshold : Option Int := none
  records : Array LogRecord := #[]
  deriving DecidableEq, Repr

namespace Log

def accepts (l : Log) (level : LogLevel) : Bool :=
  match l.threshold with
  | some t => t ≤ level.rank
  | none => false

def add (l : Log) (r : LogRecord) : Log :=
  if l.accepts r.level then { l with records := l.records.push r } else l

end Log

end WordMachine
