import WordMachine.Session.Inspect

/-!
Commands on breakpoints and watches. A register stands for a watch of it; any other location is
an address to stop at, or a cell to watch.
-/

namespace WordMachine.Session

open Text

/-- Breakpoints with their indices, which are all as wide as the number of the next but one. -/
def listed (s : Session) (shows : Breakpoint → Bool) : Session :=
  let bs := s.debugger.breakpoints
  let width := (Numeral.decimal (bs.length + 1)).length
  s.print ((bs.zipIdx.filter fun (b, _) => shows b).flatMap fun (b, k) =>
    ("#" ++ Numeral.decimalWide width k ++ ": " ++ b.text ++ "\n" : Bytes))

def breakpointText (s : Session) (k : Nat) : Bytes := (s.debugger.breakpoints[k]?.map Breakpoint.text).getD []

def addTrigger (s : Session) (t : Bytes) : Except Bytes ((Nat × Bool) × Session) :=
  let added := match Location.register? t with
    | some r => (s.debugger.setWatch r.val).mapError DebugError.message
    | none =>
      match s.location t with
      | .ok addr => (s.debugger.setBreakpoint addr).mapError DebugError.message
      | .error message => .error message
  added.map fun (k, debugger) => (k, { s with debugger })

def addWatch (s : Session) (t : Bytes) : Except Bytes ((Nat × Bool) × Session) :=
  match s.debugger.watch? t with
  | none => .error (unknownLocation s.debugger t)
  | some added => (added.mapError DebugError.message).map fun (k, debugger) => (k, { s with debugger })

def breakAdd (s : Session) (t : Bytes) : Session :=
  s.withOk (s.addTrigger t) fun ((k, new), s) =>
    let verb : Bytes := if new then "added" else "exists"
    s.printLine ("Breakpoint " ++ verb ++ " #" ++ Numeral.decimal k ++ " [" ++ s.breakpointText k ++ "]")

def readIndex (args : List Bytes) (usage : Bytes) : Except Bytes Int :=
  match args with
  | [t] => (Rejected.readInt 64 (Bytes.dropMark (Bytes.ascii '#') t)).mapError Rejected.message
  | _ => .error usage

def breakRemove (s : Session) (args : List Bytes) : Session :=
  s.withOk (readIndex args "break remove [#]") fun n =>
    match s.debugger.remove n with
    | .ok debugger => { s with debugger }.printLine ("Breakpoint removed [" ++ Numeral.signed n ++ "]")
    | .error e => s.note e.message

def breakEnable (s : Session) (args : List Bytes) (enabled : Bool) : Session :=
  s.withOk (readIndex args "break [enable|disable] [#]") fun n =>
    match s.debugger.enable n enabled with
    | .ok debugger =>
      let s := { s with debugger }
      s.printLine ("#" ++ Numeral.signed n ++ ": " ++ s.breakpointText n.toNat)
    | .error e => s.note e.message

inductive BreakVerb where
  | add | list | remove | enable | disable | clear
  deriving DecidableEq, Repr

def BreakVerb.names : List (String × BreakVerb) :=
  [("a", add), ("add", add), ("l", list), ("ls", list), ("list", list), ("r", remove), ("rm", remove),
   ("remove", remove), ("e", enable), ("enable", enable), ("d", disable), ("disable", disable),
   ("clear", clear)]

def named? {α : Type} (names : List (String × α)) (word : Bytes) : Option α :=
  (names.find? fun (name, _) => Bytes.ofString name = word).map Prod.snd

/-- The break command. Without a verb it lists, and a lone location is added. -/
def breakpoints (s : Session) (args : List Bytes) : Session :=
  let all (s : Session) : Session := s.listed fun _ => true
  match args with
  | [] => all s
  | word :: args =>
    match named? BreakVerb.names word with
    | some .add =>
      match args with
      | [t] => s.breakAdd t
      | _ => s.note "break add [@addr|r#|label]"
    | some .list => if args.isEmpty then all s else s.note "break list"
    | some .remove => s.breakRemove args
    | some .enable => s.breakEnable args true
    | some .disable => s.breakEnable args false
    | some .clear => { s with debugger := s.debugger.clear }.printLine "Breakpoints reset"
    | none =>
      if args.isEmpty then s.breakAdd word
      else s.note "break [add|list|remove|enable|disable|clear] [@addr|r#|label]"

def watches (s : Session) (args : List Bytes) : Session :=
  match args with
  | [] => s.listed fun b => b.trigger.isWatch
  | [t] =>
    s.withOk (s.addWatch t) fun ((k, new), s) =>
      if new then
        s.printLine ("Watch added #" ++ Numeral.decimal k ++ " [" ++ s.breakpointText k ++ "]")
      else s
  | _ => s.note "watch [r#|@addr|label]"

end WordMachine.Session
