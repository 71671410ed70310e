import WordMachine.Debugger.Basic

/-!
Runs under the debugger. A run is a sequence of turns; each first looks for a reason to stop
before the next instruction, then executes it, then looks for a reason to stop after it.
-/

namespace WordMachine

namespace Debugger

/-- What stays fixed while a run goes on. `skip` is an address whose breakpoint does not stop
the run before its first instruction. -/
structure Plan where
  breakpoints : List Breakpoint
  limit : Option Nat
  skip : Option UInt16
  tracing : Bool

structure Point where
  machine : Machine
  steps : Nat := 0
  traced : Array Traced := #[]

inductive Turn where
  | stop (s : Stop) (p : Point)
  | go (p : Point)

namespace Plan

def addressBreak? (plan : Plan) (addr : UInt16) : Option (Nat × Breakpoint) :=
  (plan.breakpoints.zipIdx.find? fun (b, _) => b.enabled && b.trigger = .address addr).map
    fun (b, k) => (k, b)

def passes (plan : Plan) (steps : Nat) (addr : UInt16) : Bool := steps = 0 && plan.skip = some addr

def stopBefore? (plan : Plan) (steps : Nat) (addr : UInt16) : Option Stop :=
  if plan.limit.any (· ≤ steps) then some .step
  else if plan.passes steps addr then none
  else (plan.addressBreak? addr).map fun (k, b) => .breakpoint k b

def sample (plan : Plan) (s : State) : List (Option UInt16) := plan.breakpoints.map (·.trigger.value? s)

def changed? (plan : Plan) (before : List (Option UInt16)) (s : State) : Option Stop :=
  (plan.breakpoints.zip before).zipIdx.findSome? fun ((b, old), k) =>
    match b.enabled, old, b.trigger.value? s with
    | true, some old, some new => if old = new then none else some (.watch k b old new)
    | _, _, _ => none

def stopAfter? (plan : Plan) (before : List (Option UInt16)) (s : State) : Option Stop :=
  match plan.changed? before s with
  | some stop => some stop
  | none => if s.halted then some .halted else none

def failure (f : Fault) : Stop := if f.isStall then .stalled (.fault f) else .fault (.fault f)

def turn (plan : Plan) : Point → Turn
  | ⟨machine, steps, traced⟩ =>
    let addr := machine.state.program
    match plan.stopBefore? steps addr with
    | some stop => .stop stop ⟨machine, steps, traced⟩
    | none =>
      match machine.state.decode addr with
      | .error f => .stop (.fault (.fault f)) ⟨machine, steps, traced⟩
      | .ok i =>
        let traced := if plan.tracing then traced.push ⟨i, machine.devices.shown.size⟩ else traced
        let before := plan.sample machine.state
        match machine.execute i with
        | .failed f machine => .stop (failure f) ⟨machine, steps, traced⟩
        | .done machine =>
          match plan.stopAfter? before machine.state with
          | some stop => .stop stop ⟨machine, steps + 1, traced⟩
          | none => .go ⟨machine, steps + 1, traced⟩

def run (plan : Plan) : (turns : Nat) → Point → Turn
  | 0, p => .go p
  | turns + 1, p =>
    match plan.turn p with
    | .stop s p => .stop s p
    | .go p => plan.run turns p

end Plan

def close (d : Debugger) (event : Event) (mode : Mode) (resumeAt : Option UInt16) : Debugger :=
  let fields : List (String × LogValue) :=
    [("reason", .text event.stop.reason), ("addr", .number event.addr.toNat)]
  let d := { d with mode, resumeAt }
  match event.stop.error? with
  | some error => d.record .warn "execution stopped" (fields ++ [("error", .text error)])
  | none => d.record .debug "execution stopped" (fields ++ [("steps", .number event.steps)])

/-- Where the next run passes over a breakpoint: where this one stopped on it, or where it
was to pass over it and did not complete an instruction. -/
def resumption (plan : Plan) (start : UInt16) (stop : Stop) (p : Point) : Option UInt16 :=
  match stop with
  | .breakpoint _ _ => some p.machine.state.program
  | .fault _ | .stalled _ | .cancelled => if plan.passes p.steps start then plan.skip else none
  | _ => none

def planFor (d : Debugger) (limit : Option Nat) : Plan :=
  ⟨d.breakpoints, limit, d.resumeAt, d.tracing && d.trace.isSome⟩

def stopAt (d : Debugger) (plan : Plan) (stop : Stop) (p : Point) : Event × Debugger :=
  let event : Event := ⟨stop, p.machine.state.program, p.steps⟩
  let mode := if stop = .halted then Mode.halted else .stopped
  let resumeAt := resumption plan d.program stop p
  let d := { d with machine := p.machine, trace := d.trace.map (· ++ p.traced) }
  (event, d.close event mode resumeAt)

def stopHalted (d : Debugger) : Event × Debugger :=
  let event : Event := ⟨.alreadyHalted, d.program, 0⟩
  (event, d.close event .halted d.resumeAt)

def run? (d : Debugger) (limit : Option Nat) (turns : Nat) : Option (Event × Debugger) :=
  if d.machine.state.halted then some d.stopHalted
  else
    let plan := d.planFor limit
    match plan.run turns ⟨d.machine, 0, #[]⟩ with
    | .stop s p => some (d.stopAt plan s p)
    | .go _ => none

def runFor (d : Debugger) (limit : Option Nat) (turns : Nat) : Event × Debugger :=
  if d.machine.state.halted then d.stopHalted
  else
    let plan := d.planFor limit
    match plan.run turns ⟨d.machine, 0, #[]⟩ with
    | .stop s p => d.stopAt plan s p
    | .go p => d.stopAt plan .cancelled p

def stepLimit (count : Nat) : Option Nat := some (max count 1)

def continue? (d : Debugger) (turns : Nat) : Option (Event × Debugger) := d.run? none turns

def step? (d : Debugger) (count turns : Nat) : Option (Event × Debugger) := d.run? (stepLimit count) turns

end Debugger

end WordMachine
