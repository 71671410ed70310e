import WordMachine.Proofs.Debugger.FirstStop
import WordMachine.Proofs.InPlace.Step
import WordMachine.Proofs.Machine.Effects

/-! Where the bytes of the input go. What happens to the input is a history: text comes to the
source or is queued, lines are taken off the source, bytes are delivered, and a delivery finds
nothing. A ledger keeps the books of a history without looking at a keyboard. A keyboard that goes
through a history balances with its ledger, so every delivery is of the byte that is due; and the
words that a run of the machine reads are the deliveries of its keyboard. -/

namespace WordMachine

/-- What happens to the input. A delivery is seen as the word in the register that it comes to. -/
inductive Intake where
  | arrived (t : Bytes)
  | line (t : Bytes)
  | queued (t : Bytes)
  | delivered (word : UInt16)
  | stalled
  deriving DecidableEq, Repr

namespace Intake

def queuedText : Intake → Bytes
  | .queued t => t
  | _ => []

def arrivedText : Intake → Bytes
  | .arrived t => t
  | _ => []

end Intake

/-- The bytes that wait in the queue, all bytes that the source has had, and those taken off it, in
the order in which they were taken. -/
structure Ledger where
  queue : Bytes
  source : Bytes
  taken : Bytes := []
  deriving DecidableEq, Repr

namespace Ledger

def enter (l : Ledger) : Intake → Ledger
  | .arrived t => { l with source := l.source ++ t }
  | .line t => { l with taken := l.taken ++ t }
  | .queued t => { l with queue := l.queue ++ t }
  | .delivered word =>
    match l.queue with
    | [] => { l with taken := l.taken ++ [word.toUInt8] }
    | _ :: rest => { l with queue := rest }
  | .stalled => l

def after (l : Ledger) (h : List Intake) : Ledger := h.foldl enter l

def due? (l : Ledger) : Option UInt8 :=
  match l.queue with
  | b :: _ => some b
  | [] => (l.source.drop l.taken.length).head?

@[simp] theorem after_nil (l : Ledger) : l.after [] = l := rfl

@[simp] theorem after_cons (l : Ledger) (x : Intake) (h : List Intake) :
    l.after (x :: h) = (l.enter x).after h := rfl

theorem after_append (l : Ledger) (h h' : List Intake) : l.after (h ++ h') = (l.after h).after h' :=
  List.foldl_append

theorem queue_after {l : Ledger} {h : List Intake} (none : ∀ word, .delivered word ∉ h) :
    (l.after h).queue = l.queue ++ h.flatMap Intake.queuedText := by
  induction h generalizing l with
  | nil => simp
  | cons x h ih =>
    have none' : ∀ word, .delivered word ∉ h := fun word mem => none word (.tail x mem)
    rw [after_cons, ih none', List.flatMap_cons, ← List.append_assoc]
    cases x with
    | delivered word => exact absurd (.head h) (none word)
    | arrived | line | stalled | queued => simp [enter, Intake.queuedText]

theorem source_after (l : Ledger) (h : List Intake) :
    (l.after h).source = l.source ++ h.flatMap Intake.arrivedText := by
  induction h generalizing l with
  | nil => simp
  | cons x h ih =>
    rw [after_cons, ih, List.flatMap_cons, ← List.append_assoc]
    cases x with
    | delivered word =>
      obtain ⟨_ | ⟨b, rest⟩, source, taken⟩ := l <;> simp [enter, Intake.arrivedText]
    | arrived | line | stalled | queued => simp [enter, Intake.arrivedText]

theorem due?_of_queue {l : Ledger} (filled : l.queue ≠ []) : l.due? = l.queue.head? := by
  obtain ⟨b, rest, queue⟩ := List.exists_cons_of_ne_nil filled
  simp only [due?, queue, List.head?_cons]

end Ledger

/-- A history in order. What has been taken off the source is at all times how it begins, and each
delivery is of the byte that is due. A delivery that finds nothing comes when nothing waits anywhere,
and the next one is of the first byte that has been queued in between, if one has. -/
structure Ledger.InOrder (start : Ledger) (h : List Intake) : Prop where
  taken : ∀ before later, h = before ++ later → (start.after before).taken <+: (start.after before).source
  delivered : ∀ before word later, h = before ++ .delivered word :: later →
    (start.after before).due?.map UInt8.toUInt16 = some word
  stalled : ∀ before later, h = before ++ .stalled :: later →
    (start.after before).queue = [] ∧ (start.after before).taken = (start.after before).source
  resumed : ∀ before between word later, h = before ++ .stalled :: between ++ .delivered word :: later →
    (∀ other, .delivered other ∉ between) → between.flatMap Intake.queuedText ≠ [] →
    (between.flatMap Intake.queuedText).head?.map UInt8.toUInt16 = some word

namespace Keyboard

inductive Takes : Keyboard → Intake → Keyboard → Prop
  | arrived (k : Keyboard) (t : Bytes) : Takes k (.arrived t) { k with source := k.source ++ t }
  | line {k : Keyboard} {t rest : Bytes} (there : k.source = t ++ rest) :
      Takes k (.line t) { k with source := rest }
  | queued (k : Keyboard) (t : Bytes) : Takes k (.queued t) (k.feed t)
  | delivered {k k' : Keyboard} {b : UInt8} (read : k.read = .ok (b, k')) :
      Takes k (.delivered b.toUInt16) k'
  | stalled {k : Keyboard} {e : DeviceFailure} (read : k.read = .error e) : Takes k .stalled k

inductive Follows : Keyboard → List Intake → Keyboard → Prop
  | nil (k : Keyboard) : Follows k [] k
  | cons {k k₁ k' : Keyboard} {x : Intake} {h : List Intake} (first : Takes k x k₁)
      (rest : Follows k₁ h k') : Follows k (x :: h) k'

variable {k k' k'' : Keyboard} {x : Intake} {h h' : List Intake}

theorem Takes.follows (takes : k.Takes x k') : k.Follows [x] k' := .cons takes (.nil k')

theorem Follows.append (first : k.Follows h k') (rest : k'.Follows h' k'') :
    k.Follows (h ++ h') k'' := by
  induction first with
  | nil _ => exact rest
  | cons takes _ ih => exact .cons takes (ih rest)

theorem Follows.split (follows : k.Follows (h ++ h') k') : ∃ k₁, k.Follows h k₁ ∧ k₁.Follows h' k' := by
  induction h generalizing k with
  | nil => exact ⟨k, .nil k, follows⟩
  | cons x h ih =>
    cases follows with
    | cons takes rest =>
      obtain ⟨k₁, front, back⟩ := ih rest
      exact ⟨k₁, .cons takes front, back⟩

structure Balances (k : Keyboard) (l : Ledger) : Prop where
  queue : l.queue = k.queue
  source : l.taken ++ k.source = l.source

theorem read_ok {b : UInt8} (read : k.read = .ok (b, k')) :
    k.queue = b :: k'.queue ∧ k'.source = k.source ∨
      k.queue = [] ∧ k'.queue = [] ∧ k.source = b :: k'.source := by
  unfold Keyboard.read at read
  split at read
  · next queue =>
    obtain ⟨rfl, rfl⟩ := Prod.mk.inj (Except.ok.inj read)
    exact .inl ⟨queue, rfl⟩
  · next queue source =>
    obtain ⟨rfl, rfl⟩ := Prod.mk.inj (Except.ok.inj read)
    exact .inr ⟨queue, queue, source⟩
  · simp at read

theorem read_error {e : DeviceFailure} (read : k.read = .error e) : k.queue = [] ∧ k.source = [] := by
  unfold Keyboard.read at read
  split at read
  · simp at read
  · simp at read
  · next queue source => exact ⟨queue, source⟩

theorem Takes.balances {l : Ledger} (takes : k.Takes x k') (balances : k.Balances l) :
    k'.Balances (l.enter x) := by
  obtain ⟨queue, source⟩ := balances
  cases takes with
  | arrived t => exact ⟨queue, by simp [Ledger.enter, ← source]⟩
  | line there => exact ⟨queue, by simp [Ledger.enter, ← source, there]⟩
  | queued t => exact ⟨by simp [Ledger.enter, feed, queue], source⟩
  | delivered read =>
    obtain ⟨waiting, same⟩ | ⟨waiting, waiting', next⟩ := read_ok read
    · simp only [Ledger.enter, queue, waiting]
      exact ⟨rfl, by rw [same, source]⟩
    · simp only [Ledger.enter, queue, waiting]
      exact ⟨waiting'.symm, by simp [← source, next]⟩
  | stalled _ => exact ⟨queue, source⟩

theorem Follows.balances {l : Ledger} (follows : k.Follows h k') (balances : k.Balances l) :
    k'.Balances (l.after h) := by
  induction follows generalizing l with
  | nil _ => exact balances
  | cons takes _ ih => exact ih (takes.balances balances)

theorem Balances.due {l : Ledger} {b : UInt8} (balances : k.Balances l) (read : k.read = .ok (b, k')) :
    l.due? = some b := by
  obtain ⟨queue, source⟩ := balances
  obtain ⟨waiting, -⟩ | ⟨waiting, -, next⟩ := read_ok read
  · simp only [Ledger.due?, queue, waiting]
  · simp only [Ledger.due?, queue, waiting, ← source, List.drop_left, next, List.head?_cons]

/-- A keyboard delivers in order. -/
theorem Follows.inOrder {l : Ledger} (follows : k.Follows h k') (balances : k.Balances l) : l.InOrder h := by
  have delivered : ∀ before word later, h = before ++ .delivered word :: later →
      (l.after before).due?.map UInt8.toUInt16 = some word := by
    rintro before word later rfl
    obtain ⟨k₁, front, back⟩ := follows.split
    cases back with
    | cons takes _ =>
      cases takes with
      | delivered read => rw [(front.balances balances).due read, Option.map_some]
  have stalled : ∀ before later, h = before ++ .stalled :: later →
      (l.after before).queue = [] ∧ (l.after before).taken = (l.after before).source := by
    rintro before later rfl
    obtain ⟨k₁, front, back⟩ := follows.split
    have left := front.balances balances
    cases back with
    | cons takes _ =>
      cases takes with
      | stalled read =>
        obtain ⟨queue, source⟩ := read_error read
        exact ⟨left.queue.trans queue, by rw [← left.source, source, List.append_nil]⟩
  refine ⟨?_, delivered, stalled, ?_⟩
  · rintro before later rfl
    obtain ⟨k₁, front, -⟩ := follows.split
    exact ⟨k₁.source, (front.balances balances).source⟩
  · intro before between word later same none filled
    have due := delivered (before ++ .stalled :: between) word later same
    have empty := (stalled before (between ++ .delivered word :: later) (by simp [same])).1
    have queue : (l.after (before ++ .stalled :: between)).queue = between.flatMap Intake.queuedText := by
      rw [Ledger.after_append, Ledger.after_cons, Ledger.queue_after none]
      simp [Ledger.enter, empty]
    rwa [Ledger.due?_of_queue (queue ▸ filled), queue] at due

end Keyboard

theorem Devices.write_reported {devices devices' : Devices} {b : UInt8} {e : DeviceFailure}
    (wrote : devices.write b = (devices', some e)) : ∃ text, e = .reported text := by
  obtain ⟨keyboard, _ | display⟩ := devices
  · simp [write] at wrote
  · simp only [write, Display.write] at wrote
    split at wrote
    · exact ⟨_, (Option.some.inj (Prod.mk.inj wrote).2).symm⟩
    · obtain ⟨text, -, same⟩ := Option.map_eq_some_iff.mp (Prod.mk.inj wrote).2
      exact ⟨text, same.symm⟩

namespace State

variable {s : State} {i : Instruction}

theorem attempt_keyboard (notIn : i.opcode ≠ .in) (devices : Devices) :
    (s.attempt i devices).1.keyboard = devices.keyboard := by
  by_cases isOut : i.opcode = .out
  · simp only [attempt, isOut, Devices.write]
    split <;> next wrote => split at wrote <;> exact congrArg (·.1.keyboard) wrote.symm
  · rw [attempt_of_effect isOut notIn]

theorem attempt_in (isIn : i.opcode = .in) {devices : Devices} {k : Keyboard}
    (keyboard : devices.keyboard = some k) :
    s.attempt i devices =
      match k.read with
      | .ok (key, k') =>
        ({ devices with keyboard := some k' },
          .ok { next := i.addr + i.size, register := some (i.first, key.toUInt16) })
      | .error failure => (devices, .error (.device i.addr .keyboard failure)) := by
  simp only [attempt, isIn, Devices.read, keyboard]
  cases k.read <;> rfl

theorem attempt_stall {devices devices' : Devices} {k : Keyboard} {f : Fault}
    (keyboard : devices.keyboard = some k) (failed : s.attempt i devices = (devices', .error f))
    (stall : f.isStall = true) : ∃ e, k.read = .error e := by
  by_cases isIn : i.opcode = .in
  · rw [attempt_in isIn keyboard] at failed
    cases read : k.read with
    | ok _ => simp [read] at failed
    | error e => exact ⟨e, rfl⟩
  by_cases isOut : i.opcode = .out
  · simp only [attempt, isOut] at failed
    split at failed
    · simp at failed
    · next wrote =>
      obtain ⟨text, rfl⟩ := Devices.write_reported wrote
      rw [← Except.error.inj (Prod.mk.inj failed).2] at stall
      simp [Fault.isStall] at stall
  · rw [attempt_of_effect isOut isIn] at failed
    rw [(effect_fault (Prod.mk.inj failed).2).2] at stall
    simp at stall

end State

namespace Machine

variable {m m' : Machine} {k : Keyboard}

/-- The word that a step has read: what its destination holds afterwards, if it was one that reads. -/
def received? (m m' : Machine) : Option UInt16 :=
  match m.state.decode m.state.program with
  | .ok i => if i.opcode = .in then m'.state.registers[i.first.toNat]? else none
  | .error _ => none

def intake : (steps : Nat) → Machine → List Intake
  | 0, _ => []
  | steps + 1, m =>
    match m.step with
    | .done m' => ((m.received? m').map Intake.delivered).toList ++ intake steps m'
    | .failed _ _ => []

theorem intake_arrivedText (m : Machine) (steps : Nat) :
    (m.intake steps).flatMap Intake.arrivedText = [] := by
  induction steps generalizing m with
  | zero => rfl
  | succ steps ih =>
    rw [intake]
    cases m.step with
    | done m' =>
      rw [List.flatMap_append, ih, List.append_nil]
      cases m.received? m' <;> rfl
    | failed e m' => rfl

theorem step_follows (keyboard : m.devices.keyboard = some k) (done : m.step = .done m') :
    ∃ k', m'.devices.keyboard = some k' ∧
      k.Follows ((m.received? m').map Intake.delivered).toList k' := by
  obtain ⟨i, decoded⟩ := decode_of_done done
  obtain ⟨e, attempted, state⟩ := step_done decoded done
  by_cases isIn : i.opcode = .in
  · rw [State.attempt_in isIn keyboard] at attempted
    split at attempted
    · next key k' read =>
      obtain ⟨devices, effect⟩ := Prod.mk.inj attempted
      have target : i.first.toNat < registerCount := InPlace.targets_of_decode decoded (by simp [isIn, Opcode.roles])
      have word : m.received? m' = some key.toUInt16 := by
        simp [received?, decoded, isIn, state, ← Except.ok.inj effect, State.apply, target]
      refine ⟨k', devices ▸ rfl, ?_⟩
      rw [word]
      exact (Keyboard.Takes.delivered read).follows
    · simp at attempted
  · have kept := State.attempt_keyboard (s := m.state) isIn m.devices
    rw [attempted] at kept
    have unread : m.received? m' = none := by simp [received?, decoded, isIn]
    rw [unread]
    exact ⟨k, kept.trans keyboard, .nil k⟩

theorem intake_follows (keyboard : m.devices.keyboard = some k) (steps : Nat) :
    ∃ k', k.Follows (m.intake steps) k' ∧
      ∀ m', m.reached steps = some m' → m'.devices.keyboard = some k' := by
  induction steps generalizing m k with
  | zero => exact ⟨k, .nil k, fun m' reached => Option.some.inj reached ▸ keyboard⟩
  | succ steps ih =>
    rw [intake]
    cases attempt : m.step with
    | done m₁ =>
      obtain ⟨k₁, keyboard₁, first⟩ := step_follows keyboard attempt
      obtain ⟨k', rest, last⟩ := ih keyboard₁
      exact ⟨k', first.append rest, fun m' reached => last m' (by rwa [← reached_of_done attempt])⟩
    | failed e m₁ =>
      refine ⟨k, .nil k, fun m' reached => ?_⟩
      obtain ⟨next, reached₁⟩ := reached_of_le reached (Nat.succ_pos steps)
      obtain ⟨start, same, done⟩ := reached_succ_inv reached₁
      rw [← Option.some.inj same, attempt] at done
      simp at done

/-- A step that fails for lack of input has found none. -/
theorem stall_takes {e : StepError} (keyboard : m.devices.keyboard = some k)
    (fails : m.step = .failed e m') (stall : e.isStall = true) : k.Takes .stalled k := by
  cases halted : m.state.halted with
  | true =>
    obtain ⟨rfl, -⟩ := Outcome.failed.inj ((step_of_halted halted).symm.trans fails)
    simp [StepError.isStall] at stall
  | false =>
    cases decoded : m.state.decode m.state.program with
    | error f =>
      obtain ⟨rfl, -⟩ := Outcome.failed.inj ((step_of_decode_error halted decoded).symm.trans fails)
      simp [StepError.isStall, (State.decode_fault decoded).2] at stall
    | ok i =>
      rcases attempted : m.state.attempt i m.devices with ⟨devices, result⟩
      rw [step_eq halted decoded, attempted] at fails
      cases result with
      | ok e' => simp [State.settle, Outcome.mapError] at fails
      | error f =>
        obtain ⟨rfl, -⟩ := Outcome.failed.inj fails
        obtain ⟨e, read⟩ := State.attempt_stall keyboard attempted stall
        exact .stalled read

end Machine

end WordMachine
