import WordMachine.Proofs.Machine.Effects
import WordMachine.Machine.Image

/-! Calls and their returns. A step works at the top of the stack only, so the entries below are
safe for as long as the stack does not become shorter than they are. A call leaves its return
address on top of what was there, and until something takes it off the stack ends in it. -/

namespace WordMachine

variable {m m' m₁ : Machine} {i : Instruction}

theorem State.apply_suffix {s : State} {e : Effect} {base : List UInt16} (held : base <:+ s.stack)
    (deep : base.length ≤ (s.apply e).stack.length) : base <:+ (s.apply e).stack := by
  obtain same | ⟨v, pushed⟩ | ⟨v, popped⟩ := s.apply_stack e
  · rwa [same]
  · rw [pushed]
    exact held.trans (List.suffix_cons v s.stack)
  · rw [popped] at held
    exact List.suffix_of_suffix_length_le held (List.suffix_cons v _) deep

namespace Machine

theorem step_suffix {base : List UInt16} (done : m.step = .done m') (held : base <:+ m.state.stack)
    (deep : base.length ≤ m'.state.stack.length) : base <:+ m'.state.stack := by
  obtain ⟨i, decoded⟩ := decode_of_done done
  obtain ⟨e, -, after⟩ := step_done decoded done
  rw [after] at deep ⊢
  exact State.apply_suffix held deep

/-- In the first `k` steps the stack never has fewer than `depth` entries. -/
def StaysDeep (m : Machine) (depth k : Nat) : Prop :=
  ∀ j ≤ k, ∀ m', m.reached j = some m' → depth ≤ m'.state.stack.length

theorem StaysDeep.mono {depth j k : Nat} (deep : m.StaysDeep depth k) (le : j ≤ k) : m.StaysDeep depth j :=
  fun n below => deep n (Nat.le_trans below le)

/-- What the stack ends in, it ends in throughout a run that stays deep enough. -/
theorem reached_suffix {base : List UInt16} {k : Nat} (held : base <:+ m.state.stack)
    (deep : m.StaysDeep base.length k) (reached : m.reached k = some m') : base <:+ m'.state.stack := by
  induction k generalizing m' with
  | zero =>
    obtain rfl : m = m' := Option.some.inj reached
    exact held
  | succ k ih =>
    obtain ⟨before, reached', done⟩ := reached_succ_inv reached
    exact step_suffix done (ih (deep.mono (Nat.le_succ k)) reached') (deep (k + 1) (Nat.le_refl _) m' reached)

theorem step_call (decoded : m.state.decode m.state.program = .ok i) (call : i.opcode = .call)
    (done : m.step = .done m₁) :
    (m.state.program + 2).toNat = m.state.program.toNat + 2 ∧
      m₁.state.stack = (m.state.program + 2) :: m.state.stack := by
  have addr := State.decode_addr decoded
  have size : i.size = 2 := by
    apply UInt16.toNat.inj
    rw [State.decode_size decoded, call]
    rfl
  have next := State.decode_next decoded
  rw [addr, size] at next
  obtain ⟨e, attempt, after⟩ := step_done decoded done
  rw [State.attempt_of_effect (by simp [call]) (by simp [call])] at attempt
  have effect := (Prod.mk.inj attempt).2
  simp only [State.effect, call] at effect
  split at effect
  · obtain rfl := Except.ok.inj effect
    exact ⟨next, by rw [after, ← size, ← addr]; rfl⟩
  · simp at effect

theorem step_ret {back : UInt16} {rest : List UInt16} (running : m.state.halted = false)
    (decoded : m.state.decode m.state.program = .ok i) (ret : i.opcode = .ret)
    (top : m.state.stack = back :: rest) :
    ∃ m', m.step = .done m' ∧ m'.state.program = back ∧ m'.state.stack = rest := by
  have effect : m.state.effect i = .ok { next := back, stack := .drop } := by
    simp only [State.effect, ret, top]
  have step : m.step = .done ⟨m.state.apply { next := back, stack := .drop }, m.devices⟩ := by
    rw [step_eq running decoded, State.attempt_of_effect (by simp [ret]) (by simp [ret]), effect]
    rfl
  refine ⟨_, step, rfl, ?_⟩
  simp only [State.apply, top, List.tail_cons]

/-- A call that succeeds is returned from with the stack that it found, whatever is done in
between without taking its return address off. -/
theorem call_returns (decoded : m.state.decode m.state.program = .ok i) (call : i.opcode = .call)
    (done : m.step = .done m₁) :
    (m.state.program + 2).toNat = m.state.program.toNat + 2 ∧
      ∀ k m₂, m₁.reached k = some m₂ → m₁.StaysDeep (m.state.stack.length + 1) k →
        (∀ j ≤ k, ∀ m', m₁.reached j = some m' →
          (m.state.program + 2) :: m.state.stack <:+ m'.state.stack) ∧
        ∀ i', m₂.state.halted = false → m₂.state.decode m₂.state.program = .ok i' → i'.opcode = .ret →
          m₂.state.stack.length = m.state.stack.length + 1 →
          ∃ m₃, m₂.step = .done m₃ ∧ m₃.state.program = m.state.program + 2 ∧
            m₃.state.stack = m.state.stack := by
  obtain ⟨behind, called⟩ := step_call decoded call done
  refine ⟨behind, fun k m₂ reached deep => ?_⟩
  have held : (m.state.program + 2) :: m.state.stack <:+ m₁.state.stack := called ▸ List.suffix_rfl
  have throughout : ∀ j ≤ k, ∀ m', m₁.reached j = some m' →
      (m.state.program + 2) :: m.state.stack <:+ m'.state.stack :=
    fun j below m' reached' => reached_suffix held (deep.mono below) reached'
  refine ⟨throughout, fun i' running decoded' ret depth => ?_⟩
  have stack := (throughout k (Nat.le_refl k) m₂ reached).eq_of_length (by simpa using depth.symm)
  exact step_ret running decoded' ret stack.symm

def calling : Machine where
  state := { memory := Image.memory [17, 3, 0, 2, 7, 3, 0x8000, 18] (by decide), stack := [9] }

theorem call_returns_pushing :
    ∃ m₁ m₂ m₃, calling.step = .done m₁ ∧ m₁.reached 2 = some m₂ ∧ m₂.step = .done m₃ ∧
      m₃.state.program = 2 ∧ m₃.state.stack = [9] ∧ m₃.state.registers.get ⟨0, by decide⟩ = 7 := by
  let m₁ : Machine := ⟨calling.state.apply { next := 3, stack := .push 2 }, {}⟩
  let m' : Machine := ⟨m₁.state.apply { next := 5, stack := .push 7 }, {}⟩
  let m₂ : Machine := ⟨m'.state.apply { next := 7, register := some (0, 7), stack := .drop }, {}⟩
  have decoded : calling.state.decode 0 = .ok (.ofOperands 0 .call [(3, 3)]) := rfl
  have called : calling.step = .done m₁ := (step_of_decode rfl decoded).trans rfl
  have push : m₁.state.decode 3 = .ok (.ofOperands 3 .push [(7, 7)]) := rfl
  have pushed : m₁.step = .done m' := (step_of_decode rfl push).trans rfl
  have pop : m'.state.decode 5 = .ok (.ofOperands 5 .pop [(0x8000, 0)]) := by decide +kernel
  have popped : m'.step = .done m₂ := (step_of_decode rfl pop).trans rfl
  have first : m₁.reached 1 = some m' := reached_succ rfl pushed
  have second : m₁.reached 2 = some m₂ := reached_succ first popped
  have deep : m₁.StaysDeep 2 2 := by
    intro j le m reached
    obtain rfl | rfl | rfl : j = 0 ∨ j = 1 ∨ j = 2 := by omega
    · exact Option.some.inj reached ▸ Nat.le_refl 2
    · exact Option.some.inj (first.symm.trans reached) ▸ (by decide : 2 ≤ 3)
    · exact Option.some.inj (second.symm.trans reached) ▸ Nat.le_refl 2
  have ret : m₂.state.decode m₂.state.program = .ok (.ofOperands 7 .ret []) := rfl
  obtain ⟨-, returns⟩ := call_returns decoded rfl called
  obtain ⟨m₃, step, program, stack⟩ := (returns 2 m₂ second deep).2 _ rfl ret rfl rfl
  have after := (step_of_decode rfl ret).symm.trans step
  refine ⟨m₁, m₂, m₃, called, second, step, program, stack, ?_⟩
  rw [← Outcome.done.inj after]
  rfl

end Machine

end WordMachine
