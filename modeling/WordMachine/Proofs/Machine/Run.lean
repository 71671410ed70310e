import WordMachine.Proofs.Machine.Step

/-! Runs of the machine on its own, seen through the machines that it reaches. A run with some
fuel has either come to a halted machine, or to one whose step fails, or it has used up its
fuel on steps that completed. -/

namespace WordMachine.Machine

theorem running_of_done {m m' : Machine} (done : m.step = .done m') : m.state.halted = false := by
  cases halted : m.state.halted with
  | false => rfl
  | true => simp [step_of_halted halted] at done

theorem run_of_halted {m : Machine} (halted : m.state.halted = true) (fuel : Nat) :
    run fuel m = .finished m := by
  cases fuel <;> simp [run, halted]

theorem run_of_running {m : Machine} (running : m.state.halted = false) : run 0 m = .unfinished m := by
  simp [run, running]

theorem run_of_done {m m' : Machine} (done : m.step = .done m') (fuel : Nat) :
    run (fuel + 1) m = run fuel m' := by
  simp [run, running_of_done done, done]

theorem run_of_failed {m m' : Machine} {e : StepError} (running : m.state.halted = false)
    (fails : m.step = .failed e m') (fuel : Nat) : run (fuel + 1) m = .failed e m' := by
  simp [run, running, fails]

theorem reached_succ_inv {m m'' : Machine} {k : Nat} (reached : m.reached (k + 1) = some m'') :
    ∃ m', m.reached k = some m' ∧ m'.step = .done m'' := by
  rw [Machine.reached] at reached
  split at reached
  · simp at reached
  · next m' before =>
    split at reached
    · next m₁ done =>
      obtain rfl := Option.some.inj reached
      exact ⟨m', before, done⟩
    · simp at reached

theorem run_of_reached {m m' : Machine} {k : Nat} (reached : m.reached k = some m') (fuel : Nat) :
    run (k + fuel) m = run fuel m' := by
  induction k generalizing m' fuel with
  | zero =>
    obtain rfl : m = m' := Option.some.inj reached
    rw [Nat.zero_add]
  | succ k ih =>
    obtain ⟨before, reached', done⟩ := reached_succ_inv reached
    calc run (k + 1 + fuel) m = run (k + (fuel + 1)) m := by rw [Nat.add_assoc, Nat.add_comm 1]
      _ = run (fuel + 1) before := ih reached' (fuel + 1)
      _ = run fuel m' := run_of_done done fuel

theorem reached_add {m m' : Machine} {j k : Nat} (reached : m.reached j = some m') :
    m.reached (j + k) = m'.reached k := by
  induction k with
  | zero => exact reached
  | succ k ih => rw [← Nat.add_assoc, Machine.reached, ih, Machine.reached]

theorem reached_of_le {m m' : Machine} {j k : Nat} (reached : m.reached k = some m') (le : j ≤ k) :
    ∃ m₁, m.reached j = some m₁ := by
  induction k generalizing m' with
  | zero =>
    obtain rfl : j = 0 := by omega
    exact ⟨m', reached⟩
  | succ k ih =>
    obtain last | earlier := Nat.eq_or_lt_of_le le
    · exact ⟨m', last ▸ reached⟩
    · obtain ⟨before, reached', -⟩ := reached_succ_inv reached
      exact ih reached' (by omega)

theorem run_of_reached_later {m m' : Machine} {fuel k : Nat} (reached : m.reached k = some m')
    (later : fuel < k) : ∃ m₁, run fuel m = .unfinished m₁ := by
  obtain ⟨next, reached₁⟩ := reached_of_le reached (Nat.succ_le_of_lt later)
  obtain ⟨before, reached₀, done⟩ := reached_succ_inv reached₁
  refine ⟨before, ?_⟩
  calc run fuel m = run 0 before := run_of_reached reached₀ 0
    _ = .unfinished before := run_of_running (running_of_done done)

theorem run_eq_finished_iff {m ended : Machine} {k fuel : Nat} (reached : m.reached k = some ended)
    (halted : ended.state.halted = true) : run fuel m = .finished ended ↔ k ≤ fuel := by
  constructor
  · intro finished
    refine Nat.le_of_not_lt fun short => ?_
    obtain ⟨going, unfinished⟩ := run_of_reached_later reached short
    rw [unfinished] at finished
    exact nomatch finished
  · intro enough
    obtain ⟨extra, rfl⟩ := Nat.exists_eq_add_of_le enough
    rw [run_of_reached reached, run_of_halted halted]

theorem reached_of_done {m m₁ : Machine} (done : m.step = .done m₁) (k : Nat) :
    m.reached (k + 1) = m₁.reached k := by
  have first : m.reached 1 = some m₁ := reached_succ rfl done
  rw [Nat.add_comm, reached_add first]

theorem run_cases (fuel : Nat) (m : Machine) :
    (∃ k m', k ≤ fuel ∧ m.reached k = some m' ∧ m'.state.halted = true ∧ run fuel m = .finished m') ∨
      (∃ k m' e m'', k < fuel ∧ m.reached k = some m' ∧ m'.state.halted = false ∧
        m'.step = .failed e m'' ∧ run fuel m = .failed e m'') ∨
      ∃ m', run fuel m = .unfinished m' := by
  induction fuel generalizing m with
  | zero =>
    cases halted : m.state.halted with
    | true => exact .inl ⟨0, m, Nat.le_refl 0, rfl, halted, run_of_halted halted 0⟩
    | false => exact .inr (.inr ⟨m, run_of_running halted⟩)
  | succ fuel ih =>
    cases halted : m.state.halted with
    | true => exact .inl ⟨0, m, Nat.zero_le _, rfl, halted, run_of_halted halted (fuel + 1)⟩
    | false =>
      cases attempt : m.step with
      | failed e m' =>
        exact .inr (.inl ⟨0, m, e, m', Nat.succ_pos fuel, rfl, halted, attempt,
          run_of_failed halted attempt fuel⟩)
      | done m₁ =>
        rw [run_of_done attempt]
        obtain ⟨k, m', le, reached, rest⟩ | ⟨k, m', e, m'', lt, reached, rest⟩ | unfinished := ih m₁
        · exact .inl ⟨k + 1, m', by omega, (reached_of_done attempt k).trans reached, rest⟩
        · exact .inr (.inl ⟨k + 1, m', e, m'', by omega, (reached_of_done attempt k).trans reached, rest⟩)
        · exact .inr (.inr unfinished)

/-- More fuel changes nothing once a run is over. -/
theorem run_more {m : Machine} {fuel : Nat} (ends : ∀ m', run fuel m ≠ .unfinished m') (extra : Nat) :
    run (fuel + extra) m = run fuel m := by
  induction fuel generalizing m with
  | zero =>
    cases halted : m.state.halted with
    | true => rw [run_of_halted halted, run_of_halted halted]
    | false => exact absurd (run_of_running halted) (ends m)
  | succ fuel ih =>
    cases halted : m.state.halted with
    | true => rw [run_of_halted halted, run_of_halted halted]
    | false =>
      rw [Nat.add_right_comm]
      cases attempt : m.step with
      | failed e m' => rw [run_of_failed halted attempt, run_of_failed halted attempt]
      | done m₁ =>
        rw [run_of_done attempt] at ends ⊢
        rw [run_of_done attempt, ih ends]

theorem run_unique {m : Machine} {fuel fuel' : Nat} (ends : ∀ m', run fuel m ≠ .unfinished m')
    (ends' : ∀ m', run fuel' m ≠ .unfinished m') : run fuel m = run fuel' m := by
  rw [← run_more ends fuel', ← run_more ends' fuel, Nat.add_comm]

end WordMachine.Machine
