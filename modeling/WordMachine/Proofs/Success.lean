/-! What a result says about the parts it was made of: mostly one that succeeded. -/

namespace WordMachine

theorem ok_of_map {ε α β : Type} {result : Except ε α} {f : α → β} {b : β}
    (done : result.map f = .ok b) : ∃ a, result = .ok a ∧ f a = b := by
  cases result with
  | error e => simp [Except.map] at done
  | ok a => exact ⟨a, rfl, Except.ok.inj done⟩

theorem error_of_map {ε α β : Type} {result : Except ε α} {f : α → β} {e : ε}
    (failed : result.map f = .error e) : result = .error e := by
  cases result with
  | error e' => exact congrArg Except.error (Except.error.inj failed)
  | ok a => simp [Except.map] at failed

theorem ok_of_mapError {ε δ α : Type} {result : Except ε α} {f : ε → δ} {a : α}
    (done : result.mapError f = .ok a) : result = .ok a := by
  cases result with
  | error e =>
    change Except.error (f e) = .ok a at done
    simp at done
  | ok b => exact congrArg Except.ok (Except.ok.inj done)

theorem ok_of_toOption {ε α : Type} {result : Except ε α} {a : α} (done : result.toOption = some a) :
    result = .ok a := by
  cases result with
  | error e => simp [Except.toOption] at done
  | ok b => exact congrArg Except.ok (Option.some.inj done)

theorem exists_ok_of_toOption {ε α : Type} {result : Except ε α} (done : result.toOption.isSome = true) :
    ∃ a, result = .ok a := by
  obtain ⟨a, same⟩ := Option.isSome_iff_exists.mp done
  exact ⟨a, ok_of_toOption same⟩

theorem ok_of_bind {ε α β : Type} {result : Except ε α} {f : α → Except ε β} {b : β}
    (done : result.bind f = .ok b) : ∃ a, result = .ok a ∧ f a = .ok b := by
  cases result with
  | error e => simp [Except.bind] at done
  | ok a => exact ⟨a, rfl, done⟩

theorem ok_of_ite {c : Prop} [Decidable c] {ε α : Type} {a b : α} {e : ε}
    (done : (if c then Except.ok a else .error e) = .ok b) : c ∧ a = b := by
  split at done
  · next holds => exact ⟨holds, Except.ok.inj done⟩
  · simp at done

end WordMachine
