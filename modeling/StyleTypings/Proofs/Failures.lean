/-
Failures — what two steps come to of which either can fail.

The second goes on with what the first gives.  So both succeed if the whole does, and one of
them fails, with the same error, if the whole does.
-/

namespace StyleTypings

variable {ε α β : Type} {r : Except ε α}

theorem ok_of_bind {f : α → Except ε β} {b : β} (h : r >>= f = .ok b) :
    ∃ a, r = .ok a ∧ f a = .ok b := by
  cases r with
  | error e => cases h
  | ok a => exact ⟨a, rfl, h⟩

theorem error_of_bind {f : α → Except ε β} {e : ε} (h : r >>= f = .error e) :
    r = .error e ∨ ∃ a, f a = .error e := by
  cases r with
  | error e' => exact .inl (by cases h; rfl)
  | ok a => exact .inr ⟨a, h⟩

theorem ok_of_map {f : α → β} {b : β} (h : r.map f = .ok b) : ∃ a, r = .ok a ∧ b = f a := by
  cases r with
  | error e => cases h
  | ok a => exact ⟨a, rfl, (Except.ok.inj h).symm⟩

theorem error_of_map {f : α → β} {e : ε} (h : r.map f = .error e) : r = .error e := by
  cases r <;> cases h
  rfl

end StyleTypings
