import Mathlib.Tactic.Common

/-!
# Results

Inversion of a computation that may fail: a sequence succeeds when each of its
parts does.
-/

namespace Purels.Lib

universe v

variable {ε : Type*} {α β : Type v}

/-- `x >>= f` succeeds exactly when `x` does and `f` does on what it returned. -/
theorem bind_eq_ok {x : Except ε α} {f : α → Except ε β} {r : β} :
    (x >>= f) = .ok r ↔ ∃ a, x = .ok a ∧ f a = .ok r := by
  cases x <;> simp [bind, Except.bind]

end Purels.Lib
