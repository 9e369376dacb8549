import Mathlib.Tactic.TypeStar

/-!
# Sequencing computations that may fail

The equations and the inversion of `>>=` in `Except`, and the two parts of a result that is a pair.
-/

namespace ExceptBind

universe u

variable {Failure : Type*} {α β : Type u}

@[simp] theorem ok_bind (a : α) (f : α → Except Failure β) : (Except.ok a >>= f) = f a := rfl

@[simp] theorem error_bind (failure : Failure) (f : α → Except Failure β) :
    (Except.error failure >>= f) = .error failure := rfl

/-- A sequence succeeds exactly when both of its parts do. -/
theorem bind_eq_ok {x : Except Failure α} {f : α → Except Failure β} {b : β} :
    (x >>= f) = .ok b ↔ ∃ a, x = .ok a ∧ f a = .ok b := by
  cases x with
  | error failure => simp
  | ok a => simp

/-- A sequence fails when its first part does, or its second part on the first one's value. -/
theorem bind_eq_error {x : Except Failure α} {f : α → Except Failure β} {failure : Failure} :
    (x >>= f) = .error failure ↔
      x = .error failure ∨ ∃ a, x = .ok a ∧ f a = .error failure := by
  cases x with
  | error failure' => simp
  | ok a => simp

/-- A computation of a pair has one result. -/
theorem pair_unique {γ δ : Type*} {x : Except Failure (γ × δ)} {c c' : γ} {d d' : δ}
    (h : x = .ok (c, d)) (h' : x = .ok (c', d')) : c = c' ∧ d = d' := by
  rw [h, Except.ok.injEq, Prod.mk.injEq] at h'
  exact h'

end ExceptBind
