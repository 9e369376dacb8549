import Mathlib.Tactic.Basic

/-!
# Computations that settle

A recursion with a bound is a family of computations, one for each amount of fuel.  It terminates if
the fuel makes no difference from some amount on: the family settles on one result.

* `Settles` — the result that does not depend on the fuel, with a postcondition.
* `Settles.succ`, `Settles.bind` — the rules for a call and for two computations in a row.
-/

namespace Fuel

universe u v

variable {α β : Type u} {ε : Type v}

/-- With at least `bound` fuel the computation has the same result, which meets the
postcondition. -/
def Settles (bound : Nat) (computation : Nat → α) (Post : α → Prop) : Prop :=
  ∃ result, Post result ∧ ∀ fuel, bound ≤ fuel → computation fuel = result

variable {bound bound' : Nat} {computation : Nat → α} {Post Post' : α → Prop}

theorem Settles.post (h : Settles bound computation Post) {fuel : Nat} (hfuel : bound ≤ fuel) :
    Post (computation fuel) := by
  obtain ⟨result, hpost, hresult⟩ := h
  rw [hresult fuel hfuel]
  exact hpost

theorem Settles.imp (h : Settles bound computation Post) (himp : ∀ a, Post a → Post' a) :
    Settles bound computation Post' := by
  obtain ⟨result, hpost, hresult⟩ := h
  exact ⟨result, himp result hpost, hresult⟩

theorem Settles.mono (h : Settles bound computation Post) (hle : bound ≤ bound') :
    Settles bound' computation Post := by
  obtain ⟨result, hpost, hresult⟩ := h
  exact ⟨result, hpost, fun fuel hfuel => hresult fuel (Nat.le_trans hle hfuel)⟩

/-- A result that needs no fuel. -/
theorem Settles.pure {result : α} (hpost : Post result) : Settles bound (fun _ => result) Post :=
  ⟨result, hpost, fun _ _ => rfl⟩

/-- A call that spends one unit. -/
theorem Settles.succ (h : Settles bound (fun fuel => computation (fuel + 1)) Post) :
    Settles (bound + 1) computation Post := by
  obtain ⟨result, hpost, hresult⟩ := h
  refine ⟨result, hpost, fun fuel hfuel => ?_⟩
  obtain ⟨fuel, rfl⟩ : ∃ n, fuel = n + 1 := ⟨fuel - 1, by omega⟩
  exact hresult fuel (by omega)

/-- Two computations in a row: the second one settles on every value of the first. -/
theorem Settles.bind {first : Nat → Except ε α} {next : Nat → α → Except ε β}
    {Middle : Except ε α → Prop} {Post : Except ε β → Prop} (h : Settles bound first Middle)
    (herror : ∀ error, Middle (.error error) → Post (.error error))
    (hok : ∀ a, Middle (.ok a) → Settles bound (fun fuel => next fuel a) Post) :
    Settles bound (fun fuel => first fuel >>= next fuel) Post := by
  obtain ⟨result, hmiddle, hresult⟩ := h
  cases result with
  | error error =>
      refine ⟨.error error, herror error hmiddle, fun fuel hfuel => ?_⟩
      show first fuel >>= next fuel = .error error
      rw [hresult fuel hfuel]
      rfl
  | ok a =>
      obtain ⟨result', hpost, hresult'⟩ := hok a hmiddle
      refine ⟨result', hpost, fun fuel hfuel => ?_⟩
      show first fuel >>= next fuel = result'
      rw [hresult fuel hfuel]
      exact hresult' fuel hfuel

end Fuel
