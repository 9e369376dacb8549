import Mathlib.Tactic.TypeStar
import StatForge.Lib.Fuel

/-!
# Loops with an explicit step and a fuel bound

A `while` loop is a step function on the loop's state: a step either leaves the loop with a result
(`Sum.inl`) or goes round again with a new state (`Sum.inr`).  `run` executes at most `fuel` steps,
so that a loop stays a structurally recursive function that `decide` can evaluate.

* `rounds` — the history of a run: the states in which the body was executed.
* `rounds_spec` — the rule for histories: an invariant of the past rounds and the state, and a
  postcondition of the whole history and the result.
* `run_spec` — the total-correctness rule: an invariant, a measure that every further round
  decreases, and a postcondition of every exit.  With more fuel than the measure of the start the
  loop leaves with a result that meets the postcondition.
* `run_settles` — the bound makes no difference once it exceeds the measure.
-/

namespace FuelLoop

variable {State Output : Type*}

/-- Run the loop body `step`, at most `fuel` times; `none` is an exhausted bound. -/
def run (step : State → Output ⊕ State) : Nat → State → Option Output
  | 0, _ => none
  | fuel + 1, state =>
      match step state with
      | .inl output => some output
      | .inr next => run step fuel next

theorem run_succ_of_exit {step : State → Output ⊕ State} {state : State} {output : Output}
    (hstep : step state = .inl output) (fuel : Nat) :
    run step (fuel + 1) state = some output := by
  simp [run, hstep]

theorem run_succ_of_next {step : State → Output ⊕ State} {state next : State}
    (hstep : step state = .inr next) (fuel : Nat) :
    run step (fuel + 1) state = run step fuel next := by
  simp [run, hstep]

/-- **Total correctness of a loop.**  Every exit from an invariant state meets the postcondition,
every further round keeps the invariant and decreases the measure; then the loop ends within
`measure` many rounds, in a result that meets the postcondition. -/
theorem run_spec {step : State → Output ⊕ State} (Inv : State → Prop) (Post : Output → Prop)
    (measure : State → Nat)
    (hexit : ∀ state output, Inv state → step state = .inl output → Post output)
    (hnext : ∀ state next, Inv state → step state = .inr next →
      Inv next ∧ measure next < measure state)
    {fuel : Nat} {state : State} (hinv : Inv state) (hfuel : measure state < fuel) :
    ∃ output, run step fuel state = some output ∧ Post output := by
  induction fuel generalizing state with
  | zero => omega
  | succ fuel ih =>
      cases hstep : step state with
      | inl output =>
          exact ⟨output, run_succ_of_exit hstep fuel, hexit state output hinv hstep⟩
      | inr next =>
          obtain ⟨hinv', hlt⟩ := hnext state next hinv hstep
          rw [run_succ_of_next hstep]
          exact ih hinv' (by omega)

/-- More fuel makes no difference to a loop that has left. -/
theorem run_mono {step : State → Output ⊕ State} {fuel fuel' : Nat} {state : State} {output : Output}
    (hrun : run step fuel state = some output) (hle : fuel ≤ fuel') :
    run step fuel' state = some output := by
  induction fuel generalizing fuel' state with
  | zero => cases hrun
  | succ fuel ih =>
      obtain ⟨fuel', rfl⟩ : ∃ n, fuel' = n + 1 := ⟨fuel' - 1, by omega⟩
      cases hstep : step state with
      | inl exit =>
          rw [run_succ_of_exit hstep] at hrun ⊢
          exact hrun
      | inr next =>
          rw [run_succ_of_next hstep] at hrun ⊢
          exact ih hrun (by omega)

/-- A loop settles within one round more than its measure. -/
theorem run_settles {step : State → Output ⊕ State} (Inv : State → Prop) (measure : State → Nat)
    (hnext : ∀ state next, Inv state → step state = .inr next →
      Inv next ∧ measure next < measure state) {state : State} (hinv : Inv state) :
    Fuel.Settles (measure state + 1) (fun fuel => run step fuel state) (· ≠ none) := by
  obtain ⟨output, hrun, -⟩ := run_spec Inv (fun _ => True) measure (fun _ _ _ _ => trivial) hnext
    hinv (Nat.lt_succ_self _)
  exact ⟨some output, Option.some_ne_none output, fun _ hfuel => run_mono hrun hfuel⟩

/-- The states in which `run` executes the body, in order. -/
def rounds (step : State → Output ⊕ State) : Nat → State → List State
  | 0, _ => []
  | fuel + 1, state =>
      state :: match step state with
        | .inl _ => []
        | .inr next => rounds step fuel next

/-- **Histories.**  If every round keeps an invariant of the past rounds and the state, then a loop
that leaves meets the postcondition of its whole history. -/
theorem rounds_spec {step : State → Output ⊕ State} (Inv : List State → State → Prop)
    (Post : List State → Output → Prop)
    (hexit : ∀ past state output, Inv past state → step state = .inl output →
      Post (past ++ [state]) output)
    (hnext : ∀ past state next, Inv past state → step state = .inr next →
      Inv (past ++ [state]) next)
    {fuel : Nat} {past : List State} {state : State} {output : Output} (hinv : Inv past state)
    (hrun : run step fuel state = some output) : Post (past ++ rounds step fuel state) output := by
  induction fuel generalizing past state with
  | zero => cases hrun
  | succ fuel ih =>
      cases hstep : step state with
      | inl exit =>
          rw [run_succ_of_exit hstep] at hrun
          obtain rfl := Option.some.inj hrun
          simpa only [rounds, hstep] using hexit past state exit hinv hstep
      | inr next =>
          rw [run_succ_of_next hstep] at hrun
          have hpost := ih (hnext past state next hinv hstep) hrun
          rw [List.append_assoc, List.singleton_append] at hpost
          simpa only [rounds, hstep] using hpost

end FuelLoop
