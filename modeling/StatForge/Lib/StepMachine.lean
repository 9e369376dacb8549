import Mathlib.Tactic.TypeStar

/-!
# Deterministic machines with replies and failing steps

A machine is a step function `State → Input → Except Failure (Reply × State)`: an input either
fails, which ends the run, or yields a reply and the next state.

* `run` — the replies and the final state of a finite input sequence.
* `Reachable` — the states of all runs from a start state whose steps meet a guard; the guard sees
  the state before the step and the input.
* `Reachable.invariant` — an invariant of the start that every guarded step preserves holds in
  every reachable state.
* `Reachable.of_run` — the final state of a run whose steps meet the guard is reachable.
-/

namespace StepMachine

variable {State Input Failure Reply : Type*}

/-- Feed the inputs one after the other and collect the replies. -/
def run (step : State → Input → Except Failure (Reply × State)) :
    State → List Input → Except Failure (List Reply × State)
  | state, [] => .ok ([], state)
  | state, input :: inputs =>
      match step state input with
      | .error failure => .error failure
      | .ok (reply, next) =>
          match run step next inputs with
          | .error failure => .error failure
          | .ok (replies, final) => .ok (reply :: replies, final)

/-- The states that runs from `start` reach when every step meets the guard. -/
inductive Reachable (step : State → Input → Except Failure (Reply × State))
    (guard : State → Input → Prop) (start : State) : State → Prop
  | start : Reachable step guard start start
  | step {state next : State} {input : Input} {reply : Reply}
      (hreach : Reachable step guard start state) (hguard : guard state input)
      (hstep : step state input = .ok (reply, next)) : Reachable step guard start next

/-- The guard that admits every step. -/
abbrev anyStep : State → Input → Prop := fun _ _ => True

variable {step : State → Input → Except Failure (Reply × State)} {guard : State → Input → Prop}
  {start state : State}

/-- The invariant rule. -/
theorem Reachable.invariant (Inv : State → Prop) (hstart : Inv start)
    (hpreserved : ∀ state input reply next, Inv state → guard state input →
      step state input = .ok (reply, next) → Inv next)
    (hreach : Reachable step guard start state) : Inv state := by
  induction hreach with
  | start => exact hstart
  | step _ hguard hstep ih => exact hpreserved _ _ _ _ ih hguard hstep

/-- A reached state continues to the end of a run whose steps meet the guard. -/
theorem Reachable.of_run {inputs : List Input} {replies : List Reply} {final : State}
    (hreach : Reachable step guard start state)
    (hguard : ∀ n input replies middle, inputs[n]? = some input →
      run step state (inputs.take n) = .ok (replies, middle) → guard middle input)
    (hrun : run step state inputs = .ok (replies, final)) : Reachable step guard start final := by
  induction inputs generalizing state replies with
  | nil =>
      simp only [run, Except.ok.injEq, Prod.mk.injEq] at hrun
      exact hrun.2 ▸ hreach
  | cons input inputs ih =>
      cases hstep : step state input with
      | error failure => simp [run, hstep] at hrun
      | ok result =>
          obtain ⟨reply, next⟩ := result
          cases hrest : run step next inputs with
          | error failure => simp [run, hstep, hrest] at hrun
          | ok rest =>
              obtain ⟨restReplies, restFinal⟩ := rest
              simp only [run, hstep, hrest, Except.ok.injEq, Prod.mk.injEq] at hrun
              obtain ⟨-, rfl⟩ := hrun
              refine ih (.step hreach (hguard 0 input [] state rfl rfl) hstep) ?_ hrest
              intro n input' replies' middle hinput hmiddle
              apply hguard (n + 1) input' (reply :: replies') middle hinput
              simp only [List.take_succ_cons, run, hstep, hmiddle]

end StepMachine
