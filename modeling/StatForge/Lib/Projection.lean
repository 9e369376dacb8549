import StatForge.Lib.Simulation

/-!
# One component of a machine

A machine whose state holds several components, each a machine of its own.  Some inputs are addressed
to the component in question and make one step of it; the others leave it alone.

* `Projection` — what one step of the whole is for the component.
* `Projection.run` — a run of the whole is, for the component, a run of its own inputs alone.
* `Projection.run_failed` — the run of the component alone fails where the run of the whole fails on
  one of its inputs.
-/

namespace StepMachine

variable {State Local Input LocalInput Failure Reply LocalReply : Type*}

/-- The inputs with a step of their own in the component. -/
def isOwn (own : Input → Option LocalInput) (input : Input) : Bool := (own input).isSome

/-- On the component's own inputs the whole makes the component's step and computes its reply from the
component's; every other admitted input leaves the component as it is. -/
structure Projection (step : State → Input → Except Failure (Reply × State))
    (localStep : Local → LocalInput → Except Failure (LocalReply × Local))
    (component : State → Option Local) (own : Input → Option LocalInput)
    (admitted : Input → Prop) (answer : Input → LocalReply → Reply) : Prop where
  own_step : ∀ {state input localState localInput reply next}, component state = some localState →
    own input = some localInput → step state input = .ok (reply, next) →
      ∃ localReply localNext, localStep localState localInput = .ok (localReply, localNext) ∧
        reply = answer input localReply ∧ component next = some localNext
  own_failed : ∀ {state input localState localInput failure}, component state = some localState →
    own input = some localInput → step state input = .error failure →
      localStep localState localInput = .error failure
  other_step : ∀ {state input localState reply next}, component state = some localState →
    own input = none → admitted input → step state input = .ok (reply, next) →
      component next = some localState

namespace Projection

variable {step : State → Input → Except Failure (Reply × State)}
  {localStep : Local → LocalInput → Except Failure (LocalReply × Local)}
  {component : State → Option Local} {own : Input → Option LocalInput} {admitted : Input → Prop}
  {answer : Input → LocalReply → Reply} {state final : State} {localState : Local}
  {inputs : List Input} {replies : List Reply}

/-- **A run of the whole** makes the component's run on its own inputs, and the replies to these are
the component's. -/
theorem run (h : Projection step localStep component own admitted answer)
    (hcomponent : component state = some localState) (hadmitted : ∀ input ∈ inputs, admitted input)
    (hrun : StepMachine.run step state inputs = .ok (replies, final)) :
    ∃ localReplies localFinal,
      StepMachine.run localStep localState (inputs.filterMap own) = .ok (localReplies, localFinal) ∧
      component final = some localFinal ∧
      kept (isOwn own) inputs replies =
        List.zipWith answer (inputs.filter (isOwn own)) localReplies := by
  induction inputs generalizing state localState replies with
  | nil =>
      cases hrun
      exact ⟨[], localState, rfl, hcomponent, rfl⟩
  | cons input inputs ih =>
      obtain ⟨reply, next, rest, hstep, hrest, rfl⟩ := run_cons_eq_ok hrun
      have hadmittedRest : ∀ input ∈ inputs, admitted input :=
        fun i hi => hadmitted i (List.mem_cons_of_mem _ hi)
      cases hown : own input with
      | none =>
          have hnext := h.other_step hcomponent hown (hadmitted input List.mem_cons_self) hstep
          obtain ⟨localReplies, localFinal, hlocal, hfinal, hkept⟩ := ih hnext hadmittedRest hrest
          have hskip : isOwn own input = false := by rw [isOwn, hown]; rfl
          refine ⟨localReplies, localFinal, ?_, hfinal, ?_⟩
          · rw [List.filterMap_cons_none hown, hlocal]
          · rw [kept, if_neg (by simp [hskip]), List.filter_cons_of_neg (by simp [hskip]), hkept]
      | some localInput =>
          obtain ⟨localReply, localNext, hlocalStep, rfl, hnext⟩ := h.own_step hcomponent hown hstep
          obtain ⟨localReplies, localFinal, hlocal, hfinal, hkept⟩ := ih hnext hadmittedRest hrest
          have htake : isOwn own input = true := by rw [isOwn, hown]; rfl
          refine ⟨localReply :: localReplies, localFinal, ?_, hfinal, ?_⟩
          · rw [List.filterMap_cons_some hown, run_cons_ok hlocalStep, hlocal]
            rfl
          · rw [kept, if_pos htake, List.filter_cons_of_pos htake, List.zipWith_cons_cons, hkept]

/-- **A failure on one of the component's inputs** is a failure of the component run alone. -/
theorem run_failed (h : Projection step localStep component own admitted answer)
    (hcomponent : component state = some localState) (hadmitted : ∀ input ∈ inputs, admitted input)
    (hrun : StepMachine.run step state inputs = .ok (replies, final)) {input : Input}
    {localInput : LocalInput} {failure : Failure} (hown : own input = some localInput)
    (hstep : step final input = .error failure) :
    StepMachine.run localStep localState ((inputs ++ [input]).filterMap own) = .error failure := by
  obtain ⟨localReplies, localFinal, hlocal, hfinal, -⟩ := h.run hcomponent hadmitted hrun
  rw [List.filterMap_append, List.filterMap_cons_some hown, List.filterMap_nil]
  exact run_append_error hlocal (run_cons_error (h.own_failed hfinal hown hstep))

end Projection

end StepMachine
