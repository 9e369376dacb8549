import StatForge.Lib.StepMachine

/-!
# Forward simulation between two machines

A concrete machine and an abstract one take the same inputs.  A relation between their states is a
simulation if every step of the concrete machine that returns is a step of the abstract one with the
same reply as seen through a view; on some inputs the concrete machine may fail on its own.

* `Simulation.run_returned`, `Simulation.run_failed` — what the two runs have in common.
* `Simulation.run_exists` — an abstract run without excepted inputs is one of the concrete machine.
* `Simulation.indistinguishable` — two concrete states with one abstract state cannot be told apart.
* `Simulation.erase` — inputs that leave every abstract state alone can be left out of a run.
-/

namespace StepMachine

variable {State Abstract Input Failure Reply View : Type*}

/-- Every step that returns is a step of the abstract machine, and so is every failure on an input that
is not excepted. -/
structure Simulation (step : State → Input → Except Failure (Reply × State))
    (abstractStep : Abstract → Input → Except Failure (View × Abstract))
    (Rel : State → Abstract → Prop) (view : Reply → View) (mayFail : Input → Prop) : Prop where
  returned : ∀ {state abstract input reply next}, Rel state abstract →
    step state input = .ok (reply, next) →
      ∃ abstract', abstractStep abstract input = .ok (view reply, abstract') ∧ Rel next abstract'
  failed : ∀ {state abstract input failure}, Rel state abstract → ¬ mayFail input →
    step state input = .error failure → abstractStep abstract input = .error failure

/-- The replies to the inputs that are kept. -/
def kept (keep : Input → Bool) : List Input → List Reply → List Reply
  | input :: inputs, reply :: replies =>
      if keep input then reply :: kept keep inputs replies else kept keep inputs replies
  | _, _ => []

/-- The replies of a run as seen through a view. -/
def viewed (view : Reply → View) (result : Except Failure (List Reply × State)) :
    Except Failure (List View) :=
  result.map fun outcome => outcome.1.map view

/-- The replies of a run. -/
def repliesOf (result : Except Failure (List Reply × State)) : Except Failure (List Reply) :=
  result.map Prod.fst

section Run

variable {step : State → Input → Except Failure (Reply × State)} {state next : State}

theorem run_cons_ok {input : Input} {inputs : List Input} {reply : Reply}
    (hstep : step state input = .ok (reply, next)) :
    run step state (input :: inputs) =
      (run step next inputs).map fun outcome => (reply :: outcome.1, outcome.2) := by
  rw [run, hstep]
  dsimp only
  cases run step next inputs <;> rfl

theorem run_cons_error {input : Input} {inputs : List Input} {failure : Failure}
    (hstep : step state input = .error failure) :
    run step state (input :: inputs) = .error failure := by
  rw [run, hstep]

/-- A run that returns starts with a step that does. -/
theorem run_cons_eq_ok {input : Input} {inputs : List Input} {replies : List Reply} {final : State}
    (hrun : run step state (input :: inputs) = .ok (replies, final)) :
    ∃ reply next rest, step state input = .ok (reply, next) ∧
      run step next inputs = .ok (rest, final) ∧ replies = reply :: rest := by
  cases hstep : step state input with
  | error failure => rw [run_cons_error hstep] at hrun; cases hrun
  | ok outcome =>
      obtain ⟨reply, next⟩ := outcome
      rw [run_cons_ok hstep] at hrun
      cases hrest : run step next inputs with
      | error failure => rw [hrest] at hrun; cases hrun
      | ok outcome =>
          obtain ⟨rest, final'⟩ := outcome
          rw [hrest] at hrun
          cases hrun
          exact ⟨reply, next, rest, rfl, hrest, rfl⟩

/-- A run in which every step returns has replies and a final state. -/
theorem exists_run (step : State → Input → Except Failure (Reply × State)) (state : State)
    (inputs : List Input) (h : (run step state inputs).isOk = true) :
    ∃ replies final, run step state inputs = .ok (replies, final) := by
  cases hrun : run step state inputs with
  | error failure => rw [hrun] at h; cases h
  | ok outcome => exact ⟨outcome.1, outcome.2, rfl⟩

theorem run_append_ok {inputs inputs' : List Input} {replies replies' : List Reply}
    {final : State} (hrun : run step state inputs = .ok (replies, next))
    (hrun' : run step next inputs' = .ok (replies', final)) :
    run step state (inputs ++ inputs') = .ok (replies ++ replies', final) := by
  induction inputs generalizing state replies with
  | nil =>
      cases hrun
      exact hrun'
  | cons input inputs ih =>
      obtain ⟨reply, middle, rest, hstep, hrest, rfl⟩ := run_cons_eq_ok hrun
      rw [List.cons_append, run_cons_ok hstep, ih hrest]
      rfl

theorem run_append_error {inputs inputs' : List Input} {replies : List Reply} {failure : Failure}
    (hrun : run step state inputs = .ok (replies, next))
    (hrun' : run step next inputs' = .error failure) :
    run step state (inputs ++ inputs') = .error failure := by
  induction inputs generalizing state replies with
  | nil =>
      cases hrun
      exact hrun'
  | cons input inputs ih =>
      obtain ⟨reply, middle, rest, hstep, hrest, rfl⟩ := run_cons_eq_ok hrun
      rw [List.cons_append, run_cons_ok hstep, ih hrest]
      rfl

/-- Inputs that never change the state can be left out; the other replies stay. -/
theorem run_erase {keep : Input → Bool}
    (hsilent : ∀ {state input reply next}, keep input = false →
      step state input = .ok (reply, next) → next = state)
    {inputs : List Input} {replies : List Reply} {final : State}
    (hrun : run step state inputs = .ok (replies, final)) :
    run step state (inputs.filter keep) = .ok (kept keep inputs replies, final) := by
  induction inputs generalizing state replies with
  | nil =>
      cases hrun
      rfl
  | cons input inputs ih =>
      obtain ⟨reply, next, rest, hstep, hrest, rfl⟩ := run_cons_eq_ok hrun
      cases hkeep : keep input with
      | true =>
          rw [List.filter_cons_of_pos hkeep, run_cons_ok hstep, ih hrest, kept, if_pos hkeep]
          rfl
      | false =>
          obtain rfl := hsilent hkeep hstep
          rw [List.filter_cons_of_neg (by simp [hkeep]), ih hrest, kept, if_neg (by simp [hkeep])]

end Run

namespace Simulation

variable {step : State → Input → Except Failure (Reply × State)}
  {abstractStep : Abstract → Input → Except Failure (View × Abstract)}
  {Rel : State → Abstract → Prop} {view : Reply → View} {mayFail : Input → Prop}
  {state : State} {abstract : Abstract}

/-- **A run that returns is a run of the abstract machine**, with the same replies. -/
theorem run_returned (h : Simulation step abstractStep Rel view mayFail) (hrel : Rel state abstract)
    {inputs : List Input} {replies : List Reply} {final : State}
    (hrun : run step state inputs = .ok (replies, final)) :
    ∃ abstract', run abstractStep abstract inputs = .ok (replies.map view, abstract') ∧
      Rel final abstract' := by
  induction inputs generalizing state abstract replies with
  | nil =>
      cases hrun
      exact ⟨abstract, rfl, hrel⟩
  | cons input inputs ih =>
      obtain ⟨reply, next, rest, hstep, hrest, rfl⟩ := run_cons_eq_ok hrun
      obtain ⟨middle, hmiddle, hrelNext⟩ := h.returned hrel hstep
      obtain ⟨abstract', hrun', hrel'⟩ := ih hrelNext hrest
      refine ⟨abstract', ?_, hrel'⟩
      rw [run_cons_ok hmiddle, hrun']
      rfl

/-- **A run that fails** fails as the abstract one does, or at an input on which it may fail. -/
theorem run_failed (h : Simulation step abstractStep Rel view mayFail) (hrel : Rel state abstract)
    {inputs : List Input} {failure : Failure} (hrun : run step state inputs = .error failure) :
    run abstractStep abstract inputs = .error failure ∨
      ∃ before input after replies middle, inputs = before ++ input :: after ∧ mayFail input ∧
        run step state before = .ok (replies, middle) ∧ step middle input = .error failure := by
  induction inputs generalizing state abstract with
  | nil => cases hrun
  | cons input inputs ih =>
      cases hstep : step state input with
      | error failure' =>
          rw [run_cons_error hstep] at hrun
          cases hrun
          by_cases hmay : mayFail input
          · exact Or.inr ⟨[], input, inputs, [], state, rfl, hmay, rfl, hstep⟩
          · exact Or.inl (run_cons_error (h.failed hrel hmay hstep))
      | ok outcome =>
          obtain ⟨reply, next⟩ := outcome
          obtain ⟨middle, hmiddle, hrelNext⟩ := h.returned hrel hstep
          rw [run_cons_ok hstep] at hrun
          cases hrest : run step next inputs with
          | ok outcome => rw [hrest] at hrun; cases hrun
          | error failure' =>
              rw [hrest] at hrun
              cases hrun
              rcases ih hrelNext hrest with hrun' | ⟨before, input', after, replies, last, rfl, hmay,
                hbefore, hlast⟩
              · rw [run_cons_ok hmiddle, hrun']
                exact Or.inl rfl
              · refine Or.inr ⟨input :: before, input', after, reply :: replies, last, rfl, hmay, ?_,
                  hlast⟩
                rw [run_cons_ok hstep, hbefore]
                rfl

/-- **A run of the abstract machine** on inputs that are not excepted is one of the concrete
machine. -/
theorem run_exists (h : Simulation step abstractStep Rel view mayFail) (hrel : Rel state abstract)
    {inputs : List Input} (hinputs : ∀ input ∈ inputs, ¬ mayFail input) {views : List View}
    {abstract' : Abstract} (hrun : run abstractStep abstract inputs = .ok (views, abstract')) :
    ∃ replies final, run step state inputs = .ok (replies, final) ∧ replies.map view = views ∧
      Rel final abstract' := by
  cases hconcrete : run step state inputs with
  | ok outcome =>
      obtain ⟨replies, final⟩ := outcome
      obtain ⟨abstract'', habstract, hfinal⟩ := h.run_returned hrel hconcrete
      rw [hrun] at habstract
      obtain ⟨hviews, rfl⟩ := Prod.mk.inj (Except.ok.inj habstract)
      exact ⟨replies, final, rfl, hviews.symm, hfinal⟩
  | error failure =>
      rcases h.run_failed hrel hconcrete with hfail | ⟨before, input, after, -, -, rfl, hmay, -⟩
      · rw [hfail] at hrun
        cases hrun
      · exact absurd hmay (hinputs input (by simp))

/-- On inputs that are not excepted the two runs have the same replies and the same failure. -/
theorem viewed_run (h : Simulation step abstractStep Rel view mayFail) (hrel : Rel state abstract)
    {inputs : List Input} (hinputs : ∀ input ∈ inputs, ¬ mayFail input) :
    viewed view (run step state inputs) = repliesOf (run abstractStep abstract inputs) := by
  cases hrun : run step state inputs with
  | ok outcome =>
      obtain ⟨replies, final⟩ := outcome
      obtain ⟨abstract', hrun', -⟩ := h.run_returned hrel hrun
      rw [hrun']
      rfl
  | error failure =>
      rcases h.run_failed hrel hrun with hrun' | ⟨before, input, after, -, -, rfl, hmay, -⟩
      · rw [hrun']
        rfl
      · exact absurd hmay (hinputs input (by simp))

/-- **States with one abstract state** cannot be told apart by inputs that are not excepted. -/
theorem indistinguishable (h : Simulation step abstractStep Rel view mayFail) {state' : State}
    (hrel : Rel state abstract) (hrel' : Rel state' abstract) {inputs : List Input}
    (hinputs : ∀ input ∈ inputs, ¬ mayFail input) :
    viewed view (run step state inputs) = viewed view (run step state' inputs) := by
  rw [h.viewed_run hrel hinputs, h.viewed_run hrel' hinputs]

/-- **Silent inputs.**  If a run returns, then so does the run without the inputs that leave every
abstract state alone; the other replies and the abstract state at the end are the same. -/
theorem erase (h : Simulation step abstractStep Rel view mayFail) {keep : Input → Bool}
    (hsilent : ∀ {abstract input reply abstract'}, keep input = false →
      abstractStep abstract input = .ok (reply, abstract') → abstract' = abstract)
    (hkeep : ∀ input, keep input = true → ¬ mayFail input) (hrel : Rel state abstract)
    {inputs : List Input} {replies : List Reply} {final : State}
    (hrun : run step state inputs = .ok (replies, final)) :
    ∃ replies' final' abstract', run step state (inputs.filter keep) = .ok (replies', final') ∧
      replies'.map view = kept keep inputs (replies.map view) ∧
      Rel final abstract' ∧ Rel final' abstract' := by
  obtain ⟨abstract', habstract, hfinal⟩ := h.run_returned hrel hrun
  have hinputs : ∀ input ∈ inputs.filter keep, ¬ mayFail input :=
    fun input hmem => hkeep input (List.mem_filter.mp hmem).2
  obtain ⟨replies', final', hrun', hreplies, hfinal'⟩ :=
    h.run_exists hrel hinputs (run_erase hsilent habstract)
  exact ⟨replies', final', abstract', hrun', hreplies, hfinal, hfinal'⟩

end Simulation

end StepMachine
