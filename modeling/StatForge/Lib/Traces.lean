import StatForge.Lib.StepMachine

/-!
# Runs with their replies

A run as one list of inputs with the replies to them.

* `Ran` — the run of a list of inputs with these replies.
* `ran_append` — two runs one after the other.
* `ran_iff_run` — the relation to `run`.
* `Ran.unchanged` — a part of the state that no step of a run changes.
* `Happens` — one of the steps of a run is of a given kind; `Ran.kept_or_happens` is the rule for what
  all steps of other kinds keep.
-/

namespace StepMachine

variable {State Input Failure Reply View : Type*}
  {step : State → Input → Except Failure (Reply × State)} {state final : State}

/-- The inputs, each with its reply, lead from the first state to the last. -/
def Ran (step : State → Input → Except Failure (Reply × State)) :
    State → List (Input × Reply) → State → Prop
  | state, [], final => final = state
  | state, (input, reply) :: events, final =>
      ∃ next, step state input = .ok (reply, next) ∧ Ran step next events final

theorem ran_append {events events' : List (Input × Reply)} :
    Ran step state (events ++ events') final ↔
      ∃ middle, Ran step state events middle ∧ Ran step middle events' final := by
  induction events generalizing state with
  | nil =>
      constructor
      · intro h
        exact ⟨state, rfl, h⟩
      · rintro ⟨middle, rfl, h⟩
        exact h
  | cons event events ih =>
      constructor
      · rintro ⟨next, hstep, hrest⟩
        obtain ⟨middle, hevents, hevents'⟩ := ih.mp hrest
        exact ⟨middle, ⟨next, hstep, hevents⟩, hevents'⟩
      · rintro ⟨middle, ⟨next, hstep, hevents⟩, hevents'⟩
        exact ⟨next, hstep, ih.mpr ⟨middle, hevents, hevents'⟩⟩

theorem ran_singleton {input : Input} {reply : Reply} :
    Ran step state [(input, reply)] final ↔ step state input = .ok (reply, final) := by
  constructor
  · rintro ⟨next, hstep, rfl⟩
    exact hstep
  · intro hstep
    exact ⟨final, hstep, rfl⟩

theorem ran_iff_run {events : List (Input × Reply)} :
    Ran step state events final ↔
      run step state (events.map Prod.fst) = .ok (events.map Prod.snd, final) := by
  induction events generalizing state with
  | nil =>
      rw [Ran, List.map_nil, List.map_nil, run, Except.ok.injEq, Prod.mk.injEq]
      exact ⟨fun h => ⟨rfl, h.symm⟩, fun h => h.2.symm⟩
  | cons event events ih =>
      obtain ⟨input, reply⟩ := event
      rw [Ran, List.map_cons, List.map_cons, run]
      cases hstep : step state input with
      | error failure => simp
      | ok outcome =>
          obtain ⟨reply', next⟩ := outcome
          dsimp only
          cases hrest : run step next (events.map Prod.fst) with
          | error failure =>
              simp only [Except.ok.injEq, Prod.mk.injEq, reduceCtorEq, iff_false]
              rintro ⟨_, ⟨-, rfl⟩, h⟩
              rw [ih, hrest] at h
              cases h
          | ok outcome =>
              simp only [Except.ok.injEq, Prod.mk.injEq, List.cons.injEq]
              constructor
              · rintro ⟨_, ⟨rfl, rfl⟩, h⟩
                rw [ih, hrest, Except.ok.injEq] at h
                rw [h]
                exact ⟨⟨rfl, rfl⟩, rfl⟩
              · rintro ⟨⟨rfl, hreplies⟩, hfinal⟩
                refine ⟨next, ⟨rfl, rfl⟩, ih.mpr ?_⟩
                rw [hrest, ← hreplies, ← hfinal]

/-- What no step of a run changes is at its end as at its start. -/
theorem Ran.unchanged {part : State → View} {events : List (Input × Reply)}
    (hstep : ∀ {state next input reply}, (input, reply) ∈ events →
      step state input = .ok (reply, next) → part next = part state)
    (h : Ran step state events final) : part final = part state := by
  induction events generalizing state with
  | nil => rw [show final = state from h]
  | cons event events ih =>
      obtain ⟨next, hfirst, hrest⟩ := h
      calc part final = part next := ih (fun hmem => hstep (List.mem_cons_of_mem _ hmem)) hrest
        _ = part state := hstep List.mem_cons_self hfirst

/-- Somewhere in the run there is such a step. -/
def Happens (step : State → Input → Except Failure (Reply × State))
    (event : State → Input → State → Prop) (state : State) (events : List (Input × Reply)) : Prop :=
  ∃ before input reply after middle next, events = before ++ (input, reply) :: after ∧
    Ran step state before middle ∧ step middle input = .ok (reply, next) ∧ event middle input next

theorem happens_first {event : State → Input → State → Prop} {events : List (Input × Reply)}
    {input : Input} {reply : Reply} {next : State} (hstep : step state input = .ok (reply, next))
    (h : event state input next) : Happens step event state ((input, reply) :: events) :=
  ⟨[], input, reply, events, state, next, rfl, rfl, hstep, h⟩

theorem Happens.later {event : State → Input → State → Prop} {events : List (Input × Reply)}
    {input : Input} {reply : Reply} {next : State} (hstep : step state input = .ok (reply, next))
    (h : Happens step event next events) : Happens step event state ((input, reply) :: events) := by
  obtain ⟨before, input', reply', after, middle, next', rfl, hbefore, hstep', hevent⟩ := h
  exact ⟨(input, reply) :: before, input', reply', after, middle, next', rfl,
    ⟨next, hstep, hbefore⟩, hstep', hevent⟩

theorem happens_singleton {event : State → Input → State → Prop} {input : Input} {reply : Reply} :
    Happens step event state [(input, reply)] ↔
      ∃ next, step state input = .ok (reply, next) ∧ event state input next := by
  constructor
  · rintro ⟨before, input', reply', after, middle, next, heq, hbefore, hstep, hevent⟩
    obtain ⟨rfl, hrest⟩ | ⟨-, hrest⟩ := List.singleton_eq_append_iff.mp heq
    · obtain ⟨hfirst, -⟩ := List.cons_eq_cons.mp hrest
      obtain ⟨rfl, rfl⟩ := Prod.mk.inj hfirst
      obtain rfl : middle = state := hbefore
      exact ⟨next, hstep, hevent⟩
    · cases hrest
  · rintro ⟨next, hstep, hevent⟩
    exact happens_first hstep hevent

/-- What every other step keeps is kept by a run in which no such step happens. -/
theorem Ran.kept_or_happens {event : State → Input → State → Prop} {events : List (Input × Reply)}
    (kept : State → Prop)
    (hkept : ∀ {state input reply next}, kept state → step state input = .ok (reply, next) →
      kept next ∨ event state input next)
    (hstate : kept state) (h : Ran step state events final) :
    kept final ∨ Happens step event state events := by
  induction events generalizing state with
  | nil =>
      rw [show final = state from h]
      exact Or.inl hstate
  | cons first events ih =>
      obtain ⟨next, hstep, hrest⟩ := h
      rcases hkept hstate hstep with hnext | hevent
      · exact (ih hnext hrest).imp_right (Happens.later hstep)
      · exact Or.inr (happens_first hstep hevent)

end StepMachine
