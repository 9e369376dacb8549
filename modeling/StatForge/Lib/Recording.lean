import StatForge.Lib.FuelLoop

/-!
# Computations that record events

A computation that may fail, together with the events in it.  A failure ends it, and the events up to
the failure stay recorded.

* `Recording` — the computations; `record` is the only one that records an event.
* `ok_bind`, `error_bind`, `silent_bind` — a sequence records the events of its parts in order.
* `loop` — a loop whose rounds record events.
* `loop_eq` — the rule for loops: if every round records the event of its state, then the loop
  records the events of its history, and without them it is the loop with the plain rounds.
-/

universe u v w

/-- A computation with the events that it has recorded. -/
structure Recording (Event : Type u) (Failure : Type v) (α : Type w) where
  events : List Event
  result : Except Failure α

namespace Recording

variable {Event : Type u} {Failure : Type v} {α β : Type w}

/-- A computation that records nothing. -/
def silent (result : Except Failure α) : Recording Event Failure α := ⟨[], result⟩

/-- A computation that is an event itself. -/
def record (event : Event) (result : Except Failure α) : Recording Event Failure α :=
  ⟨[event], result⟩

instance : Monad (Recording Event Failure) where
  pure a := ⟨[], .ok a⟩
  bind x f :=
    match x.result with
    | .error failure => ⟨x.events, .error failure⟩
    | .ok a => ⟨x.events ++ (f a).events, (f a).result⟩

theorem pure_eq (a : α) : (pure a : Recording Event Failure α) = ⟨[], .ok a⟩ := rfl

theorem ok_bind (events : List Event) (a : α) (f : α → Recording Event Failure β) :
    ((⟨events, .ok a⟩ : Recording Event Failure α) >>= f) =
      ⟨events ++ (f a).events, (f a).result⟩ := rfl

theorem error_bind (events : List Event) (failure : Failure) (f : α → Recording Event Failure β) :
    ((⟨events, .error failure⟩ : Recording Event Failure α) >>= f) = ⟨events, .error failure⟩ := rfl

theorem silent_ok_bind (a : α) (f : α → Recording Event Failure β) :
    ((silent (.ok a) : Recording Event Failure α) >>= f) = f a := rfl

theorem silent_error_bind (failure : Failure) (f : α → Recording Event Failure β) :
    ((silent (.error failure) : Recording Event Failure α) >>= f) = ⟨[], .error failure⟩ := rfl

/-- A sequence of computations that record nothing. -/
theorem silent_bind (x : Except Failure α) (f : α → Except Failure β) :
    (silent (x >>= f) : Recording Event Failure β) = silent x >>= fun a => silent (f a) := by
  cases x <;> rfl

section Loop

variable {State Output : Type w}

/-- A loop whose rounds record events; an exhausted bound is a failure. -/
def loop (step : State → Recording Event Failure (Output ⊕ State)) (exhausted : Failure) :
    Nat → State → Recording Event Failure Output
  | 0, _ => silent (.error exhausted)
  | fuel + 1, state => do
      match ← step state with
      | .inl output => pure output
      | .inr next => loop step exhausted fuel next

/-- The result of a round that may leave the loop with a failure. -/
def outcome : Except Failure Output ⊕ State → Except Failure (Output ⊕ State)
  | .inl (.error failure) => .error failure
  | .inl (.ok output) => .ok (.inl output)
  | .inr next => .ok (.inr next)

/-- **The rule for loops that record.** -/
theorem loop_eq {step : State → Recording Event Failure (Output ⊕ State)}
    {plain : State → Except Failure Output ⊕ State} {event : State → Option Event}
    (hstep : ∀ state, step state = ⟨(event state).toList, outcome (plain state)⟩)
    (exhausted : Failure) (fuel : Nat) (state : State) :
    loop step exhausted fuel state =
      ⟨(FuelLoop.rounds plain fuel state).filterMap event,
        (FuelLoop.run plain fuel state).getD (.error exhausted)⟩ := by
  induction fuel generalizing state with
  | zero => rfl
  | succ fuel ih =>
      have hevents (past : List State) :
          (state :: past).filterMap event = (event state).toList ++ past.filterMap event := by
        cases hevent : event state <;> simp [hevent]
      rw [loop, hstep]
      cases hplain : plain state with
      | inl result =>
          rw [FuelLoop.run_succ_of_exit hplain, FuelLoop.rounds, hplain, hevents]
          cases result with
          | error failure =>
              rw [outcome, error_bind, List.filterMap_nil, List.append_nil]
              rfl
          | ok output =>
              rw [outcome, ok_bind]
              rfl
      | inr next =>
          rw [FuelLoop.run_succ_of_next hplain, FuelLoop.rounds, hplain, hevents]
          rw [outcome, ok_bind]
          dsimp only
          rw [ih]

end Loop

end Recording
