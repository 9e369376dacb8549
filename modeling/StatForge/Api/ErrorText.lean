import StatForge.Api.Isolation
import StatForge.Lib.Traces
import StatForge.StatKernel.Messages

/-!
# The error text

`sf_last_error` returns the text of the last error and consumes it.  A call that fails overwrites the
text with one that is not empty; every other call leaves it as it is.

* `Call.failed` — the calls that report an error, as far as their answers show it.
* `text_of_step` — what a call does to the text.
* `last_error_is_the_last_failure` — what `sf_last_error` answers in any run of a process.
-/

namespace StatForge.Api

open Dsl StepMachine StatForge.StatKernel

variable {D : Type} [Double D]

/-- The call has failed, by the code that it returns.  A call without a code fails only on a null
engine. -/
def Call.failed (call : Call D) : Answer D → Bool
  | .code code => code ≠ .ok
  | .read code _ => code ≠ .ok
  | .value code _ => code ≠ .ok
  | .void =>
      match call with
      | .resetEngine engine => engine.isNone
      | .evaluateEngine engine => engine.isNone
      | _ => false
  | .engine _ => false
  | .message _ => false

/-- The text that is kept of a visible message is not empty. -/
theorem errorMessage_ne_nil {process : Process D} {message : String} (h : Visible message) :
    (process.sfSetError message).errorMessage ≠ [] := by
  rw [Visible] at h
  rw [Process.sfSetError]
  cases hmessage : message.toList with
  | nil => exact absurd (by rw [hmessage]; rfl) h
  | cons c rest =>
      rw [hmessage] at h
      have hc : c ≠ nul := h
      simp [hc]

variable {process next final : Process D} {call : Call D} {answer : Answer D}

/-- A check that fails has a visible message and is answered by a failure. -/
theorem failed_of_objection {objection : Objection} (h : call.request = some (.error objection)) :
    Visible objection.message ∧ call.failed (call.refused objection.code) = true := by
  cases call with
  | createEngine address => cases h
  | destroyEngine engine => cases h
  | lastError => cases h
  | resetEngine engine =>
      cases engine <;> cases h
      exact ⟨by decide, rfl⟩
  | evaluateEngine engine =>
      cases engine <;> cases h
      exact ⟨by decide, rfl⟩
  | createFormulaNode engine name formula =>
      cases engine <;> cases name <;> cases formula <;> cases h <;> exact ⟨by decide, rfl⟩
  | setNodeFormula engine name formula =>
      cases engine <;> cases name <;> cases formula <;> cases h <;> exact ⟨by decide, rfl⟩
  | setNodeDependency engine name dependencies =>
      cases engine <;> cases name <;> cases dependencies <;> cases h <;> exact ⟨by decide, rfl⟩
  | getNodeValue engine name outValue =>
      cases engine <;> cases name <;> cases outValue <;> cases h <;> exact ⟨by decide, rfl⟩
  | getNodeValue2 engine name =>
      cases engine <;> cases name <;> cases h <;> exact ⟨by decide, rfl⟩
  | createCollectionNode engine name operation =>
      cases engine <;> cases name <;> cases h <;> exact ⟨by decide, rfl⟩
  | createValueNode engine name value =>
      cases engine <;> cases name <;> cases h <;> exact ⟨by decide, rfl⟩
  | removeNode engine name => cases engine <;> cases name <;> cases h <;> exact ⟨by decide, rfl⟩
  | setNodeValue engine name value =>
      cases engine <;> cases name <;> cases h <;> exact ⟨by decide, rfl⟩

omit [Double D] in
theorem errorOf_eq_some {reply : Reply D} {info : ErrorInfo} :
    errorOf reply = some info ↔ reply = .result (.error info) ∨ reply = .value (.error info) := by
  cases reply with
  | void => simp [errorOf]
  | result result => cases result <;> simp [errorOf]
  | value result => cases result <;> simp [errorOf]

omit [Double D] in
theorem codeOf_ne_ok (reply : Reply D) :
    decide (codeOf reply ≠ .ok) = (errorOf reply).isSome := by
  rw [codeOf]
  cases errorOf reply with
  | none => rfl
  | some info => rfl

/-- The kernel's reply is answered by a failure exactly if it is an error. -/
theorem failed_answered {address : Handle} {op : Op D} {kernel kernel' : StatKernel D}
    {reply : Reply D} (h : call.request = some (.ok (address, op)))
    (hstep : kernel.step op = .ok (reply, kernel')) :
    call.failed (call.answered reply) = (errorOf reply).isSome := by
  cases call with
  | createEngine address => cases h
  | destroyEngine engine => cases h
  | lastError => cases h
  | resetEngine engine =>
      cases engine <;> cases h
      cases hstep
      rfl
  | evaluateEngine engine =>
      cases engine <;> cases h
      rw [reply_of_evaluate hstep]
      rfl
  | getNodeValue engine name outValue =>
      cases reply with
      | void => rfl
      | result result => exact codeOf_ne_ok (.result result)
      | value result => cases result <;> rfl
  | getNodeValue2 engine name =>
      cases reply with
      | void => rfl
      | result result => exact codeOf_ne_ok (.result result)
      | value result => cases result <;> rfl
  | _ => exact codeOf_ne_ok reply

/-- **What a call does to the text.** -/
theorem text_of_step (hcall : call ≠ .lastError) (hstep : step process call = .ok (answer, next)) :
    (call.failed answer = false ∧ next.errorMessage = process.errorMessage) ∨
    (call.failed answer = true ∧ next.errorMessage ≠ []) := by
  rcases step_cases hstep with ⟨objection, hrequest, rfl, rfl⟩ |
    ⟨address, op, kernel, reply, kernel', hrequest, hengine, hkernel, rfl, rfl⟩ |
    ⟨address, rfl, -, rfl, rfl⟩ | ⟨engine, rfl, rfl, hdestroyed⟩ | ⟨rfl, -, -⟩
  · obtain ⟨hvisible, hfailed⟩ := failed_of_objection hrequest
    exact Or.inr ⟨hfailed, errorMessage_ne_nil hvisible⟩
  · cases herror : errorOf reply with
    | none =>
        refine Or.inl ⟨?_, ?_⟩
        · rw [failed_answered hrequest hkernel, herror]
          rfl
        · rw [Process.performed, herror]
    | some info =>
        refine Or.inr ⟨?_, ?_⟩
        · rw [failed_answered hrequest hkernel, herror]
          rfl
        · rw [Process.performed, herror]
          exact errorMessage_ne_nil (visible_of_step hkernel (errorOf_eq_some.mp herror))
  · exact Or.inl ⟨rfl, rfl⟩
  · refine Or.inl ⟨rfl, ?_⟩
    rcases hdestroyed with ⟨-, rfl⟩ | ⟨address, kernel, -, -, rfl⟩
    · rfl
    · rfl
  · exact absurd rfl hcall

/-- A call of the interface with its answer. -/
abbrev Event (D : Type) := Call D × Answer D

/-- The event is a failed call. -/
def isFailure (event : Event D) : Bool := event.1.failed event.2

/-- Calls that do not fail leave the text as it is. -/
theorem errorMessage_of_quiet {events : List (Event D)} (hran : Ran step process events final)
    (hcalls : ∀ event ∈ events, event.1 ≠ .lastError)
    (hquiet : ∀ event ∈ events, isFailure event = false) :
    final.errorMessage = process.errorMessage := by
  refine hran.unchanged fun {state next call answer} hmem hstep => ?_
  rcases text_of_step (hcalls _ hmem) hstep with ⟨-, htext⟩ | ⟨hfailed, -⟩
  · exact htext
  · have hquiet' : call.failed answer = false := hquiet _ hmem
    rw [hfailed] at hquiet'
    cases hquiet'

/-- Behind a failure there is a text until it is asked for. -/
theorem errorMessage_of_failure {events : List (Event D)} (hran : Ran step process events final)
    (hcalls : ∀ event ∈ events, event.1 ≠ .lastError)
    (hfailure : process.errorMessage ≠ [] ∨ ∃ event ∈ events, isFailure event = true) :
    final.errorMessage ≠ [] := by
  induction events generalizing process with
  | nil =>
      rw [show final = process from hran]
      exact hfailure.resolve_right (by simp)
  | cons event events ih =>
      obtain ⟨call, answer⟩ := event
      obtain ⟨next, hstep, hrest⟩ := hran
      obtain ⟨hcall, hcallsRest⟩ := List.forall_mem_cons.mp hcalls
      refine ih hrest hcallsRest ?_
      rcases text_of_step hcall hstep with ⟨hquiet, htext⟩ | ⟨-, hne⟩
      · rw [htext]
        refine hfailure.imp_right fun ⟨event, hevent, hfailed⟩ => ?_
        rcases List.mem_cons.mp hevent with rfl | hevent
        · rw [isFailure, hquiet] at hfailed
          cases hfailed
        · exact ⟨event, hevent, hfailed⟩
      · exact Or.inl hne

/-- **The last failure.**  In any run of a process, `sf_last_error` answers the empty text exactly if no
call has failed since it was called before; otherwise it answers what it would have answered right
behind the last call that failed. -/
theorem last_error_is_the_last_failure {earlier recent : List (Event D)} {text : StdString}
    (hran : Ran step start (earlier ++ recent ++ [(.lastError, .message text)]) final)
    (hearlier : earlier = [] ∨ ∃ before answer, earlier = before ++ [(.lastError, answer)])
    (hrecent : ∀ event ∈ recent, event.1 ≠ .lastError) :
    (text = [] ↔ ∀ event ∈ recent, isFailure event = false) ∧
    ∀ before event after, recent = before ++ event :: after → isFailure event = true →
      (∀ event ∈ after, isFailure event = false) →
      ∃ final', Ran step start (earlier ++ before ++ [event, (.lastError, .message text)]) final' := by
  obtain ⟨last, hcalls, hreport⟩ := ran_append.mp hran
  obtain ⟨middle, hbefore, hafter⟩ := ran_append.mp hcalls
  have htext : text = last.errorMessage := by
    have hanswer := ran_singleton.mp hreport
    cases hanswer
    rfl
  -- The text has been consumed, or none has been set.
  have hmiddle : middle.errorMessage = [] := by
    rcases hearlier with rfl | ⟨before, answer, rfl⟩
    · rw [show middle = start from hbefore]
      rfl
    · obtain ⟨_, -, hconsumed⟩ := ran_append.mp hbefore
      have hanswer := ran_singleton.mp hconsumed
      cases hanswer
      rfl
  refine ⟨⟨fun hnil => ?_, fun hquiet => ?_⟩, ?_⟩
  · by_contra hsome
    push Not at hsome
    obtain ⟨event, hevent, hfailed⟩ := hsome
    refine errorMessage_of_failure hafter hrecent (Or.inr ⟨event, hevent, ?_⟩) (htext ▸ hnil)
    simpa using hfailed
  · rw [htext, errorMessage_of_quiet hafter hrecent hquiet, hmiddle]
  · rintro before ⟨call, answer⟩ after rfl - hquiet
    obtain ⟨state, hfirst, next, hstep, hrest⟩ := ran_append.mp hafter
    rw [List.forall_mem_append, List.forall_mem_cons] at hrecent
    have hkept := errorMessage_of_quiet hrest hrecent.2.2 hquiet
    refine ⟨{ next with errorMessage := [] }, ?_⟩
    refine ran_append.mpr ⟨state, ran_append.mpr ⟨middle, hbefore, hfirst⟩, next, hstep, ?_⟩
    refine ran_singleton.mpr ?_
    rw [htext, hkept]
    rfl

private def newEngine : Event NanRat := (.createEngine 1, .engine 1)

/-- A call that fails. -/
private def nullName : Event NanRat :=
  (.setNodeValue (some 1) none (Double.ofNat 8), .code .internalInvalidEngineState)

/-- A call that succeeds. -/
private def newTank : Event NanRat :=
  (.createValueNode (some 1) (some ⟨"tank".toList, by decide⟩) (Double.ofNat 5), .code .ok)

/-- The success behind the failure does not show. -/
theorem null_name_is_reported : ∃ final',
    Ran step start ([] ++ [newEngine] ++ [nullName, (.lastError, .message "name is null".toList)])
      final' := by
  obtain ⟨final, hran⟩ : ∃ final, Ran step start ([] ++ [newEngine, nullName, newTank] ++
      [(.lastError, .message "name is null".toList)]) final := ⟨_, ran_iff_run.mpr rfl⟩
  have hcalls : ∀ event ∈ [newEngine, nullName, newTank], event.1 ≠ .lastError := by
    simp [newEngine, nullName, newTank]
  have hquiet : ∀ event ∈ [newTank], isFailure event = false := by
    simp only [List.mem_singleton, forall_eq]
    rfl
  exact (last_error_is_the_last_failure hran (Or.inl rfl) hcalls).2 [newEngine] nullName [newTank]
    rfl rfl hquiet

end StatForge.Api
