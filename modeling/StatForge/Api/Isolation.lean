import StatForge.Api.C
import StatForge.Lib.Projection
import StatForge.NanRat

/-!
# Engines in one process

The engines of a process share the error text, and the stack and the visited set of `hasPath`, which
are function statics that every call of `hasPath` clears at its entry.  For the kernel of an engine, a
run of the whole process is a run of the calls on this engine alone, in their order; the calls on
other engines, new engines and destroyed ones do not show.

* `Call.opOn` — the operation that a call makes on one engine.
* `projection` — the kernel of a live engine as a component of the process.
* `engines_do_not_interfere` — any interleaving of the calls on several engines.
* `kernels_of_step` — what every operation keeps, all kernels of a process keep.
-/

namespace StatForge.Api

open Dsl ExceptBind StepMachine StatForge.StatKernel

variable {D : Type} [Double D] {process next final : Process D} {handle : Handle}
  {kernel : StatKernel D} {call : Call D} {op : Op D} {answer : Answer D}

/-- The operation that a call makes on the engine at an address. -/
def Call.opOn (handle : Handle) (call : Call D) : Option (Op D) :=
  match call.request with
  | some (.ok (address, op)) => if address = handle then some op else none
  | _ => none

omit [Double D] in
theorem Call.opOn_eq_some : call.opOn handle = some op ↔ call.request = some (.ok (handle, op)) := by
  unfold Call.opOn
  split
  · rename_i address op' h
    simp only [h, Option.some.injEq, Except.ok.injEq, Prod.mk.injEq]
    split <;> simp_all
  · rename_i h
    simp only [reduceCtorEq, false_iff]
    exact h handle op

@[simp] theorem engines_sfSetError (process : Process D) (message : String) :
    (process.sfSetError message).engines = process.engines := rfl

@[simp] theorem engines_performed (process : Process D) (address : Handle) (reply : Reply D)
    (kernel : StatKernel D) :
    (process.performed address reply kernel).engines =
      Function.update process.engines address (some kernel) := by
  unfold Process.performed
  cases errorOf reply <;> rfl

/-- A call on an engine that returns makes a step of its kernel. -/
theorem perform_eq_ok {address : Handle} (h : process.perform call address op = .ok (answer, next)) :
    ∃ kernel reply kernel', process.engines address = some kernel ∧
      kernel.step op = .ok (reply, kernel') ∧ answer = call.answered reply ∧
      next = process.performed address reply kernel' := by
  unfold Process.perform at h
  cases hengine : process.engines address with
  | none => rw [hengine] at h; cases h
  | some kernel =>
      rw [hengine] at h
      dsimp only at h
      cases hstep : kernel.step op with
      | error reason => rw [hstep] at h; cases h
      | ok outcome =>
          obtain ⟨reply, kernel'⟩ := outcome
          rw [hstep] at h
          cases h
          exact ⟨kernel, reply, kernel', rfl, hstep, rfl, rfl⟩

/-- A new engine takes an address of no live engine. -/
theorem create_eq_ok {address : Handle}
    (h : step process (.createEngine address) = .ok (answer, next)) :
    process.engines address = none ∧ answer = .engine address ∧
      next = { process with engines := Function.update process.engines address (some fresh) } := by
  rw [step, Process.sfCreateEngine] at h
  cases hengine : process.engines address with
  | none =>
      rw [hengine] at h
      cases h
      exact ⟨rfl, rfl, rfl⟩
  | some kernel => rw [hengine] at h; cases h

theorem destroy_eq_ok {engine : Option Handle}
    (h : step process (.destroyEngine engine) = .ok (answer, next)) :
    answer = .void ∧ (engine = none ∧ next = process ∨
      ∃ address kernel, engine = some address ∧ process.engines address = some kernel ∧
        next = { process with engines := Function.update process.engines address none }) := by
  rw [step] at h
  cases engine with
  | none =>
      cases h
      exact ⟨rfl, Or.inl ⟨rfl, rfl⟩⟩
  | some address =>
      rw [Process.sfDestroyEngine] at h
      cases hengine : process.engines address with
      | none => rw [hengine] at h; cases h
      | some kernel =>
          rw [hengine] at h
          cases h
          exact ⟨rfl, Or.inr ⟨address, kernel, rfl, hengine, rfl⟩⟩

/-- **What a step does**: a failed check, an operation on a live engine, a new engine, a destroyed
one, or a report. -/
theorem step_cases (h : step process call = .ok (answer, next)) :
    (∃ objection, call.request = some (.error objection) ∧ answer = call.refused objection.code ∧
      next = process.sfSetError objection.message) ∨
    (∃ address op kernel reply kernel', call.request = some (.ok (address, op)) ∧
      process.engines address = some kernel ∧ kernel.step op = .ok (reply, kernel') ∧
      answer = call.answered reply ∧ next = process.performed address reply kernel') ∨
    (∃ address, call = .createEngine address ∧ process.engines address = none ∧
      answer = .engine address ∧
      next = { process with engines := Function.update process.engines address (some fresh) }) ∨
    (∃ engine, call = .destroyEngine engine ∧ answer = .void ∧ (engine = none ∧ next = process ∨
      ∃ address kernel, engine = some address ∧ process.engines address = some kernel ∧
        next = { process with engines := Function.update process.engines address none })) ∨
    (call = .lastError ∧ answer = .message process.errorMessage ∧
      next = { process with errorMessage := [] }) := by
  cases hrequest : call.request with
  | none =>
      cases call with
      | createEngine address =>
          exact Or.inr (Or.inr (Or.inl ⟨address, rfl, create_eq_ok h⟩))
      | destroyEngine engine =>
          exact Or.inr (Or.inr (Or.inr (Or.inl ⟨engine, rfl, destroy_eq_ok h⟩)))
      | lastError =>
          cases h
          exact Or.inr (Or.inr (Or.inr (Or.inr ⟨rfl, rfl, rfl⟩)))
      | _ => cases hrequest
  | some request =>
      cases request with
      | error objection =>
          rw [step_refused hrequest] at h
          cases h
          exact Or.inl ⟨objection, rfl, rfl, rfl⟩
      | ok target =>
          obtain ⟨address, op⟩ := target
          rw [step_performed hrequest] at h
          obtain ⟨kernel, reply, kernel', hengine, hstep, rfl, rfl⟩ := perform_eq_ok h
          exact Or.inr (Or.inl ⟨address, op, kernel, reply, kernel', rfl, hengine, hstep, rfl, rfl⟩)

/-- A call that makes no operation on a live engine, and does not destroy it, leaves it as it is. -/
theorem engines_of_other (hlive : process.engines handle = some kernel)
    (hop : call.opOn handle = none) (hdestroy : call ≠ .destroyEngine (some handle))
    (hstep : step process call = .ok (answer, next)) : next.engines handle = some kernel := by
  rcases step_cases hstep with ⟨objection, -, -, rfl⟩ |
    ⟨address, op, kernel', reply, kernel'', hrequest, -, -, -, rfl⟩ |
    ⟨address, -, hnone, -, rfl⟩ | ⟨engine, rfl, -, hdestroyed⟩ | ⟨-, -, rfl⟩
  · exact hlive
  · have hne : handle ≠ address := by
      rintro rfl
      rw [Call.opOn_eq_some.mpr hrequest] at hop
      cases hop
    rw [engines_performed, Function.update_of_ne hne]
    exact hlive
  · have hne : handle ≠ address := by
      rintro rfl
      rw [hlive] at hnone
      cases hnone
    exact (Function.update_of_ne hne _ _).trans hlive
  · rcases hdestroyed with ⟨-, rfl⟩ | ⟨address, kernel', rfl, -, rfl⟩
    · exact hlive
    · have hne : handle ≠ address := fun h => hdestroy (by rw [h])
      exact (Function.update_of_ne hne _ _).trans hlive
  · exact hlive

/-- **The kernel of a live engine** is a component of the process. -/
theorem projection (handle : Handle) :
    Projection (step (D := D)) StatKernel.step (fun process => process.engines handle)
      (Call.opOn handle) (· ≠ .destroyEngine (some handle)) Call.answered where
  own_step := by
    intro process call kernel op answer next hlive hop hstep
    rw [step_performed (Call.opOn_eq_some.mp hop)] at hstep
    obtain ⟨kernel', reply, kernel'', hengine, hkernel, rfl, rfl⟩ := perform_eq_ok hstep
    obtain rfl := Option.some.inj (hlive.symm.trans hengine)
    exact ⟨reply, kernel'', hkernel, rfl, by simp⟩
  own_failed := by
    intro process call kernel op reason hlive hop hstep
    rw [step_performed (Call.opOn_eq_some.mp hop), Process.perform, hlive] at hstep
    cases hkernel : kernel.step op with
    | error reason' => simpa [hkernel] using hstep
    | ok outcome => simp [hkernel] at hstep
  other_step := fun hlive hop hadmitted hstep => engines_of_other hlive hop hadmitted hstep

/-- **Engines do not interfere.**  In any run of a process that does not destroy a live engine, its
kernel goes through the run of the calls on this engine alone, whatever is called on other engines in
between: it ends in the same state and its calls have the same answers; and a next call on it aborts
the process only if it ends that run of the kernel. -/
theorem engines_do_not_interfere {calls : List (Call D)} {answers : List (Answer D)}
    (hlive : process.engines handle = some kernel)
    (hkeep : ∀ call ∈ calls, call ≠ .destroyEngine (some handle))
    (hrun : run step process calls = .ok (answers, final)) :
    ∃ replies kernel',
      run StatKernel.step kernel (calls.filterMap (Call.opOn handle)) = .ok (replies, kernel') ∧
      final.engines handle = some kernel' ∧
      kept (isOwn (Call.opOn handle)) calls answers =
        List.zipWith Call.answered (calls.filter (isOwn (Call.opOn handle))) replies ∧
      ∀ call op reason, call.opOn handle = some op → step final call = .error reason →
        run StatKernel.step kernel ((calls ++ [call]).filterMap (Call.opOn handle)) =
          .error reason := by
  obtain ⟨replies, kernel', hkernel, hfinal, hkept⟩ := (projection handle).run hlive hkeep hrun
  exact ⟨replies, kernel', hkernel, hfinal, hkept, fun call op reason hop hstep =>
    (projection handle).run_failed hlive hkeep hrun hop hstep⟩

private def levelName : CString := ⟨"level".toList, by decide⟩

/-- The calls of two engines on nodes of one name. -/
private def twoEngines : List (Call NanRat) :=
  [.createValueNode (some 1) (some levelName) (Double.ofNat 5),
    .createFormulaNode (some 2) (some levelName) (some ⟨"2 * 3".toList, by decide⟩),
    .getNodeValue2 (some 2) (some levelName), .setNodeValue (some 2) none (Double.ofNat 8),
    .getNodeValue2 (some 1) (some levelName), .createEngine 3]

/-- A process with two new engines. -/
private def newEngines : Process NanRat :=
  { engines := Function.update (Function.update (fun _ => none) 1 (some fresh)) 2 (some fresh) }

theorem same_name_in_two_engines : ∃ answers final,
    run step newEngines twoEngines = .ok (answers, final) ∧
    ∃ replies kernel', run StatKernel.step fresh (twoEngines.filterMap (Call.opOn 1)) =
        .ok (replies, kernel') ∧ final.engines 1 = some kernel' := by
  have hlive : newEngines.engines 1 = some fresh := rfl
  obtain ⟨answers, final, hrun⟩ := exists_run step newEngines twoEngines (by decide +kernel)
  obtain ⟨replies, kernel', hkernel, hfinal, -⟩ :=
    engines_do_not_interfere hlive (by simp [twoEngines]) hrun
  exact ⟨answers, final, hrun, replies, kernel', hkernel, hfinal⟩

/-- What a new kernel has, and every operation keeps, all kernels of a process have. -/
theorem kernels_of_step {good : StatKernel D → Prop} (hfresh : good fresh)
    (hkept : ∀ {address op kernel reply kernel'}, call.request = some (.ok (address, op)) →
      good kernel → kernel.step op = .ok (reply, kernel') → good kernel')
    (hgood : ∀ address kernel, process.engines address = some kernel → good kernel)
    (hstep : step process call = .ok (answer, next)) :
    ∀ address kernel, next.engines address = some kernel → good kernel := by
  have hupdate (address : Handle) {engine : Option (StatKernel D)}
      (hengine : ∀ kernel, engine = some kernel → good kernel) :
      ∀ address' kernel, Function.update process.engines address engine address' = some kernel →
        good kernel := by
    rw [Function.forall_update_iff process.engines
      fun _ engine => ∀ kernel, engine = some kernel → good kernel]
    exact ⟨hengine, fun address' _ => hgood address'⟩
  rcases step_cases hstep with ⟨objection, -, -, rfl⟩ |
    ⟨address, op, kernel, reply, kernel', hrequest, hengine, hkernel, -, rfl⟩ |
    ⟨address, -, -, -, rfl⟩ | ⟨engine, -, -, hdestroyed⟩ | ⟨-, -, rfl⟩
  · exact hgood
  · rw [engines_performed]
    refine hupdate address ?_
    rintro _ ⟨⟩
    exact hkept hrequest (hgood address kernel hengine) hkernel
  · exact hupdate address (by rintro _ ⟨⟩; exact hfresh)
  · rcases hdestroyed with ⟨-, rfl⟩ | ⟨address, kernel, -, -, rfl⟩
    · exact hgood
    · exact hupdate address (by rintro _ ⟨⟩)
  · exact hgood

end StatForge.Api
