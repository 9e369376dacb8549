import StatForge.Api.Isolation
import StatForge.Dsl.Scanning
import StatForge.Dsl.TokenAccess
import StatForge.StatKernel.Safety

/-!
# What a caller has to keep to

A process does not end in a call if its caller passes live engines, or null, and formulas with supported
calls; whatever else the arguments are, the call returns.  The one exception is an evaluation pass over a
recorded leaf that has been removed.

* `compileAst_ne_error` — compiling returns for every text.
* `step_returns` — every call of the kernel, under safe formulas.
* `Disciplined` — live engines and supported formulas, along a sequence of calls.
* `disciplined_calls_return` — such a sequence returns.
-/

namespace StatForge

variable {D : Type} [Double D]

/-! ### The kernel -/

namespace StatKernel

open Dsl ExceptBind StatForge.Dsl.ExpressionTree StatForge.StatKernel.Graph

/-- The parser stays within a list of tokens that ends with `EndOfFile`. -/
theorem parse_ne_abort {tokens : List (Token D)} {reason : Abort} (h : Parser.Terminated tokens)
    (fold : Bool) : Parser.parse tokens fold ≠ .error (.abort reason) := by
  intro habort
  have hterm : Parser.Terminated (⟨tokens, 0⟩ : Parser D).rest := h
  have hsettles := (Parser.settlesUpTo _).expression 0 _ (Int.le_refl 0) hterm (Nat.le_refl _)
  have hproper := hsettles.post (show _ ≤ 2 * tokens.length + 2 from Nat.le_succ _)
  rw [Parser.parse] at habort
  rcases bind_eq_error.mp habort with hparse | ⟨⟨ast, p⟩, hparse, hfinish⟩
  · rw [hparse] at hproper
    exact hproper
  · rw [hparse] at hproper
    obtain ⟨word, hword, -⟩ := hproper
    exact Parser.finish_ne_abort hword.terminated hfinish

/-- Compiling accepts or rejects every text. -/
theorem compileAst_ne_error (id : NodeId) (text : StdString) (reason : Abort) :
    compileAst (D := D) id text ≠ .error reason := by
  unfold compileAst
  dsimp only
  cases htokens : (tokenize text : Result (List (Token D))) with
  | error info => simp
  | ok tokens =>
      obtain ⟨tail, lexemes, front, span, -, -, htokens', -⟩ := lexed_of_tokenize htokens
      have hterm : Parser.Terminated tokens := ⟨front, _, htokens', rfl⟩
      dsimp only
      cases hparse : Parser.parse tokens with
      | ok ast => simp
      | error stop =>
          cases stop with
          | error info => simp
          | abort reason' => exact absurd hparse (parse_ne_abort hterm true)

/-- The kernel is consistent, and the evaluator can run all of its trees. -/
structure Runnable (kernel : StatKernel D) : Prop where
  consistent : kernel.Consistent
  operators : kernel.graph.FormulasHold operatorHandled
  calls : kernel.graph.FormulasHold callSupported

theorem Runnable.fresh : (fresh : StatKernel D).Runnable :=
  ⟨.fresh, FormulasHold.empty, FormulasHold.empty⟩

variable {kernel next : StatKernel D} {op : Op D} {reply : Reply D}

/-- A call with a supported formula keeps the trees runnable. -/
theorem Runnable.step (h : kernel.Runnable) (htexts : ∀ text ∈ op.formulaText, callsSupported D text)
    (hstep : kernel.step op = .ok (reply, next)) : next.Runnable := by
  have htransition := step_transition h.consistent hstep
  refine ⟨htransition.consistent h.consistent, htransition.formulasHold h.operators ?_,
    htransition.formulasHold h.calls ?_⟩
  · exact fun _ text _ id ast hcompile => (compileAst_handled hcompile).1
  · exact fun _ text htext id ast hcompile => (compileAst_handled hcompile).2.mpr (htexts text htext)

/-- A recorded leaf has been removed. -/
def LeafIsMissing (kernel : StatKernel D) : Prop :=
  ∃ leaf ∈ kernel.executor.dirtyLeaves, leaf ∉ kernel.graph.nodes

/-- **Every call returns**, but for a pass over a missing leaf. -/
theorem Runnable.returns (h : kernel.Runnable) (op : Op D) :
    (∃ reply next, kernel.step op = .ok (reply, next)) ∨ op = .evaluate ∧ kernel.LeafIsMissing := by
  cases hstep : kernel.step op with
  | ok outcome => exact Or.inl ⟨outcome.1, outcome.2, rfl⟩
  | error reason =>
      have hreturns (n : NodeId) (hn : n ∈ kernel.graph.nodes) : ¬ kernel.graph.Unreachable n :=
        FormulasHold.not_unreachable h.consistent.sound h.operators h.calls hn
      cases step_aborts h.consistent hstep with
      | createFormulaNode hcompile => exact absurd hcompile (compileAst_ne_error _ _ _)
      | setNodeFormula hcompile => exact absurd hcompile (compileAst_ne_error _ _ _)
      | getNodeValue hid habort =>
          exact absurd habort (not_abortsAt h.consistent.sound hreturns (by simpa using hid) _)
      | evaluate habort =>
          refine Or.inr ⟨rfl, ?_⟩
          by_contra hmissing
          have hleaves : ∀ leaf ∈ kernel.executor.dirtyLeaves, leaf ∈ kernel.graph.nodes := by
            intro leaf hleaf
            by_contra hleaf'
            exact hmissing ⟨leaf, hleaf, hleaf'⟩
          exact not_abortsAt h.consistent.sound hreturns hleaves _ (habort hleaves)

end StatKernel

/-! ### The process -/

namespace Api

open StepMachine StatForge.StatKernel

variable {process next : Process D} {live : Set Handle} {call : Call D} {answer : Answer D}

/-- The engines that live after a call. -/
def Call.liveAfter (live : Set Handle) : Call D → Set Handle
  | .createEngine address => insert address live
  | .destroyEngine (some address) => live \ {address}
  | _ => live

/-- The call uses live engines only, and its formula has supported calls only. -/
structure Call.Proper (live : Set Handle) (call : Call D) : Prop where
  created : ∀ address, call = .createEngine address → address ∉ live
  destroyed : ∀ address, call = .destroyEngine (some address) → address ∈ live
  used : ∀ address op, call.request = some (.ok (address, op)) → address ∈ live
  supported : ∀ address op, call.request = some (.ok (address, op)) → ∀ text ∈ op.formulaText,
    callsSupported D text

/-- A call of an operation on a live engine. -/
theorem Call.Proper.of_request {address : Handle} {op : Op D}
    (h : call.request = some (.ok (address, op))) (hlive : address ∈ live)
    (htexts : ∀ text ∈ op.formulaText, callsSupported D text) : call.Proper live where
  created _ hcall := by
    rw [hcall] at h
    cases h
  destroyed _ hcall := by
    rw [hcall] at h
    cases h
  used _ _ h' := by
    rw [h] at h'
    cases h'
    exact hlive
  supported _ _ h' := by
    rw [h] at h'
    cases h'
    exact htexts

/-- Every call is proper when it is made. -/
def Disciplined (live : Set Handle) : List (Call D) → Prop
  | [] => True
  | call :: calls => call.Proper live ∧ Disciplined (call.liveAfter live) calls

/-- The live engines are these, and their kernels are runnable. -/
structure Process.Runs (process : Process D) (live : Set Handle) : Prop where
  live : ∀ address, address ∈ live ↔ process.engines address ≠ none
  runnable : ∀ address kernel, process.engines address = some kernel → kernel.Runnable

omit [Double D] in
/-- Only creations and destructions change which engines live. -/
theorem Call.liveAfter_of_request {request : Except Objection (Handle × Op D)}
    (h : call.request = some request) : call.liveAfter live = live := by
  cases call with
  | createEngine address => cases h
  | destroyEngine engine => cases h
  | _ => rfl

/-- What lives after a call that returns. -/
theorem live_of_step (hlive : ∀ address, address ∈ live ↔ process.engines address ≠ none)
    (hstep : Api.step process call = .ok (answer, next)) (address' : Handle) :
    address' ∈ call.liveAfter live ↔ next.engines address' ≠ none := by
  have hlive' := hlive address'
  rcases step_cases hstep with ⟨objection, hrequest, -, rfl⟩ |
    ⟨address, op, kernel, reply, kernel', hrequest, hengine, -, -, rfl⟩ |
    ⟨address, rfl, -, -, rfl⟩ | ⟨engine, rfl, -, hdestroyed⟩ | ⟨rfl, -, rfl⟩
  · rw [Call.liveAfter_of_request hrequest]
    exact hlive'
  · -- The engine lived before the operation.
    rw [Call.liveAfter_of_request hrequest, engines_performed]
    by_cases heq : address' = address
    · simp [heq, hlive, hengine]
    · rwa [Function.update_of_ne heq]
  · by_cases heq : address' = address
    · simp [Call.liveAfter, heq]
    · simpa [Call.liveAfter, heq] using hlive'
  · rcases hdestroyed with ⟨rfl, rfl⟩ | ⟨address, kernel, rfl, -, rfl⟩
    · exact hlive'
    · by_cases heq : address' = address
      · simp [Call.liveAfter, heq]
      · simpa [Call.liveAfter, heq] using hlive'
  · exact hlive'

/-- **A proper call** keeps the kernels runnable. -/
theorem Process.Runs.step (h : process.Runs live) (hcall : call.Proper live)
    (hstep : Api.step process call = .ok (answer, next)) : next.Runs (call.liveAfter live) where
  live := live_of_step h.live hstep
  runnable := by
    refine kernels_of_step .fresh ?_ h.runnable hstep
    intro address op kernel reply kernel' hrequest hkernel hop
    exact hkernel.step (hcall.supported address op hrequest) hop

/-- The call is an evaluation pass over a recorded leaf that has been removed. -/
def PassOverMissingLeaf (process : Process D) (call : Call D) : Prop :=
  ∃ address kernel, call.request = some (.ok (address, .evaluate)) ∧
    process.engines address = some kernel ∧ kernel.LeafIsMissing

/-- A live engine, of which the process has a kernel. -/
theorem Process.Runs.exists_kernel (h : process.Runs live) {address : Handle}
    (hlive : address ∈ live) : ∃ kernel, process.engines address = some kernel :=
  Option.ne_none_iff_exists'.mp ((h.live address).mp hlive)

/-- **A proper call returns**, but for a pass over a missing leaf. -/
theorem Process.Runs.returns (h : process.Runs live) (hcall : call.Proper live) :
    (∃ answer next, Api.step process call = .ok (answer, next)) ∨
      PassOverMissingLeaf process call := by
  cases hrequest : call.request with
  | some request =>
      cases request with
      | error objection => exact Or.inl ⟨_, _, step_refused hrequest⟩
      | ok target =>
          obtain ⟨address, op⟩ := target
          obtain ⟨kernel, hengine⟩ := h.exists_kernel (hcall.used address op hrequest)
          rw [step_performed hrequest, Process.perform, hengine]
          rcases (h.runnable address kernel hengine).returns op with
            ⟨reply, kernel', hkernel⟩ | ⟨rfl, hmissing⟩
          · simp only [hkernel]
            exact Or.inl ⟨_, _, rfl⟩
          · exact Or.inr ⟨address, kernel, hrequest, hengine, hmissing⟩
  | none =>
      left
      cases call with
      | createEngine address =>
          have hnone : process.engines address = none := by
            by_contra hsome
            exact hcall.created address rfl ((h.live address).mpr hsome)
          rw [Api.step, Process.sfCreateEngine, hnone]
          exact ⟨_, _, rfl⟩
      | destroyEngine engine =>
          cases engine with
          | none => exact ⟨_, _, rfl⟩
          | some address =>
              obtain ⟨kernel, hengine⟩ := h.exists_kernel (hcall.destroyed address rfl)
              rw [Api.step, Process.sfDestroyEngine, hengine]
              exact ⟨_, _, rfl⟩
      | lastError => exact ⟨_, _, rfl⟩
      | _ => cases hrequest

theorem Process.Runs.run (h : process.Runs live) {calls : List (Call D)}
    (hcalls : Disciplined live calls) :
    (∃ answers final, StepMachine.run Api.step process calls = .ok (answers, final)) ∨
    ∃ before call after answers middle, calls = before ++ call :: after ∧
      StepMachine.run Api.step process before = .ok (answers, middle) ∧
      PassOverMissingLeaf middle call := by
  induction calls generalizing process live with
  | nil => exact Or.inl ⟨[], process, rfl⟩
  | cons call calls ih =>
      obtain ⟨hcall, hrest⟩ := hcalls
      rcases h.returns hcall with ⟨answer, next, hstep⟩ | hpass
      · rcases ih (h.step hcall hstep) hrest with
          ⟨answers, final, hrun⟩ | ⟨before, call', after, answers, middle, rfl, hrun, hpass⟩
        · exact Or.inl ⟨answer :: answers, final, by rw [run_cons_ok hstep, hrun]; rfl⟩
        · refine Or.inr ⟨call :: before, call', after, answer :: answers, middle, rfl, ?_, hpass⟩
          rw [run_cons_ok hstep, hrun]
          rfl
      · exact Or.inr ⟨[], call, calls, [], process, rfl, rfl, hpass⟩

theorem runs_start : (start : Process D).Runs ∅ :=
  ⟨fun address => by simp [start], fun address kernel h => by cases h⟩

/-- **A disciplined caller does not end the process.**  A sequence of calls that uses live engines, or
null, and formulas with supported calls returns, whatever else its arguments are and in whatever order
the calls come; the only call that may not return is an evaluation pass over a recorded leaf that has
been removed.  This leaves out what the model has no part of: a stack that is too small for the nesting
of a formula or for a chain of dependencies, and `std::ranges::sort` on a list with a NaN, which the
standard does not define. -/
theorem disciplined_calls_return {calls : List (Call D)} (hcalls : Disciplined ∅ calls) :
    (∃ answers final, run step start calls = .ok (answers, final)) ∨
    ∃ before call after answers process, calls = before ++ call :: after ∧
      run step start before = .ok (answers, process) ∧ PassOverMissingLeaf process call :=
  runs_start.run hcalls

private def powerName : CString := ⟨"power".toList, by decide⟩

/-- A new engine with a formula that is read. -/
private def powerCalls : List (Call NanRat) :=
  [.createEngine 1, .createFormulaNode (some 1) (some powerName) (some ⟨"root(4, 2)".toList, by decide⟩),
    .getNodeValue2 (some 1) (some powerName)]

theorem power_is_read : ∃ answers final, run step start powerCalls = .ok (answers, final) := by
  have hsupported : callsSupported NanRat "root(4, 2)".toList = true := by decide +kernel
  have hnew : (Call.createEngine 1 : Call NanRat).Proper ∅ :=
    ⟨fun _ _ => by simp, (by rintro _ ⟨⟩), (by rintro _ _ ⟨⟩), (by rintro _ _ ⟨⟩)⟩
  have hdisciplined : Disciplined ∅ powerCalls := by
    refine ⟨hnew, .of_request rfl (Or.inl rfl) ?_, .of_request rfl (Or.inl rfl) ?_, trivial⟩
    · rintro text htext
      obtain rfl := Option.some.inj htext
      exact hsupported
    · rintro text htext
      cases htext
  rcases disciplined_calls_return hdisciplined with
    hreturns | ⟨before, call, after, answers, process, hcalls, -, hpass⟩
  · exact hreturns
  · -- None of the calls is an evaluation pass.
    obtain ⟨address, kernel, hrequest, -⟩ := hpass
    have hmem : call ∈ powerCalls := hcalls ▸ List.mem_append_right before List.mem_cons_self
    simp only [powerCalls, List.mem_cons, List.not_mem_nil, or_false] at hmem
    rcases hmem with rfl | rfl | rfl <;> cases hrequest

end Api

end StatForge
