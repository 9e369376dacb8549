import StatForge.StatKernel.Agreement
import StatForge.StatKernel.Refinement

/-!
# What the history of a kernel leaves behind

Consequences of the refinement for callers.  A kernel remembers more than its definitions: which
nodes are dirty, which leaves are listed and in which order the edges were made.  None of this shows.

* `same_definitions_same_answers` — kernels with equal definitions cannot be told apart.
* `observers_leave_no_trace` — reads, evaluation passes and changes of the evaluation type can be
  left out of a run.
* `overwritten_definitions_leave_no_trace` — of two new formulas for a node the second one counts.
-/

namespace StatForge.StatKernel

open Relation Successors StepMachine Dsl StatForge.StatKernel.Graph

variable {D : Type} [Double D]

/-- The calls that can change a definition. -/
def Op.changes : Op D → Bool
  | .getNodeValue _ | .evaluate | .setEvaluationType _ => false
  | _ => true

/-- What a caller sees of a run: the answers, or the abort. -/
def answers (kernel : StatKernel D) (ops : List (Op D)) : Except Abort (List (Sheet.Answer D)) :=
  viewed Reply.answer (run step kernel ops)

/-- **Kernels with equal definitions cannot be told apart** by calls other than evaluation passes,
whatever their histories are. -/
theorem same_definitions_same_answers {kernel kernel' : StatKernel D} (hreach : Reachable kernel)
    (hreach' : Reachable kernel') (hdefinition : kernel.graph.definition = kernel'.graph.definition)
    {ops : List (Op D)} (hops : ∀ op ∈ ops, op ≠ .evaluate) :
    kernel.answers ops = kernel'.answers ops := by
  have hrepresents := hreach'.consistent.represents
  have hsame : kernel.Represents (kernel'.graph.sheet hreach'.consistent.sound) :=
    ⟨hreach.consistent, hdefinition⟩
  exact simulation.indistinguishable hsame hrepresents hops

private def rateId : NodeId := "rate".toList
private def netId : NodeId := "net".toList

/-- A value that was written over an older one. -/
theorem older_value_does_not_show :
    (after [.createValueNode rateId (Double.ofNat 1), .setNodeValue rateId (Double.ofNat 2)]).answers
        [.createFormulaNode netId "<rate> * 3".toList, .getNodeValue netId] =
      (after [.createValueNode rateId (Double.ofNat 2 : NanRat)]).answers
        [.createFormulaNode netId "<rate> * 3".toList, .getNodeValue netId] :=
  same_definitions_same_answers (reachable_after _) (reachable_after _) rfl (by simp)

/-! ### Observers -/

theorem Sheet.step_of_observer {sheet sheet' : Sheet D} {op : Op D} {answer : Sheet.Answer D}
    (hop : op.changes = false) (h : sheet.step op = .ok (answer, sheet')) : sheet' = sheet := by
  cases op with
  | getNodeValue id =>
      rw [Sheet.step] at h
      cases hread : sheet.read id with
      | error reason => rw [hread] at h; cases h
      | ok found => rw [hread] at h; cases h; rfl
  | evaluate => cases h; rfl
  | setEvaluationType => cases h; rfl
  | _ => cases hop

/-- **Observers leave no trace.**  A run that returns also returns without its reads, evaluation passes
and changes of the evaluation type, with the same answers to the other calls and the same definitions;
hence two runs with the same changing calls give the same answers to them. -/
theorem observers_leave_no_trace {ops : List (Op D)} {replies : List (Reply D)}
    {kernel : StatKernel D} (hrun : run step fresh ops = .ok (replies, kernel)) :
    (∃ replies' kernel', run step fresh (ops.filter Op.changes) = .ok (replies', kernel') ∧
      replies'.map Reply.answer = kept Op.changes ops (replies.map Reply.answer) ∧
      kernel'.graph.definition = kernel.graph.definition) ∧
    ∀ ops' replies' kernel', ops'.filter Op.changes = ops.filter Op.changes →
      run step fresh ops' = .ok (replies', kernel') →
        kept Op.changes ops' (replies'.map Reply.answer) =
          kept Op.changes ops (replies.map Reply.answer) ∧
        kernel'.graph.definition = kernel.graph.definition := by
  have herase {ops : List (Op D)} {replies : List (Reply D)} {kernel : StatKernel D}
      (hrun : run step fresh ops = .ok (replies, kernel)) :
      ∃ replies' kernel', run step fresh (ops.filter Op.changes) = .ok (replies', kernel') ∧
        replies'.map Reply.answer = kept Op.changes ops (replies.map Reply.answer) ∧
        kernel'.graph.definition = kernel.graph.definition := by
    obtain ⟨replies', kernel', sheet, hrun', hreplies, hsheet, hsheet'⟩ :=
      simulation.erase (fun hop => Sheet.step_of_observer hop) (by rintro op hop rfl; cases hop)
        Represents.fresh hrun
    exact ⟨replies', kernel', hrun', hreplies, hsheet'.definition.trans hsheet.definition.symm⟩
  refine ⟨herase hrun, fun ops' replies' kernel' hops hrun' => ?_⟩
  obtain ⟨_, _, hfirst, hreplies, hdefinition⟩ := herase hrun
  obtain ⟨_, _, hsecond, hreplies', hdefinition'⟩ := herase hrun'
  rw [hops, hfirst] at hsecond
  obtain ⟨rfl, rfl⟩ := Prod.mk.inj (Except.ok.inj hsecond)
  exact ⟨hreplies'.symm.trans hreplies, hdefinition'.symm.trans hdefinition⟩

/-- A value and a formula over it, with a read and an evaluation pass in between. -/
private def observedCalls : List (Op NanRat) :=
  [.createValueNode rateId (Double.ofNat 1), .createFormulaNode netId "<rate> * 3".toList,
    .getNodeValue netId, .evaluate, .setNodeValue rateId (Double.ofNat 2)]

theorem read_and_pass_leave_no_trace : ∃ replies kernel,
    run step fresh observedCalls = .ok (replies, kernel) ∧
    ∃ replies' kernel', run step fresh (observedCalls.filter Op.changes) = .ok (replies', kernel') ∧
      replies'.map Reply.answer = kept Op.changes observedCalls (replies.map Reply.answer) ∧
      kernel'.graph.definition = kernel.graph.definition := by
  obtain ⟨replies, kernel, hrun⟩ := exists_run step fresh observedCalls (by decide +kernel)
  exact ⟨replies, kernel, hrun, (observers_leave_no_trace hrun).1⟩

/-! ### Calls that change one node -/

/-- The node that a call creates, changes or removes. -/
def Op.target : Op D → Option NodeId
  | .createValueNode id _ => some id
  | .createFormulaNode id _ => some id
  | .createCollectionNode id _ _ => some id
  | .setNodeValue id _ => some id
  | .setNodeFormula id _ => some id
  | .setNodeDependencies id _ => some id
  | .removeNode id => some id
  | .getNodeValue _ | .evaluate | .reset | .setEvaluationType _ => none

section Target

variable {id : NodeId} {op : Op D}

omit [Double D] in
theorem Op.not_read_of_target (h : op.target = some id) (n : NodeId) : op ≠ .getNodeValue n := by
  rintro rfl
  cases h

omit [Double D] in
theorem Op.not_evaluate_of_target (h : op.target = some id) : op ≠ .evaluate := by
  rintro rfl
  cases h

/-- A call that changes one node and is answered as done has returned success. -/
theorem reply_of_done {kernel next : StatKernel D} {reply : Reply D} (htarget : op.target = some id)
    (hstep : kernel.step op = .ok (reply, next)) (hdone : reply.answer = .done) :
    reply = .result (.ok ()) := by
  have hresult {outcome : Except Abort (VoidResult × StatKernel D)}
      (h : voidReply <$> outcome = .ok (reply, next)) : reply = .result (.ok ()) := by
    cases outcome with
    | error reason => cases h
    | ok returned =>
        obtain ⟨result, _⟩ := returned
        obtain ⟨rfl, -⟩ := Prod.mk.inj (Except.ok.inj h)
        cases result with
        | ok done => rfl
        | error info => cases hdone
  cases op with
  | createValueNode n value =>
      have hok : voidReply <$> Except.ok (kernel.createValueNode n value) = .ok (reply, next) := hstep
      exact hresult hok
  | createFormulaNode n text => exact hresult hstep
  | createCollectionNode n dependencies operation => exact hresult hstep
  | setNodeValue n value => exact hresult hstep
  | setNodeFormula n text => exact hresult hstep
  | setNodeDependencies n dependencies => exact hresult hstep
  | removeNode n => exact hresult hstep
  | _ => cases htarget

end Target

/-! ### Overwriting -/

/-- The calls that replace the definition of `id` by one of the same kind. -/
def Op.redefines (id : NodeId) : Op D → Prop
  | .setNodeFormula n _ => n = id
  | .setNodeDependencies n _ => n = id
  | _ => False

omit [Double D] in
theorem Op.target_of_redefines {id : NodeId} {op : Op D} (h : op.redefines id) :
    op.target = some id := by
  cases op with
  | setNodeFormula n text => exact congrArg some h
  | setNodeDependencies n dependencies => exact congrArg some h
  | _ => exact h.elim

namespace Sheet

variable {sheet sheet' : Sheet D} {id : NodeId} {op : Op D}

omit [Double D] in
/-- Whether dependencies of a node are acceptable does not depend on its own definition. -/
theorem objection_define {own : Definition D} (hid : sheet.Has id)
    (hacceptable : sheet.Acceptable id own.dependencies) (dependencies : List NodeId) :
    (sheet.define id own hacceptable).objection id dependencies =
      sheet.objection id dependencies := by
  have hto : (sheet.define id own hacceptable).objectionTo id = sheet.objectionTo id := by
    funext d
    have hhas : (sheet.define id own hacceptable).Has d ↔ sheet.Has d := by
      by_cases hd : d = id
      · simp [Has, define, hd, show sheet.definition id ≠ none from hid]
      · simp [Has, define, hd]
    -- A path to the node does not use the edges out of it.
    have hpath : ReflTransGen (sheet.define id own hacceptable).Needs d id ↔
        ReflTransGen sheet.Needs d id := by
      rw [Sheet.Needs, define, needs_update]
      exact reflTransGen_redirect_to_self
    classical
    unfold objectionTo
    exact if_congr Iff.rfl rfl (if_congr (not_congr hhas) rfl (if_congr hpath rfl rfl))
  rw [objection, objection, hto]

omit [Double D] in
/-- Of two definitions in a row the second one counts. -/
theorem tryDefine_define {own own' : Definition D} (hid : sheet.Has id)
    (hacceptable : sheet.Acceptable id own.dependencies) :
    (sheet.define id own hacceptable).tryDefine id own' = sheet.tryDefine id own' := by
  have hobjection := objection_define hid hacceptable own'.dependencies
  cases h : sheet.objection id own'.dependencies with
  | some code =>
      rw [tryDefine_of_objection own' h, tryDefine_of_objection own' (hobjection.trans h)]
  | none =>
      rw [tryDefine_of_acceptable (objection_eq_none.mp h),
        tryDefine_of_acceptable (objection_eq_none.mp (hobjection.trans h))]
      exact congrArg Except.ok (Sheet.ext (Function.update_idem _ _ _))

omit [Double D] in
theorem tryDefine_eq_ok {own : Definition D} (h : sheet.tryDefine id own = .ok sheet') :
    ∃ hacceptable, sheet' = sheet.define id own hacceptable := by
  cases hobjection : sheet.objection id own.dependencies with
  | some code =>
      rw [tryDefine_of_objection own hobjection] at h
      cases h
  | none =>
      have hacceptable := objection_eq_none.mp hobjection
      rw [tryDefine_of_acceptable hacceptable] at h
      exact ⟨hacceptable, (Except.ok.inj h).symm⟩

theorem withTree_eq_ok {text : StdString} {next : ExpressionTree D → Except ErrorCode (Sheet D)}
    (h : withTree id text next = .ok (.ok sheet')) :
    ∃ ast, compileAst id text = .ok (.ok ast) ∧ next ast = .ok sheet' := by
  unfold withTree at h
  cases hcompile : compileAst (D := D) id text with
  | error reason => rw [hcompile] at h; cases h
  | ok compiled =>
      rw [hcompile] at h
      cases compiled with
      | error info => cases h
      | ok ast => exact ⟨ast, rfl, Except.ok.inj h⟩

/-- **A redefinition hides the one before it**: the next one is judged and made as if the first had
not been. -/
theorem change_of_redefined {op' : Op D} (hop : op.redefines id) (hop' : op'.redefines id)
    (h : sheet.change op = .ok (.ok sheet')) : sheet'.change op' = sheet.change op' := by
  have hkind : ∃ old own hacceptable, sheet.definition id = some old ∧
      sheet' = sheet.define id own hacceptable ∧
      ((∃ before after, old = .formula before ∧ own = .formula after) ∨
        ∃ operation before after, old = .collection operation before ∧
          own = .collection operation after) := by
    cases op with
    | setNodeFormula n text =>
        obtain rfl : n = id := hop
        simp only [change] at h
        split at h
        · cases h
        · rename_i before hbefore
          obtain ⟨after, -, hdefine⟩ := withTree_eq_ok h
          obtain ⟨hacceptable, rfl⟩ := tryDefine_eq_ok hdefine
          exact ⟨_, _, hacceptable, hbefore, rfl, Or.inl ⟨before, after, rfl, rfl⟩⟩
        · cases h
    | setNodeDependencies n dependencies =>
        obtain rfl : n = id := hop
        simp only [change] at h
        split at h
        · cases h
        · rename_i operation before hbefore
          obtain ⟨hacceptable, rfl⟩ := tryDefine_eq_ok (Except.ok.inj h)
          exact ⟨_, _, hacceptable, hbefore, rfl, Or.inr ⟨operation, before, _, rfl, rfl⟩⟩
        · cases h
    | _ => exact hop.elim
  obtain ⟨old, own, hacceptable, hold, rfl, hkind⟩ := hkind
  have hid : sheet.Has id := has_of_definition hold
  have hself : (sheet.define id own hacceptable).definition id = some own := by simp [define]
  cases op' with
  | setNodeFormula n text =>
      obtain rfl : n = id := hop'
      simp only [change, hself, hold, tryDefine_define hid]
      rcases hkind with ⟨before, after, rfl, rfl⟩ | ⟨operation, before, after, rfl, rfl⟩ <;> rfl
  | setNodeDependencies n dependencies =>
      obtain rfl : n = id := hop'
      simp only [change, hself, hold, tryDefine_define hid]
      rcases hkind with ⟨before, after, rfl, rfl⟩ | ⟨operation, before, after, rfl, rfl⟩ <;> rfl
  | _ => exact hop'.elim

/-- A call that is done has changed the sheet as it should. -/
theorem change_of_step (hop : ∀ n, op ≠ .getNodeValue n)
    (h : sheet.step op = .ok (.done, sheet')) : sheet.change op = .ok (.ok sheet') := by
  cases hchange : sheet.change op with
  | error reason =>
      rw [step_of_abort hop hchange] at h
      cases h
  | ok verdict =>
      rw [step_of_change hop hchange] at h
      cases verdict with
      | error code => cases h
      | ok sheet'' =>
          obtain ⟨-, rfl⟩ := Prod.mk.inj (Except.ok.inj h)
          rfl

/-- Two sheets on which a call has the same verdict give the same answer. -/
theorem viewed_step_congr (hop : ∀ n, op ≠ .getNodeValue n)
    (h : sheet'.change op = sheet.change op) :
    repliesOf (run step sheet' [op]) = repliesOf (run step sheet [op]) := by
  cases hchange : sheet.change op with
  | error reason =>
      rw [run_cons_error (step_of_abort hop hchange),
        run_cons_error (step_of_abort hop (h.trans hchange))]
  | ok verdict =>
      rw [run_cons_ok (step_of_change hop hchange),
        run_cons_ok (step_of_change hop (h.trans hchange))]
      cases verdict <;> rfl

end Sheet

/-- **Overwritten definitions leave no trace.**  After an accepted new formula for a node, or new
dependencies of a collection, the next such call for the node has the same answer as without the first
one, and if it is accepted then the definitions are the same as without the first one. -/
theorem overwritten_definitions_leave_no_trace {kernel kernel₁ : StatKernel D}
    (hreach : Reachable kernel) {id : NodeId} {op₁ op₂ : Op D} (hop₁ : op₁.redefines id)
    (hop₂ : op₂.redefines id) (hstep : kernel.step op₁ = .ok (.result (.ok ()), kernel₁)) :
    kernel₁.answers [op₂] = kernel.answers [op₂] ∧
    ∀ kernel₂, kernel₁.step op₂ = .ok (.result (.ok ()), kernel₂) →
      ∃ kernel', kernel.step op₂ = .ok (.result (.ok ()), kernel') ∧
        kernel'.graph.definition = kernel₂.graph.definition := by
  have htarget := Op.target_of_redefines hop₂
  have hrepresents := hreach.consistent.represents
  obtain ⟨sheet₁, hsheet₁, hrepresents₁⟩ := step_returned hrepresents hstep
  have hchange := Sheet.change_of_redefined hop₁ hop₂
    (Sheet.change_of_step (Op.not_read_of_target (Op.target_of_redefines hop₁)) hsheet₁)
  have hsingle : ∀ op ∈ [op₂], op ≠ .evaluate := by simpa using Op.not_evaluate_of_target htarget
  constructor
  · rw [answers, answers, simulation.viewed_run hrepresents₁ hsingle,
      simulation.viewed_run hrepresents hsingle]
    exact Sheet.viewed_step_congr (Op.not_read_of_target htarget) hchange
  · intro kernel₂ hstep₂
    obtain ⟨sheet₂, hsheet₂, hrepresents₂⟩ := step_returned hrepresents₁ hstep₂
    have hchange₂ := Sheet.change_of_step (Op.not_read_of_target htarget) hsheet₂
    rw [hchange] at hchange₂
    have hsheet := Sheet.step_of_change (Op.not_read_of_target htarget) hchange₂
    cases hstep' : kernel.step op₂ with
    | error reason =>
        have hfail := step_failed hrepresents (Op.not_evaluate_of_target htarget) hstep'
        rw [hfail] at hsheet
        cases hsheet
    | ok outcome =>
        obtain ⟨reply, kernel'⟩ := outcome
        obtain ⟨sheet', hanswer, hrepresents'⟩ := step_returned hrepresents hstep'
        rw [hanswer] at hsheet
        obtain ⟨hdone, rfl⟩ := Prod.mk.inj (Except.ok.inj hsheet)
        obtain rfl := reply_of_done htarget hstep' hdone
        exact ⟨kernel', rfl, hrepresents'.definition.trans hrepresents₂.definition.symm⟩

/-- The second of two new formulas. -/
theorem first_formula_leaves_no_trace : ∃ kernel₁ : StatKernel NanRat,
    (after (observedCalls.take 2)).step (.setNodeFormula netId "<rate> + 1".toList) =
      .ok (.result (.ok ()), kernel₁) ∧
    kernel₁.answers [.setNodeFormula netId "2".toList] =
      (after (observedCalls.take 2)).answers [.setNodeFormula netId "2".toList] := by
  have hsucceeds : (after (observedCalls.take 2)).Succeeds
      (.setNodeFormula netId "<rate> + 1".toList) := by decide +kernel
  obtain ⟨kernel₁, hstep⟩ := hsucceeds
  have hfirst : Op.redefines netId (.setNodeFormula netId "<rate> + 1".toList : Op NanRat) := rfl
  have hsecond : Op.redefines netId (.setNodeFormula netId "2".toList : Op NanRat) := rfl
  exact ⟨kernel₁, hstep,
    (overwritten_definitions_leave_no_trace (reachable_after _) hfirst hsecond hstep).1⟩

end StatForge.StatKernel
