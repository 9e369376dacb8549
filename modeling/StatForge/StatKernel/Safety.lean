import StatForge.Dsl.Folding
import StatForge.StatKernel.ReachableStates

/-!
# Evaluation without `unreachable()`

Which accepted formulas can be evaluated under all values of their dependencies.

* `compileAst_handled` — a compiled tree has handled operators; its calls are supported exactly if the
  text's are.
* `FormulasHold.exists_value` — if the trees of all formula nodes are handled and supported, every
  node can be recomputed.
* `formulas_never_abort` — as long as accepted formula texts call nothing but `root` with two
  arguments, no evaluation reaches `unreachable()`.
* `unknown_function_aborts` — a formula that is accepted and then ends the process.
-/

namespace StatForge.StatKernel

open Relation Successors ExceptBind Dsl Dsl.ExpressionTree StatForge.StatKernel.Graph

variable {D : Type} [Double D]

/-! ### Compiled trees -/

/-- The calls of the text are `root` with two arguments, outside branches that constants exclude. -/
def callsSupported (D : Type) [Double D] (text : StdString) : Bool :=
  match (tokenize text : Result (List (Token D))) with
  | .error _ => true
  | .ok tokens =>
      match Parser.parse tokens false with
      | .error _ => true
      | .ok e => e.survivors.all callSupported

/-- **Compiled trees** have handled operators, and supported calls exactly if the text has. -/
theorem compileAst_handled {id : NodeId} {text : StdString} {ast : ExpressionTree D}
    (h : compileAst id text = .ok (.ok ast)) :
    ast.all operatorHandled ∧ (ast.all callSupported ↔ callsSupported D text) := by
  unfold compileAst at h
  dsimp only at h
  cases htokens : (tokenize text : Result (List (Token D))) with
  | error info => simp [htokens] at h
  | ok tokens =>
      rw [htokens] at h
      dsimp only at h
      split at h
      · rename_i hparse
        obtain rfl := Except.ok.inj (Except.ok.inj h)
        obtain ⟨e, hparse, hfold⟩ := Parser.parse_folded.mp hparse
        refine ⟨all_operatorHandled_of_foldConstants hfold (Parser.parse_operatorHandled hparse), ?_⟩
        rw [callsSupported, htokens]
        dsimp only
        rw [hparse]
        dsimp only
        rw [List.all_eq_true]
        exact all_callSupported_iff hfold
      · cases h
      · cases h

namespace Graph

variable {g g' : Graph D} {test : ExpressionTree D → Bool}

/-- The trees of all formula nodes pass the test. -/
def FormulasHold (test : ExpressionTree D → Bool) (g : Graph D) : Prop :=
  ∀ id node ast, g.nodes.lookup id = some node → node.formula = some (.expression ast) → ast.all test

theorem FormulasHold.setNode {id : NodeId} {node : Node D} (h : g.FormulasHold test)
    (hnode : ∀ ast, node.formula = some (.expression ast) → ast.all test) :
    (g.setNode id node).FormulasHold test := by
  intro n node' ast hlookup hformula
  rw [lookup_setNode] at hlookup
  split at hlookup
  · obtain rfl := Option.some.inj hlookup
    exact hnode ast hformula
  · exact h n node' ast hlookup hformula

theorem FormulasHold.updates {change : Node D → Node D → Prop} (h : g.FormulasHold test)
    (hupdates : Updates change g g')
    (hchange : ∀ node node', change node node' → node'.formula = node.formula) :
    g'.FormulasHold test := by
  intro id node ast hlookup hformula
  rcases hupdates.node id with hsame | ⟨before, after, hbefore, hstep, hafter⟩
  · exact h id node ast (hsame ▸ hlookup) hformula
  · obtain rfl := Option.some.inj (hafter.symm.trans hlookup)
    exact h id before ast hbefore ((hchange _ _ hstep).symm.trans hformula)

theorem FormulasHold.empty : ({} : Graph D).FormulasHold test := by
  intro id node ast hlookup
  simp at hlookup

theorem FormulasHold.rewire (h : g.FormulasHold test) (id : NodeId) (dependencies : List NodeId) :
    (g.rewire id dependencies).FormulasHold test :=
  fun n node ast hlookup => h n node ast ((lookup_rewire g id dependencies n).symm.trans hlookup)

theorem FormulasHold.removed {id : NodeId} (h : g.FormulasHold test) (hremoved : g.Removed id g') :
    g'.FormulasHold test := by
  intro n node ast hlookup
  rw [hremoved.nodes] at hlookup
  by_cases hn : n = id
  · rw [hn, Finmap.lookup_erase] at hlookup
    cases hlookup
  · rw [Finmap.lookup_erase_ne hn] at hlookup
    exact h n node ast hlookup

theorem marks_formula {node node' : Node D} (h : Marks node node') : node'.formula = node.formula := by
  obtain ⟨-, -, rfl⟩ := h
  rfl

theorem refreshes_formula {node node' : Node D} (h : Refreshes node node') :
    node'.formula = node.formula := by
  obtain ⟨-, value, rfl⟩ := h
  rfl

/-! ### Recomputation returns -/

theorem formula_of_definition {id : NodeId} {node : Node D} {ast : ExpressionTree D}
    (hnode : g.nodes.lookup id = some node) (h : g.definition id = some (.formula ast)) :
    node.formula = some (.expression ast) := by
  simp only [definition, hnode] at h
  split at h <;> simp_all

/-- **Recomputation returns** if the trees of all formula nodes are handled and supported. -/
theorem FormulasHold.exists_value (hsound : g.Sound) (hoperators : g.FormulasHold operatorHandled)
    (hcalls : g.FormulasHold callSupported) {id : NodeId} (hid : id ∈ g.nodes) {fuel : Nat}
    (hfuel : rank g.nodes.keys g.DependsOn id < fuel) :
    ∃ value, recompute g.definition fuel id = .ok value := by
  induction fuel generalizing id with
  | zero => omega
  | succ fuel ih =>
      obtain ⟨node, hnode⟩ := Finmap.mem_iff.mp hid
      obtain ⟨definition, hdefinition, hvalid, hreads, -⟩ := hsound.definition_of_lookup hnode
      have hvalues : ∀ d ∈ definition.reads, ∃ value, recompute g.definition fuel d = .ok value := by
        intro d hd
        have hlt := hsound.rank_lt (hreads d hd)
        exact ih (hsound.linked.dependency_mem (hreads d hd)) (by omega)
      rw [recompute, hdefinition]
      cases definition with
      | value stored => exact ⟨stored, rfl⟩
      | formula ast =>
          -- The references have values by induction, and the tree is one the evaluator can run.
          have hformula := formula_of_definition hnode hdefinition
          exact evaluate_returns ast (hoperators id node ast hnode hformula)
            (hcalls id node ast hnode hformula) hvalues
      | collection operation dependencies => exact reduceNodes_eq_ok dependencies hvalues hvalid

theorem FormulasHold.not_unreachable (hsound : g.Sound) (hoperators : g.FormulasHold operatorHandled)
    (hcalls : g.FormulasHold callSupported) {id : NodeId} (hid : id ∈ g.nodes) :
    ¬ g.Unreachable id := by
  intro habort
  obtain ⟨value, hvalue⟩ :=
    FormulasHold.exists_value hsound hoperators hcalls hid (hsound.rank_lt_card hid)
  rw [habort _ le_rfl] at hvalue
  cases hvalue

/-- No evaluation of existing targets aborts if no node is unreachable. -/
theorem not_abortsAt (hsound : g.Sound) (hreturns : ∀ n ∈ g.nodes, ¬ g.Unreachable n)
    {targets : List NodeId} (htargets : ∀ id ∈ targets, id ∈ g.nodes) (reason : Abort) :
    ¬ g.AbortsAt targets reason := by
  rintro ⟨-, id, hid, n, hpath, hn⟩
  exact hreturns n (hsound.linked.reached_mem (htargets id hid) hpath) hn

end Graph

/-- An evaluation pass does not reach `unreachable()` if no node does, also where it looks up a
missing node. -/
theorem Executor.foldlM_evaluateNode_ne_unreachable (executor : Executor) {g : Graph D}
    {targets : List NodeId} (hsound : g.Sound) (hcurrent : g.UpToDate)
    (hreturns : ∀ n ∈ g.nodes, ¬ g.Unreachable n) :
    targets.foldlM executor.evaluateNode g ≠ .error .unreachable := by
  induction targets generalizing g with
  | nil => exact fun h => by cases h
  | cons id targets ih =>
      intro hrun
      rw [List.foldlM_cons] at hrun
      by_cases hid : id ∈ g.nodes
      · cases hfirst : executor.evaluateNode g id with
        | error reason =>
            have hresult := executor.evaluateNode_spec hsound hcurrent hid
            rw [hfirst] at hresult
            exact not_abortsAt hsound hreturns (by simpa using hid) reason hresult
        | ok g' =>
            have hevaluated := executor.evaluated_of_evaluateNode hsound hcurrent hfirst
            rw [hfirst, ok_bind] at hrun
            refine ih (hevaluated.sound hsound) hevaluated.upToDate (fun n hn => ?_) hrun
            rw [unreachable_iff_of_updates hevaluated.updates hsound]
            exact hreturns n (hevaluated.updates.mem_iff.mp hn)
      -- A missing target aborts too, but not in `unreachable()`.
      · rw [Executor.evaluateNode_missing hid] at hrun
        cases hrun

/-! ### Runs -/

/-- The formula text that a call passes to the compiler. -/
def Op.formulaText : Op D → Option StdString
  | .createFormulaNode _ text => some text
  | .setNodeFormula _ text => some text
  | _ => none

/-- A text that the call accepts has supported calls only. -/
def AcceptsSupportedCalls (kernel : StatKernel D) (op : Op D) : Prop :=
  kernel.Succeeds op → ∀ text ∈ op.formulaText, callsSupported D text

section Transition

variable {kernel next : StatKernel D} {op : Op D} {reply : Reply D}

/-- The tree of a created node is compiled from the call's text. -/
theorem Creates.compiled {id : NodeId} {dependencies : List NodeId} {node : Node D}
    (h : Creates op id dependencies node) {ast : ExpressionTree D}
    (hformula : node.formula = some (.expression ast)) :
    ∃ text ∈ op.formulaText, compileAst id text = .ok (.ok ast) := by
  cases h with
  | formula hcompile =>
      cases hformula
      exact ⟨_, rfl, hcompile⟩
  | collection => cases hformula

/-- The tree of a redefined node is compiled from the call's text, or the former one. -/
theorem Redefines.compiled {id : NodeId} {dependencies : List NodeId} {node node' : Node D}
    (h : Redefines op id dependencies node node') {ast : ExpressionTree D}
    (hformula : node'.formula = some (.expression ast)) :
    node.formula = some (.expression ast) ∨
      ∃ text ∈ op.formulaText, compileAst id text = .ok (.ok ast) := by
  cases h with
  | formula _ hcompile =>
      cases hformula
      exact Or.inr ⟨_, rfl, hcompile⟩
  | dependencies => exact Or.inl hformula

/-- A call adds no trees but those that it compiles from its text. -/
theorem Transition.formulasHold {test : ExpressionTree D → Bool}
    (htransition : kernel.Transition op reply next) (h : kernel.graph.FormulasHold test)
    (hcompiled : reply = .result (.ok ()) → ∀ text ∈ op.formulaText, ∀ id ast,
      compileAst id text = .ok (.ok ast) → ast.all test) : next.graph.FormulasHold test := by
  cases htransition with
  | failed => exact h
  | notFound => exact h
  | createdValue => exact h.setNode fun ast hformula => by cases hformula
  | created hcreates =>
      refine FormulasHold.rewire (h.setNode fun ast hformula => ?_) _ _
      obtain ⟨text, htext, hcompile⟩ := hcreates.compiled hformula
      exact hcompiled rfl text htext _ ast hcompile
  | sameValue => exact h
  | @changedValue id value node _ hnode _ _ _ hmarked =>
      have hset : (kernel.graph.setNode id { node with value := value }).FormulasHold test :=
        h.setNode fun ast hformula => h id node ast hnode hformula
      exact hset.updates hmarked.updates fun _ _ => marks_formula
  | redefined hredefines hnode _ _ hmarked =>
      refine ((h.rewire _ _).setNode fun ast hformula => ?_).updates hmarked.updates
        fun _ _ => marks_formula
      rcases hredefines.compiled hformula with hformula | ⟨text, htext, hcompile⟩
      · exact h _ _ ast hnode hformula
      · exact hcompiled rfl text htext _ ast hcompile
  | removed _ _ hremoved _ hmarked =>
      exact (h.removed hremoved).updates hmarked.updates fun _ _ => marks_formula
  | read _ hevaluated => exact h.updates hevaluated.updates fun _ _ => refreshes_formula
  | evaluated _ hevaluated => exact h.updates hevaluated.updates fun _ _ => refreshes_formula
  | reset => exact FormulasHold.empty
  | setEvaluationType => exact h

/-- An accepted text is compiled into a tree of the next kernel. -/
theorem Transition.exists_compiled (htransition : kernel.Transition op (.result (.ok ())) next)
    {text : StdString} (htext : text ∈ op.formulaText) :
    ∃ id node ast, compileAst id text = .ok (.ok ast) ∧ next.graph.nodes.lookup id = some node ∧
      node.formula = some (.expression ast) := by
  cases htransition with
  | created hcreates =>
      cases hcreates with
      | formula hcompile =>
          obtain rfl := Option.some.inj htext
          exact ⟨_, _, _, hcompile, (lookup_rewire _ _ _ _).trans (lookup_setNode_self _ _ _), rfl⟩
      | collection => cases htext
  | @redefined _ id _ _ _ _ hredefines _ _ _ hmarked =>
      cases hredefines with
      | formula _ hcompile =>
          obtain rfl := Option.some.inj htext
          -- Marking may have changed the flag of the node, not its formula.
          rcases hmarked.updates.node id with hsame | ⟨before, after, hbefore, hstep, hafter⟩
          · exact ⟨_, _, _, hcompile, hsame.trans (lookup_setNode_self _ _ _), rfl⟩
          · rw [lookup_setNode_self] at hbefore
            obtain rfl := Option.some.inj hbefore
            exact ⟨_, _, _, hcompile, hafter, marks_formula hstep⟩
      | dependencies => cases htext
  | _ => cases htext

end Transition

/-- What is promised of the formulas of a kernel. -/
structure FormulasSafe (kernel : StatKernel D) : Prop where
  /-- Every operator is one that the evaluator handles in its position, and every call is supported. -/
  trees : kernel.graph.FormulasHold operatorHandled ∧ kernel.graph.FormulasHold callSupported
  /-- Every formula has a value under all values of the nodes. -/
  values : ∀ id node ast, kernel.graph.nodes.lookup id = some node →
    node.formula = some (.expression ast) → ∀ values : NodeId → D,
      ∃ value, Dsl.evaluate ⟨some fun name => .ok (values name)⟩ ast = .ok value
  /-- Reading an existing node returns a value. -/
  reads : ∀ id ∈ kernel.graph.nodes, ∃ value next, kernel.getNodeValue id = .ok (.ok value, next)
  /-- `evaluate()` does not reach `unreachable()`. -/
  pass : kernel.step .evaluate ≠ .error .unreachable
  /-- `evaluate()` returns, unless it looks up a recorded leaf that has been removed. -/
  passReturns : (∀ id ∈ kernel.executor.dirtyLeaves, id ∈ kernel.graph.nodes) →
    ∃ next, kernel.step .evaluate = .ok (.result (.ok ()), next)

/-- Trees that the evaluator can run make a kernel safe. -/
theorem FormulasSafe.of_trees {kernel : StatKernel D} (h : kernel.Consistent)
    (hoperators : kernel.graph.FormulasHold operatorHandled)
    (hcalls : kernel.graph.FormulasHold callSupported) : kernel.FormulasSafe := by
  have hreturns (n : NodeId) (hn : n ∈ kernel.graph.nodes) : ¬ kernel.graph.Unreachable n :=
    FormulasHold.not_unreachable h.sound hoperators hcalls hn
  constructor
  case trees => exact ⟨hoperators, hcalls⟩
  case values =>
    intro id node ast hnode hformula values
    exact evaluate_returns ast (hoperators id node ast hnode hformula)
      (hcalls id node ast hnode hformula) fun name _ => ⟨values name, rfl⟩
  case reads =>
    intro id hid
    rcases kernel.executor.getNodeValue_spec h.sound h.upToDate hid with
      ⟨g, node, -, -, hrun⟩ | ⟨-, habort⟩
    · exact ⟨node.value, ⟨g, kernel.executor⟩, by rw [getNodeValue, hrun]; rfl⟩
    · exact absurd habort (not_abortsAt h.sound hreturns (by simpa using hid) _)
  case pass =>
    intro hstep
    rw [evaluate_step] at hstep
    split at hstep
    · cases hstep
    · rename_i reason hrun
      obtain rfl := Except.error.inj hstep
      exact kernel.executor.foldlM_evaluateNode_ne_unreachable h.sound h.upToDate hreturns hrun
  case passReturns =>
    intro hleaves
    cases hrun : kernel.executor.dirtyLeaves.foldlM kernel.executor.evaluateNode kernel.graph with
    | ok g => exact ⟨_, by rw [evaluate_step, hrun]⟩
    | error reason =>
        have hstep : kernel.step .evaluate = .error reason := by rw [evaluate_step, hrun]
        cases step_aborts h hstep with
        | evaluate habort => exact absurd (habort hleaves) (not_abortsAt h.sound hreturns hleaves _)

/-- **No accepted formula ends the process.**  In every run in which the accepted formula texts have
supported calls only, the formulas are safe in every state.  The condition is exact: the formulas
stay safe after a call exactly if the call meets it. -/
theorem formulas_never_abort :
    (∀ kernel : StatKernel D, StepMachine.Reachable step AcceptsSupportedCalls fresh kernel →
      kernel.FormulasSafe) ∧
    ∀ (kernel next : StatKernel D) (op : Op D) (reply : Reply D),
      StepMachine.Reachable step AcceptsSupportedCalls fresh kernel →
      kernel.step op = .ok (reply, next) → (next.FormulasSafe ↔ kernel.AcceptsSupportedCalls op) := by
  have hinvariant (kernel : StatKernel D)
      (hreach : StepMachine.Reachable step AcceptsSupportedCalls fresh kernel) :
      kernel.Consistent ∧ kernel.graph.FormulasHold operatorHandled ∧
        kernel.graph.FormulasHold callSupported := by
    refine StepMachine.Reachable.invariant (fun kernel => kernel.Consistent ∧
      kernel.graph.FormulasHold operatorHandled ∧ kernel.graph.FormulasHold callSupported)
      ⟨.fresh, FormulasHold.empty, FormulasHold.empty⟩ ?_ hreach
    rintro kernel op reply next ⟨h, hoperators, hcalls⟩ hguard hstep
    have htransition := step_transition h hstep
    refine ⟨htransition.consistent h, htransition.formulasHold hoperators ?_,
      htransition.formulasHold hcalls ?_⟩
    -- Handled operators need no condition; supported calls are what the condition asks for.
    · exact fun _ text _ id ast hcompile => (compileAst_handled hcompile).1
    · rintro rfl text htext id ast hcompile
      exact (compileAst_handled hcompile).2.mpr (hguard ⟨next, hstep⟩ text htext)
  constructor
  · intro kernel hreach
    obtain ⟨h, hoperators, hcalls⟩ := hinvariant kernel hreach
    exact .of_trees h hoperators hcalls
  · intro kernel next op reply hreach hstep
    constructor
    · rintro hsafe ⟨next', hstep'⟩ text htext
      obtain ⟨rfl, rfl⟩ := pair_unique hstep hstep'
      obtain ⟨id, node, ast, hcompile, hnode, hformula⟩ :=
        (step_transition (hinvariant kernel hreach).1 hstep).exists_compiled htext
      exact (compileAst_handled hcompile).2.mp (hsafe.trees.2 id node ast hnode hformula)
    · intro hguard
      obtain ⟨h, hoperators, hcalls⟩ := hinvariant next (.step hreach hguard hstep)
      exact .of_trees h hoperators hcalls

section Instances

private def callId : NodeId := "f".toList
private def argumentId : NodeId := "v".toList

/-- The formula `foo(1)` is accepted, and reading its node ends the process. -/
theorem unknown_function_aborts : ∃ next : StatKernel NanRat,
    fresh.step (.createFormulaNode callId "foo(1)".toList) = .ok (.result (.ok ()), next) ∧
      next.getNodeValue callId = .error .unreachable ∧ ¬ next.FormulasSafe := by
  refine ⟨_, rfl, rfl, fun hsafe => ?_⟩
  obtain ⟨value, next, hread⟩ := hsafe.reads callId (by decide +kernel)
  cases hread

/-- The formula `root(<v>, <v>)` is safe. -/
theorem sample_safe : (after [.createValueNode argumentId (Double.ofNat 2),
    .createFormulaNode callId "root(<v>, <v>)".toList] : StatKernel NanRat).FormulasSafe := by
  refine formulas_never_abort.1 _ (reachable_after_of_guards ?_)
  rintro n _ hop - text htext
  rcases n with _ | _ | n <;> cases hop
  · cases htext
  · obtain rfl := Option.some.inj htext
    decide +kernel

end Instances

end StatForge.StatKernel
