import StatForge.Dsl.Lexemes
import StatForge.Lib.ExceptBind
import StatForge.StatKernel.StatKernel

/-!
# The texts of errors

The interface reports an error by its text, and takes an empty text for no error.  The text is kept up
to its first `'\0'`, so a message has to start with another character.  All messages of the kernel do.

* `Visible` — a message whose text is not empty.
* `Speaks` — the results of a call: an error has a visible message.
* `visible_of_step` — every error that the kernel replies.
-/

namespace StatForge.StatKernel

open Dsl ExceptBind StatForge.StatKernel.Graph

/-- The text of the message is not empty. -/
def Visible (message : String) : Prop := firstChar message.toList ≠ nul

instance (message : String) : Decidable (Visible message) :=
  inferInstanceAs (Decidable (firstChar message.toList ≠ nul))

theorem visible_append {head : String} (tail : String) (h : Visible head) :
    Visible (head ++ tail) := by
  rw [Visible, String.toList_append]
  rw [Visible] at h
  cases hhead : head.toList with
  | nil => exact absurd (by rw [hhead]; rfl) h
  | cons c rest =>
      rw [hhead] at h
      exact h

theorem visible_quoted (s : StdString) : Visible (quoted s) :=
  visible_append _ (visible_append _ (by decide))

variable {D : Type}

/-- A result whose error has a visible message. -/
def Audible {α : Type} : Result α → Prop
  | .ok _ => True
  | .error info => Visible info.message

/-- A call that, if it returns an error, returns a visible message. -/
def Speaks {α β : Type} : Except Abort (Result α × β) → Prop
  | .ok (result, _) => Audible result
  | .error _ => True

section Rules

variable {α β γ δ : Type} {first : Except Abort γ} {next : γ → Except Abort (Result α × β)}

theorem Speaks.bind (h : ∀ c, Speaks (next c)) : Speaks (first >>= next) := by
  cases first with
  | ok c => exact h c
  | error reason => trivial

/-- The error of the first call is passed on. -/
theorem Speaks.bind_result {first : Except Abort (Result γ × δ)}
    {next : Result γ × δ → Except Abort (Result α × β)} (hfirst : Speaks first)
    (h : ∀ result d, Audible result → Speaks (next (result, d))) : Speaks (first >>= next) := by
  cases first with
  | ok outcome => exact h outcome.1 outcome.2 hfirst
  | error reason => trivial

end Rules

variable [Double D] {g : Graph D} {id : NodeId}

/-! ### The graph -/

theorem audible_addNode (g : Graph D) (id : NodeId) (node : Node D) :
    Audible (g.addNode id node).1 := by
  unfold addNode
  split
  · exact visible_append _ (by decide)
  · trivial

theorem audible_checkDependencies {skipCycleCheck : Bool} {newDeps : List NodeId}
    {result : VoidResult} (h : g.checkDependencies id skipCycleCheck newDeps = .ok result) :
    Audible result := by
  induction newDeps with
  | nil =>
      cases h
      trivial
  | cons dependency newDeps ih =>
      rw [checkDependencies] at h
      split at h
      · cases h
        exact visible_append _ (visible_append _ (visible_append _ (by decide)))
      split at h
      · cases h
        exact visible_append _ (visible_quoted id)
      -- Whether the cycle check is made or skipped, its answer is what decides.
      have hloop {check : Except Abort Bool} (h : (check >>= fun loop =>
          if loop then .ok (.error (buildErrorInfo .dependencyLoop
            ("Trying to set dependency of " ++ quoted id ++ " with cyclic dependency")))
          else g.checkDependencies id skipCycleCheck newDeps) = .ok result) : Audible result := by
        obtain ⟨loop, -, h⟩ := bind_eq_ok.mp h
        split at h
        · cases h
          exact visible_append _ (visible_append _ (by decide))
        · exact ih h
      dsimp only at h
      split at h
      · exact hloop h
      · exact hloop h

theorem audible_checkDuplicates (id : NodeId) (seen : Finset NodeId) (newDeps : List NodeId) :
    Audible (checkDuplicates id seen newDeps) := by
  induction newDeps generalizing seen with
  | nil => trivial
  | cons dependency newDeps ih =>
      rw [checkDuplicates]
      split
      · exact visible_append _ (visible_append _ (visible_append _ (by decide)))
      · exact ih _

theorem speaks_setNodeDependencies (g : Graph D) (id : NodeId) (newDeps : List NodeId)
    (skipCycleCheck : Bool) : Speaks (g.setNodeDependencies id newDeps skipCycleCheck) := by
  rw [Graph.setNodeDependencies]
  split
  · exact visible_append _ (by decide)
  cases hcheck : g.checkDependencies id skipCycleCheck newDeps with
  | error reason => trivial
  | ok result =>
      have hresult := audible_checkDependencies hcheck
      cases result with
      | error info => exact hresult
      | ok =>
          have hduplicates := audible_checkDuplicates id ∅ newDeps
          rw [ok_bind]
          cases hrun : checkDuplicates id ∅ newDeps with
          | error info =>
              rw [hrun] at hduplicates
              exact hduplicates
          | ok => trivial

theorem audible_checkDependents {dependents : List NodeId} {result : VoidResult}
    (h : g.checkDependents id dependents = .ok result) : Audible result := by
  induction dependents with
  | nil =>
      cases h
      trivial
  | cons dependentId dependents ih =>
      rw [checkDependents] at h
      obtain ⟨dependent, -, h⟩ := bind_eq_ok.mp h
      split at h
      · cases h
        exact visible_append _ (visible_append _ (visible_append _ (visible_append _ (by decide))))
      · exact ih h

theorem speaks_removeNode (g : Graph D) (id : NodeId) : Speaks (g.removeNode id) := by
  rw [Graph.removeNode]
  split
  · exact visible_append _ (by decide)
  cases hcheck : g.checkDependents id (g.dependents id) with
  | error reason => trivial
  | ok result =>
      have hresult := audible_checkDependents hcheck
      rw [ok_bind]
      cases result with
      | error info => exact hresult
      | ok =>
          refine Speaks.bind fun g₁ => ?_
          refine Speaks.bind fun g₂ => ?_
          trivial

/-! ### The compiler -/

theorem audible_compileAst {formula : StdString} {result : Result (ExpressionTree D)}
    (h : compileAst id formula = .ok result) : Audible result := by
  have hnode (info : ErrorInfo) : Visible ("Node " ++ quoted id ++ ": " ++ info.message) :=
    visible_append _ (visible_append _ (visible_append _ (by decide)))
  unfold compileAst at h
  dsimp only at h
  split at h
  · cases h
    exact hnode _
  · split at h
    · cases h
      trivial
    · cases h
      exact hnode _
    · cases h

namespace Compiler

theorem speaks_setNodeDependencies (g : Graph D) (id : NodeId) (dependencies : List NodeId)
    (skipCycleCheck : Bool) :
    Speaks (Compiler.setNodeDependencies g id dependencies skipCycleCheck) := by
  rw [Compiler.setNodeDependencies]
  split
  · exact visible_append _ (by decide)
  · refine Speaks.bind fun node => ?_
    split
    · trivial
    · exact StatKernel.speaks_setNodeDependencies g id dependencies skipCycleCheck

theorem speaks_addCollectionNode (g : Graph D) (id : NodeId) (dependencies : List NodeId)
    (operation : CollectionOperation) :
    Speaks (addCollectionNode g id dependencies operation) := by
  rw [addCollectionNode]
  split
  · exact visible_append _ (visible_append _ (visible_append _ (visible_append _ (by decide))))
  have hadd := audible_addNode g id {}
  split
  · rename_i info g₁ hnode
    rw [hnode] at hadd
    exact hadd
  · refine Speaks.bind_result (StatKernel.speaks_setNodeDependencies _ id dependencies true) ?_
    intro result g₁ hresult
    cases result with
    | error info => exact Speaks.bind fun _ => hresult
    | ok => exact Speaks.bind fun _ => trivial

theorem speaks_addFormulaNode (g : Graph D) (id : NodeId) (formula : StdString) :
    Speaks (addFormulaNode g id formula) := by
  rw [addFormulaNode]
  have hadd := audible_addNode g id {}
  split
  · rename_i info g₁ hnode
    rw [hnode] at hadd
    exact hadd
  · cases hcompile : (compileAst id formula : Except Abort (Result (ExpressionTree D))) with
    | error reason => trivial
    | ok result =>
        have hresult := audible_compileAst hcompile
        rw [ok_bind]
        cases result with
        | error info => exact Speaks.bind fun _ => hresult
        | ok ast =>
            refine Speaks.bind_result (speaks_setNodeDependencies _ id _ true) ?_
            intro result g₁ hresult
            cases result with
            | error info => exact Speaks.bind fun _ => hresult
            | ok => exact Speaks.bind fun _ => trivial

theorem speaks_setNodeFormula (g : Graph D) (id : NodeId) (formula : StdString) :
    Speaks (Compiler.setNodeFormula g id formula) := by
  rw [Compiler.setNodeFormula]
  split
  · exact visible_append _ (by decide)
  refine Speaks.bind fun node => ?_
  split
  · exact visible_append _ (by decide)
  cases hcompile : (compileAst id formula : Except Abort (Result (ExpressionTree D))) with
  | error reason => trivial
  | ok result =>
      have hresult := audible_compileAst hcompile
      rw [ok_bind]
      cases result with
      | error info => exact hresult
      | ok ast =>
          refine Speaks.bind_result (speaks_setNodeDependencies g id _ false) ?_
          intro result g₁ hresult
          cases result with
          | error info => exact hresult
          | ok => exact Speaks.bind fun _ => trivial

theorem speaks_setCollectionNodeDependencies (g : Graph D) (id : NodeId)
    (dependencies : List NodeId) (skipCycleCheck : Bool) :
    Speaks (setCollectionNodeDependencies g id dependencies skipCycleCheck) := by
  rw [setCollectionNodeDependencies]
  split
  · split
    · exact visible_append _ (by decide)
    · exact speaks_setNodeDependencies g id dependencies skipCycleCheck
  · exact speaks_setNodeDependencies g id dependencies skipCycleCheck

end Compiler

/-! ### The kernel -/

theorem speaks_andThen (kernel : StatKernel D) {change : Except Abort (VoidResult × Graph D)}
    {bookkeeping : StatKernel D → Except Abort (StatKernel D)} (h : Speaks change) :
    Speaks (kernel.andThen change bookkeeping) := by
  unfold andThen
  cases change with
  | error reason => trivial
  | ok outcome =>
      obtain ⟨result, g⟩ := outcome
      rw [ok_bind]
      cases result with
      | error info => exact h
      | ok => exact Speaks.bind fun _ => trivial

theorem speaks_setNodeValue (kernel : StatKernel D) (id : NodeId) (value : D) :
    Speaks (kernel.setNodeValue id value) := by
  rw [setNodeValue]
  split
  · exact visible_append _ (by decide)
  refine Speaks.bind fun node => ?_
  split
  · exact visible_append _ (by decide)
  split
  · trivial
  · exact Speaks.bind fun _ => trivial

theorem speaks_getNodeValue (kernel : StatKernel D) (id : NodeId) :
    Speaks (kernel.getNodeValue id) := by
  have hread : Speaks (kernel.executor.getNodeValue kernel.graph id) := by
    rw [Executor.getNodeValue]
    split
    · exact visible_append _ (by decide)
    · refine Speaks.bind fun node => ?_
      dsimp only
      split
      · refine Speaks.bind fun g => ?_
        refine Speaks.bind fun node => ?_
        trivial
      · refine Speaks.bind fun g => ?_
        refine Speaks.bind fun node => ?_
        trivial
  rw [getNodeValue]
  refine hread.bind_result fun result g hresult => ?_
  exact hresult

/-- An evaluation pass that returns has no error. -/
theorem reply_of_evaluate {kernel next : StatKernel D} {reply : Reply D}
    (h : kernel.step .evaluate = .ok (reply, next)) : reply = .result (.ok ()) := by
  rw [step, evaluate, Executor.evaluate] at h
  cases hpass : kernel.executor.dirtyLeaves.foldlM kernel.executor.evaluateNode kernel.graph with
  | error reason => rw [hpass] at h; cases h
  | ok g => rw [hpass] at h; cases h; rfl

/-- **Every error of the kernel** has a visible message. -/
theorem visible_of_step {kernel next : StatKernel D} {op : Op D} {reply : Reply D} {info : ErrorInfo}
    (hstep : kernel.step op = .ok (reply, next))
    (hreply : reply = .result (.error info) ∨ reply = .value (.error info)) :
    Visible info.message := by
  have hvoid {call : Except Abort (VoidResult × StatKernel D)} (hspeaks : Speaks call)
      (hstep : voidReply <$> call = .ok (reply, next)) : Visible info.message := by
    cases call with
    | error reason => cases hstep
    | ok outcome =>
        obtain ⟨result, kernel'⟩ := outcome
        cases hstep
        rcases hreply with hreply | hreply
        · cases hreply
          exact hspeaks
        · cases hreply
  cases op with
  | createValueNode id value =>
      have hspeaks : Speaks (.ok (kernel.createValueNode id value)) :=
        audible_addNode kernel.graph id _
      exact hvoid hspeaks hstep
  | createFormulaNode id formula =>
      exact hvoid (speaks_andThen kernel (Compiler.speaks_addFormulaNode _ id formula)) hstep
  | createCollectionNode id dependencies operation =>
      exact hvoid (speaks_andThen kernel
        (Compiler.speaks_addCollectionNode _ id dependencies operation)) hstep
  | setNodeValue id value => exact hvoid (speaks_setNodeValue kernel id value) hstep
  | setNodeFormula id formula =>
      exact hvoid (speaks_andThen kernel (Compiler.speaks_setNodeFormula _ id formula)) hstep
  | setNodeDependencies id dependencies =>
      exact hvoid (speaks_andThen kernel
        (Compiler.speaks_setCollectionNodeDependencies _ id dependencies _)) hstep
  | removeNode id =>
      have hspeaks : Speaks (kernel.removeNode id) := by
        rw [removeNode]
        exact speaks_andThen kernel (speaks_removeNode kernel.graph id)
      exact hvoid hspeaks hstep
  | getNodeValue id =>
      have hspeaks := speaks_getNodeValue kernel id
      rw [step] at hstep
      cases hread : kernel.getNodeValue id with
      | error reason => rw [hread] at hstep; cases hstep
      | ok outcome =>
          rw [hread] at hstep hspeaks
          cases hstep
          rcases hreply with hreply | hreply
          · cases hreply
          · obtain ⟨result, kernel'⟩ := outcome
            cases hreply
            exact hspeaks
  | evaluate =>
      rw [reply_of_evaluate hstep] at hreply
      rcases hreply with hreply | hreply <;> cases hreply
  | reset =>
      cases hstep
      rcases hreply with hreply | hreply <;> cases hreply
  | setEvaluationType evaluationType =>
      cases hstep
      rcases hreply with hreply | hreply <;> cases hreply

end StatForge.StatKernel
