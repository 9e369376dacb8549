import StatForge.StatKernel.ReachableStates

/-!
# The evaluation type does not matter

* `step_withType` — a call on a kernel with another evaluation type gives the same reply and the
  same kernel but for the type.
* `evaluations_agree` — both evaluations of a node have the same result in every reachable state, and
  two call sequences that differ in `setEvaluationType` calls only return the same results.
-/

namespace StatForge.StatKernel

open Relation Successors ExceptBind StatForge.StatKernel.Graph

variable {D : Type} [Double D]

/-- The kernel with another evaluation type. -/
def withType (evaluationType : EvaluationType) (kernel : StatKernel D) : StatKernel D :=
  ⟨kernel.graph, { kernel.executor with evaluateImpl := evaluationType }⟩

theorem Consistent.withType {kernel : StatKernel D} (h : kernel.Consistent)
    (evaluationType : EvaluationType) : (kernel.withType evaluationType).Consistent :=
  ⟨h.sound, h.upToDate⟩

/-- A reply, and the kernel with another evaluation type. -/
def replyWithType {Answer : Type} (evaluationType : EvaluationType)
    (result : Answer × StatKernel D) : Answer × StatKernel D :=
  (result.1, result.2.withType evaluationType)

def Op.setsEvaluationType : Op D → Bool
  | .setEvaluationType _ => true
  | _ => false

section Executor

variable {g : Graph D}

theorem evaluateNode_congr (hsound : g.Sound) (hcurrent : g.UpToDate) (executor executor' : Executor)
    (id : NodeId) : executor.evaluateNode g id = executor'.evaluateNode g id := by
  have hagree := evaluateIterative_eq_evaluateRecursive hsound hcurrent id
  unfold Executor.evaluateNode
  cases executor.evaluateImpl <;> cases executor'.evaluateImpl <;> simp [hagree]

theorem foldlM_evaluateNode_congr (hsound : g.Sound) (hcurrent : g.UpToDate)
    (executor executor' : Executor) (targets : List NodeId) :
    targets.foldlM executor.evaluateNode g = targets.foldlM executor'.evaluateNode g := by
  induction targets generalizing g with
  | nil => rfl
  | cons id targets ih =>
      rw [List.foldlM_cons, List.foldlM_cons, evaluateNode_congr hsound hcurrent executor executor']
      cases hrun : executor'.evaluateNode g id with
      | error reason => rfl
      | ok g' =>
          have hevaluated := executor'.evaluated_of_evaluateNode hsound hcurrent hrun
          exact ih (hevaluated.sound hsound) hevaluated.upToDate

end Executor

section Calls

variable {kernel : StatKernel D} (evaluationType : EvaluationType)

theorem markDirty_withType (id : NodeId) (kernel : StatKernel D) :
    markDirty id (kernel.withType evaluationType) =
      StatKernel.withType evaluationType <$> markDirty id kernel := by
  unfold markDirty Executor.markDirty withType
  cases FuelLoop.run markDirtyStep
    (edgeCount kernel.graph.dependentsMap + (kernel.graph.dependents id).length + 2)
      ([id], kernel.graph, kernel.executor.dirtyLeaves) with
  | none => rfl
  | some result => cases result <;> rfl

theorem foldlM_markDirty_withType (sources : List NodeId) (kernel : StatKernel D) :
    sources.foldlM (fun kernel id => kernel.markDirty id) (kernel.withType evaluationType) =
      StatKernel.withType evaluationType <$>
        sources.foldlM (fun kernel id => kernel.markDirty id) kernel := by
  induction sources generalizing kernel with
  | nil => rfl
  | cons id sources ih =>
      rw [List.foldlM_cons, List.foldlM_cons, markDirty_withType]
      cases markDirty id kernel with
      | error reason => rfl
      | ok kernel' => exact ih kernel'

theorem andThen_withType (kernel : StatKernel D) (change : Except Abort (VoidResult × Graph D))
    {bookkeeping : StatKernel D → Except Abort (StatKernel D)}
    (hbookkeeping : ∀ kernel, bookkeeping (kernel.withType evaluationType) =
      StatKernel.withType evaluationType <$> bookkeeping kernel) :
    (kernel.withType evaluationType).andThen change bookkeeping =
      replyWithType evaluationType <$> kernel.andThen change bookkeeping := by
  unfold andThen
  cases change with
  | error reason => rfl
  | ok result =>
      obtain ⟨result, g⟩ := result
      cases result with
      | error info => rfl
      | ok done =>
          simp only [ok_bind]
          -- Definitionally, changing the type commutes with replacing the graph.
          have hgraph := hbookkeeping ⟨g, kernel.executor⟩
          change bookkeeping ⟨g, { kernel.executor with evaluateImpl := evaluationType }⟩ = _ at hgraph
          show (bookkeeping ⟨g, { kernel.executor with evaluateImpl := evaluationType }⟩ >>= _) = _
          rw [hgraph]
          cases bookkeeping ⟨g, kernel.executor⟩ <;> rfl

theorem setNodeValue_withType (kernel : StatKernel D) (id : NodeId) (value : D) :
    (kernel.withType evaluationType).setNodeValue id value =
      replyWithType evaluationType <$> kernel.setNodeValue id value := by
  unfold setNodeValue
  show (if !kernel.graph.contains id then _ else kernel.graph.node id >>= _) = _
  split
  · rfl
  · cases kernel.graph.node id with
    | error reason => rfl
    | ok node =>
        simp only [ok_bind]
        split
        · rfl
        · split
          · rfl
          · have hmark := markDirty_withType evaluationType id
              ⟨kernel.graph.setNode id { node with value := value }, kernel.executor⟩
            change markDirty id ⟨kernel.graph.setNode id { node with value := value },
              { kernel.executor with evaluateImpl := evaluationType }⟩ = _ at hmark
            show (markDirty id ⟨kernel.graph.setNode id { node with value := value },
              { kernel.executor with evaluateImpl := evaluationType }⟩ >>= _) = _
            rw [hmark]
            cases markDirty id ⟨kernel.graph.setNode id { node with value := value },
              kernel.executor⟩ <;> rfl

theorem getNodeValue_withType (h : kernel.Consistent) (id : NodeId) :
    (kernel.withType evaluationType).getNodeValue id =
      replyWithType evaluationType <$> kernel.getNodeValue id := by
  have hexecutor : (kernel.withType evaluationType).executor.getNodeValue kernel.graph id =
      kernel.executor.getNodeValue kernel.graph id := by
    unfold Executor.getNodeValue
    rw [evaluateNode_congr h.sound h.upToDate _ kernel.executor]
  show ((kernel.withType evaluationType).executor.getNodeValue kernel.graph id >>= _) = _
  rw [hexecutor, getNodeValue]
  cases kernel.executor.getNodeValue kernel.graph id <;> rfl

theorem evaluate_withType (h : kernel.Consistent) :
    (kernel.withType evaluationType).evaluate =
      replyWithType evaluationType <$> kernel.evaluate := by
  unfold evaluate Executor.evaluate
  show ((kernel.executor.dirtyLeaves.foldlM
    (kernel.withType evaluationType).executor.evaluateNode kernel.graph >>= _) >>= _) = _
  rw [foldlM_evaluateNode_congr h.sound h.upToDate _ kernel.executor]
  cases kernel.executor.dirtyLeaves.foldlM kernel.executor.evaluateNode kernel.graph <;> rfl

theorem voidReply_withType (result : Except Abort (VoidResult × StatKernel D)) :
    voidReply <$> (replyWithType evaluationType <$> result) =
      replyWithType evaluationType <$> (voidReply <$> result) := by
  cases result <;> rfl

/-- **A call does not depend on the evaluation type.** -/
theorem step_withType (h : kernel.Consistent) {op : Op D} (hop : op.setsEvaluationType = false) :
    (kernel.withType evaluationType).step op = replyWithType evaluationType <$> kernel.step op := by
  cases op with
  | createValueNode id value =>
      simp only [step, createValueNode, Compiler.addValueNode]
      rfl
  | createFormulaNode id text =>
      simp only [step, createFormulaNode]
      rw [← voidReply_withType, ← andThen_withType evaluationType kernel _ fun _ => rfl]
      rfl
  | createCollectionNode id dependencies operation =>
      simp only [step, createCollectionNode]
      rw [← voidReply_withType, ← andThen_withType evaluationType kernel _ fun _ => rfl]
      rfl
  | setNodeValue id value =>
      simp only [step]
      rw [setNodeValue_withType, voidReply_withType]
  | setNodeFormula id text =>
      simp only [step, setNodeFormula]
      rw [← voidReply_withType, ← andThen_withType evaluationType kernel _
        (markDirty_withType evaluationType id)]
      rfl
  | setNodeDependencies id dependencies =>
      simp only [step, setNodeDependencies]
      rw [← voidReply_withType, ← andThen_withType evaluationType kernel _
        (markDirty_withType evaluationType id)]
      rfl
  | removeNode id =>
      simp only [step, removeNode]
      rw [← voidReply_withType, ← andThen_withType evaluationType kernel _ fun kernel' =>
        foldlM_markDirty_withType evaluationType (kernel.graph.dependents id)
          ⟨kernel'.graph, kernel'.executor.remove id⟩]
      rfl
  | getNodeValue id =>
      simp only [step]
      rw [getNodeValue_withType evaluationType h]
      cases kernel.getNodeValue id <;> rfl
  | evaluate =>
      simp only [step]
      rw [evaluate_withType evaluationType h, voidReply_withType]
  | reset => rfl
  | setEvaluationType => cases hop

end Calls

/-! ### Call sequences -/

/-- What the calls other than `setEvaluationType` return, one after the other, up to the first call
that aborts. -/
def callResults (kernel : StatKernel D) : List (Op D) → List (Except Abort (Reply D))
  | [] => []
  | op :: ops =>
      match kernel.step op with
      | .error reason => [.error reason]
      | .ok (reply, next) =>
          if op.setsEvaluationType then next.callResults ops else .ok reply :: next.callResults ops

/-- The evaluation type of the start and the calls that change it have no influence on the results of
the other calls. -/
theorem callResults_filter {kernel : StatKernel D} (h : kernel.Consistent)
    (evaluationType : EvaluationType) (ops : List (Op D)) :
    kernel.callResults ops = (kernel.withType evaluationType).callResults
      (ops.filter fun op => !op.setsEvaluationType) := by
  induction ops generalizing kernel with
  | nil => rfl
  | cons op ops ih =>
      cases hop : op.setsEvaluationType with
      | true =>
          cases op with
          | setEvaluationType type =>
              -- The call changes the type only, which the right-hand side overwrites.
              have hsame : Consistent ⟨kernel.graph, kernel.executor.setEvaluationType type⟩ :=
                ⟨h.sound, h.upToDate⟩
              have hnext := ih hsame
              rw [List.filter_cons_of_neg (by simp [Op.setsEvaluationType])]
              simp only [callResults, step, setEvaluationType, Op.setsEvaluationType, if_true, hnext]
              unfold Executor.setEvaluationType withType
              cases type <;> rfl
          | _ => cases hop
      | false =>
          rw [List.filter_cons_of_pos (by simp [hop])]
          simp only [callResults, step_withType evaluationType h hop, hop]
          cases hstep : kernel.step op with
          | error reason => rfl
          | ok result =>
              obtain ⟨reply, next⟩ := result
              have hnext := ih ((step_transition h hstep).consistent h)
              simpa [replyWithType] using hnext

/-- **Iterative and recursive evaluation agree.**  From every reachable state both evaluations of an
existing node return the same graph or both reach `unreachable()`; and two sequences of calls that
differ in their `setEvaluationType` calls only return the same results. -/
theorem evaluations_agree :
    (∀ kernel : StatKernel D, Reachable kernel → ∀ id ∈ kernel.graph.nodes,
      (∃ g, evaluateIterative kernel.graph id = .ok g ∧
        evaluateRecursive (kernel.graph.nodes.keys.card + 1) kernel.graph id = .ok g) ∨
      (evaluateIterative kernel.graph id = .error .unreachable ∧
        evaluateRecursive (kernel.graph.nodes.keys.card + 1) kernel.graph id =
          .error .unreachable)) ∧
    ∀ ops ops' : List (Op D),
      (ops.filter fun op => !op.setsEvaluationType) = ops'.filter (fun op => !op.setsEvaluationType) →
        fresh.callResults ops = fresh.callResults ops' := by
  refine ⟨fun kernel hreach id hid => ?_, fun ops ops' hops => ?_⟩
  · have h := hreach.consistent
    have hresult := evaluateIterative_spec h.sound h.upToDate hid
    rw [← evaluateIterative_eq_evaluateRecursive h.sound h.upToDate]
    cases hrun : evaluateIterative kernel.graph id with
    | ok g => exact Or.inl ⟨g, rfl, rfl⟩
    | error reason =>
        rw [hrun] at hresult
        obtain rfl := hresult.1
        exact Or.inr ⟨rfl, rfl⟩
  · rw [callResults_filter Consistent.fresh .iterative, hops,
      ← callResults_filter Consistent.fresh .iterative]

/-- Switching to the recursive evaluation at the start and back before the last read. -/
theorem sample_evaluations_agree :
    (fresh : StatKernel NanRat).callResults
        [.createValueNode ['v'] (Double.ofNat 1), .createFormulaNode ['f'] "<v> * 3".toList,
          .getNodeValue ['f'], .setNodeValue ['v'] (Double.ofNat 2), .getNodeValue ['f']] =
      fresh.callResults
        [.setEvaluationType .recursive, .createValueNode ['v'] (Double.ofNat 1),
          .createFormulaNode ['f'] "<v> * 3".toList, .getNodeValue ['f'],
          .setNodeValue ['v'] (Double.ofNat 2), .setEvaluationType .iterative,
          .getNodeValue ['f']] :=
  evaluations_agree.2 _ _ rfl

end StatForge.StatKernel
