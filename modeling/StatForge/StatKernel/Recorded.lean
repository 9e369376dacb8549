import StatForge.Lib.Recording
import StatForge.StatKernel.Invocations

/-!
# The evaluation with its log

The evaluation of the executor once more, with a log of the calls `formula()`.  Without the log it is
the evaluation, and the log is the one that is read off the rounds of the evaluation.

* `call` — `formula()`, the only place that writes to the log.
* `evaluateIterativeStep_eq` — one round: the erasure is the model's round, the log its formula.
* `evaluateIterative_eq`, `evaluateRecursive_eq` — both evaluations of a node.
* `getNodeValue_eq`, `evaluate_eq` — reads and passes.
-/

namespace StatForge.StatKernel.Recorded

open ExceptBind Recording StatForge.StatKernel.Graph

variable {D : Type} [Double D]

/-- A computation of the executor with the formulas that it has run. -/
abbrev Run (D α : Type) [Double D] := Recording (Invocation D) Abort α

/-- `formula()`. -/
def call (id : NodeId) (formula : NodeFormula D) (g : Graph D) : Run D D :=
  record ⟨id, formula, g⟩ (formula.invoke g)

def evaluateRecursive : Nat → Graph D → NodeId → Run D (Graph D)
  | 0, _, _ => silent (.error .nontermination)
  | fuel + 1, g, id => do
      let node ← silent (g.node id)
      if !node.dirty then pure g
      else
        let g ← (g.dependencies id).foldlM (evaluateRecursive fuel) g
        let node ← silent (g.node id)
        if node.type ≠ .value then
          match node.formula with
          | none => silent (.error .badFunctionCall)
          | some formula => do
              let value ← call id formula g
              pure (g.setNode id { node with value := value, dirty := false })
        else pure (g.setNode id { node with dirty := false })

def evaluateIterativeStep (t : Traversal D) : Run D (Graph D ⊕ Traversal D) :=
  match t.stack with
  | [] => pure (.inl t.graph)
  | currentId :: rest =>
      if t.visitState currentId = .visited then pure (.inr { t with stack := rest })
      else do
        let node ← silent (t.graph.node currentId)
        if t.visitState currentId = .unvisited then
          if !node.dirty then
            pure (.inr { t with
              stack := rest
              visitState := Function.update t.visitState currentId .visited })
          else
            let visitState := Function.update t.visitState currentId .visiting
            let pushed := (t.graph.dependencies currentId).filter (visitState · ≠ .visited)
            pure (.inr { t with stack := pushed.reverse ++ t.stack, visitState := visitState })
        else
          let visitState := Function.update t.visitState currentId .visited
          match node.formula with
          | none =>
              pure (.inr ⟨rest, visitState, t.graph.setNode currentId { node with dirty := false }⟩)
          | some formula => do
              let value ← call currentId formula t.graph
              pure (.inr ⟨rest, visitState,
                t.graph.setNode currentId { node with value := value, dirty := false }⟩)

def evaluateIterative (g : Graph D) (id : NodeId) : Run D (Graph D) := do
  let node ← silent (g.node id)
  if !node.dirty then pure g
  else
    loop evaluateIterativeStep .nontermination g.traversalBound ⟨[id], fun _ => .unvisited, g⟩

def evaluateNode (executor : Executor) (g : Graph D) (id : NodeId) : Run D (Graph D) :=
  match executor.evaluateImpl with
  | .iterative => evaluateIterative g id
  | .recursive => evaluateRecursive (g.nodes.keys.card + 1) g id

def getNodeValue (executor : Executor) (g : Graph D) (id : NodeId) : Run D (Result D × Graph D) :=
  if !g.contains id then
    pure (.error (buildErrorInfo .nodeNotFound
      ("Trying to set value of non-existing node " ++ quoted id)), g)
  else do
    let node ← silent (g.node id)
    let g ← if node.dirty then evaluateNode executor g id else pure g
    let node ← silent (g.node id)
    pure (.ok node.value, g)

def evaluate (executor : Executor) (g : Graph D) : Run D (VoidResult × Executor × Graph D) := do
  let g ← executor.dirtyLeaves.foldlM (evaluateNode executor) g
  pure (.ok (), { executor with dirtyLeaves := [] }, g)

/-! ### Erasure -/

section Erasure

variable {g : Graph D} {id : NodeId} {node : Node D}

theorem silent_node_of_lookup {α : Type} (hnode : g.nodes.lookup id = some node)
    (f : Node D → Run D α) : silent (g.node id) >>= f = f node := by
  rw [node_of_lookup hnode, silent_ok_bind]

theorem silent_node_of_missing {α : Type} (hnode : g.nodes.lookup id = none)
    (f : Node D → Run D α) :
    silent (g.node id) >>= f = ⟨[], .error .missingNode⟩ := by
  rw [Graph.node, hnode]
  exact silent_error_bind _ _

theorem call_bind {α : Type} (formula : NodeFormula D) (f : D → α) :
    (call id formula g >>= fun value => pure (f value)) =
      ⟨[⟨id, formula, g⟩], (formula.invoke g).map f⟩ := by
  rw [call, record]
  cases formula.invoke g with
  | error reason => rfl
  | ok value => rfl

section Round

variable {t : Traversal D} {current : NodeId} {rest : List NodeId}

theorem evaluateIterativeStep_of_missing (hstack : t.stack = current :: rest)
    (hstate : t.visitState current ≠ .visited) (hnode : t.graph.nodes.lookup current = none) :
    evaluateIterativeStep t =
      ⟨t.invocation.toList, outcome (StatKernel.evaluateIterativeStep t)⟩ := by
  have hnone : t.invocation = none := by simp [Traversal.invocation, hstack, hnode]
  simp only [evaluateIterativeStep, StatKernel.evaluateIterativeStep, hstack]
  rw [if_neg hstate, if_neg hstate, silent_node_of_missing hnode, Graph.node, hnode, hnone]
  rfl

/-- The first encounter runs no formula. -/
theorem evaluateIterativeStep_of_unvisited (hstack : t.stack = current :: rest)
    (hstate : t.visitState current = .unvisited) (hnode : t.graph.nodes.lookup current = some node) :
    evaluateIterativeStep t =
      ⟨t.invocation.toList, outcome (StatKernel.evaluateIterativeStep t)⟩ := by
  rw [invocation_of_not_visiting hstack (by simp [hstate])]
  simp only [evaluateIterativeStep, StatKernel.evaluateIterativeStep, hstack, hstate]
  rw [if_neg (by simp), if_neg (by simp), silent_node_of_lookup hnode, node_of_lookup hnode]
  dsimp only
  cases node.dirty with
  | false => rfl
  | true => rfl

/-- The second one runs the formula of the node, if it has one. -/
theorem evaluateIterativeStep_of_visiting (hstack : t.stack = current :: rest)
    (hstate : t.visitState current = .visiting) (hnode : t.graph.nodes.lookup current = some node) :
    evaluateIterativeStep t =
      ⟨t.invocation.toList, outcome (StatKernel.evaluateIterativeStep t)⟩ := by
  simp only [evaluateIterativeStep, StatKernel.evaluateIterativeStep, hstack, hstate]
  rw [if_neg (by simp), if_neg (by simp), silent_node_of_lookup hnode, node_of_lookup hnode]
  dsimp only
  rw [if_neg (by simp), if_neg (by simp)]
  cases hformula : node.formula with
  | none =>
      have hnone : t.invocation = none := by
        simp [Traversal.invocation, hstack, hstate, hnode, hformula]
      rw [hnone]
      rfl
  | some formula =>
      rw [invocation_of_visiting hstack hstate hnode hformula]
      dsimp only
      rw [call_bind]
      cases formula.invoke t.graph with
      | error reason => rfl
      | ok value => rfl

/-- **One round.** -/
theorem evaluateIterativeStep_eq (t : Traversal D) :
    evaluateIterativeStep t =
      ⟨t.invocation.toList, outcome (StatKernel.evaluateIterativeStep t)⟩ := by
  cases hstack : t.stack with
  | nil =>
      have hnone : t.invocation = none := by simp [Traversal.invocation, hstack]
      simp only [evaluateIterativeStep, StatKernel.evaluateIterativeStep, hstack, hnone]
      rfl
  | cons current rest =>
      by_cases hvisited : t.visitState current = .visited
      · rw [invocation_of_not_visiting hstack (by simp [hvisited])]
        simp only [evaluateIterativeStep, StatKernel.evaluateIterativeStep, hstack, if_pos hvisited]
        rfl
      · cases hnode : t.graph.nodes.lookup current with
        | none => exact evaluateIterativeStep_of_missing hstack hvisited hnode
        | some node =>
            cases hstate : t.visitState current with
            | unvisited => exact evaluateIterativeStep_of_unvisited hstack hstate hnode
            | visiting => exact evaluateIterativeStep_of_visiting hstack hstate hnode
            | visited => exact absurd hstate hvisited

end Round

theorem evaluateIterative_eq (g : Graph D) (id : NodeId) :
    evaluateIterative g id =
      ⟨iterativeInvocations g id, StatKernel.evaluateIterative g id⟩ := by
  rw [evaluateIterative, iterativeInvocations, StatKernel.evaluateIterative]
  cases hnode : g.nodes.lookup id with
  | none =>
      rw [silent_node_of_missing hnode, Graph.node, hnode]
      rfl
  | some node =>
      rw [silent_node_of_lookup hnode, node_of_lookup hnode, ExceptBind.ok_bind]
      dsimp only
      cases node.dirty with
      | false => rfl
      | true =>
          simp only [Bool.not_true, Bool.false_eq_true, if_false]
          rw [loop_eq evaluateIterativeStep_eq]
          cases FuelLoop.run StatKernel.evaluateIterativeStep g.traversalBound
              ⟨[id], fun _ => .unvisited, g⟩ with
          | none => rfl
          | some result => rfl

/-- A pass, if the evaluation of every node has its log. -/
theorem foldlM_eq {evaluateNode : Graph D → NodeId → Run D (Graph D)}
    {plain : Graph D → NodeId → Except Abort (Graph D)}
    {invocations : Graph D → NodeId → List (Invocation D)}
    (h : ∀ g id, evaluateNode g id = ⟨invocations g id, plain g id⟩) (targets : List NodeId)
    (g : Graph D) :
    targets.foldlM evaluateNode g =
      ⟨passInvocations plain invocations targets g, targets.foldlM plain g⟩ := by
  induction targets generalizing g with
  | nil => rfl
  | cons id targets ih =>
      rw [List.foldlM_cons, List.foldlM_cons, passInvocations, h]
      cases plain g id with
      | error reason =>
          dsimp only
          rw [List.append_nil]
          rfl
      | ok g' => rw [Recording.ok_bind, ExceptBind.ok_bind, ih]

theorem evaluateRecursive_eq (fuel : Nat) (g : Graph D) (id : NodeId) :
    evaluateRecursive fuel g id =
      ⟨recursiveInvocations fuel g id, StatKernel.evaluateRecursive fuel g id⟩ := by
  induction fuel generalizing g id with
  | zero => rfl
  | succ fuel ih =>
      rw [evaluateRecursive, recursiveInvocations, StatKernel.evaluateRecursive]
      cases hnode : g.nodes.lookup id with
      | none =>
          rw [silent_node_of_missing hnode, Graph.node, hnode]
          rfl
      | some node =>
          rw [silent_node_of_lookup hnode, node_of_lookup hnode, ExceptBind.ok_bind]
          dsimp only
          cases node.dirty with
          | false => rfl
          | true =>
              simp only [Bool.not_true, Bool.false_eq_true, if_false]
              rw [foldlM_eq ih]
              cases (g.dependencies id).foldlM (StatKernel.evaluateRecursive fuel) g with
              | error reason =>
                  dsimp only
                  rw [List.append_nil]
                  rfl
              | ok g' =>
                  rw [Recording.ok_bind, ExceptBind.ok_bind]
                  dsimp only
                  cases hnode' : g'.nodes.lookup id with
                  | none =>
                      rw [silent_node_of_missing hnode', Graph.node, hnode']
                      rfl
                  | some node' =>
                      rw [silent_node_of_lookup hnode', node_of_lookup hnode',
                        ExceptBind.ok_bind]
                      dsimp only
                      by_cases htype : node'.type ≠ .value
                      · rw [if_pos htype, if_pos htype, if_pos htype]
                        cases node'.formula with
                        | none => rfl
                        | some formula =>
                            dsimp only
                            rw [call_bind]
                            cases formula.invoke g' with
                            | error reason => rfl
                            | ok value => rfl
                      · rw [if_neg htype, if_neg htype, if_neg htype]
                        rfl

theorem evaluateNode_eq (executor : Executor) (g : Graph D) (id : NodeId) :
    evaluateNode executor g id = ⟨executor.invocations g id, executor.evaluateNode g id⟩ := by
  unfold evaluateNode Executor.invocations Executor.evaluateNode
  cases executor.evaluateImpl with
  | iterative => exact evaluateIterative_eq g id
  | recursive => exact evaluateRecursive_eq _ g id

/-- **A read** with its log. -/
theorem getNodeValue_eq (executor : Executor) (g : Graph D) (id : NodeId) :
    getNodeValue executor g id =
      ⟨executor.readInvocations g id, executor.getNodeValue g id⟩ := by
  have hvalue (g : Graph D) :
      (do let node ← silent (g.node id); pure (.ok node.value, g) : Run D (Result D × Graph D)) =
        silent (do let node ← g.node id; .ok (.ok node.value, g)) :=
    (silent_bind _ _).symm
  rw [getNodeValue, Executor.readInvocations, Executor.getNodeValue]
  cases hnode : g.nodes.lookup id with
  | none =>
      have hcontains : g.contains id = false :=
        contains_eq_false_iff.mpr (Finmap.lookup_eq_none.mp hnode)
      rw [hcontains, Graph.node, hnode]
      rfl
  | some node =>
      have hcontains : g.contains id = true :=
        contains_iff.mpr (Finmap.mem_iff.mpr ⟨node, hnode⟩)
      simp only [hcontains, Bool.not_true, Bool.false_eq_true, if_false]
      rw [silent_node_of_lookup hnode, node_of_lookup hnode, ExceptBind.ok_bind]
      dsimp only
      cases node.dirty with
      | false => exact hvalue g
      | true =>
          simp only [if_true]
          rw [evaluateNode_eq]
          cases executor.evaluateNode g id with
          | error reason => rfl
          | ok g' =>
              rw [Recording.ok_bind, hvalue, silent, List.append_nil]
              rfl

/-- **An evaluation pass** with its log. -/
theorem evaluate_eq (executor : Executor) (g : Graph D) :
    evaluate executor g = ⟨executor.evaluateInvocations g, executor.evaluate g⟩ := by
  rw [evaluate, Executor.evaluateInvocations, Executor.evaluate,
    foldlM_eq (evaluateNode_eq executor)]
  cases executor.dirtyLeaves.foldlM executor.evaluateNode g with
  | error reason => rfl
  | ok g' =>
      rw [Recording.ok_bind, Recording.pure_eq, List.append_nil]
      rfl

end Erasure

end StatForge.StatKernel.Recorded
