import StatForge.StatKernel.ReachableStates

/-!
# The order in which formulas run

A formula reads the stored values of its dependencies without looking at their flags, so only the
order of the evaluation protects it from a stale value.  The logs are read off the rounds and the
recursion here; `Recorded` writes them while the evaluation goes on.

* `Invocation` — a formula that runs, with the graph that it reads at that moment.
* `iterativeInvocations`, `recursiveInvocations`, `passInvocations` — the invocations of both
  evaluations of a node, and of an evaluation of one node after the other.
* `Graph.iterativeInvocations_rule` — the rule for the log of the iterative evaluation.
* `Graph.Logged` — a log of invocations between two graphs: every node that has become clean has run
  once, with clean dependencies.
* `EvaluatedInOrder` — the log of a whole evaluation: it holds the dirty nodes below the targets.
* `formulas_run_once_in_order` — every read and every evaluation pass of a reachable kernel.
-/

namespace StatForge.StatKernel

open Relation Successors ExceptBind StatForge.StatKernel.Graph

variable {D : Type} [Double D]

/-- A formula that runs: its node, the closure, and the graph at that moment. -/
structure Invocation (D : Type) [Double D] where
  id : NodeId
  formula : NodeFormula D
  graph : Graph D

def Invocation.run (invocation : Invocation D) : Except Abort D :=
  invocation.formula.invoke invocation.graph

/-- The formula that a round of `evaluateIterative` runs: the one of the top of the stack, on its
second encounter. -/
def Traversal.invocation (t : Traversal D) : Option (Invocation D) :=
  match t.stack with
  | [] => none
  | currentId :: _ =>
      if t.visitState currentId = .visiting then
        (t.graph.nodes.lookup currentId).bind fun node =>
          node.formula.map fun formula => ⟨currentId, formula, t.graph⟩
      else none

/-- The formulas that `evaluateIterative(id)` runs, in order. -/
def iterativeInvocations (g : Graph D) (id : NodeId) : List (Invocation D) :=
  match g.node id with
  | .error _ => []
  | .ok node =>
      if !node.dirty then []
      else
        (FuelLoop.rounds evaluateIterativeStep g.traversalBound
          ⟨[id], fun _ => .unvisited, g⟩).filterMap Traversal.invocation

section Pass

variable (evaluate : Graph D → NodeId → Except Abort (Graph D))
  (invocations : Graph D → NodeId → List (Invocation D))

/-- The formulas that run while the nodes of a list are evaluated one after the other. -/
def passInvocations : List NodeId → Graph D → List (Invocation D)
  | [], _ => []
  | id :: targets, g =>
      invocations g id ++
        match evaluate g id with
        | .error _ => []
        | .ok g => passInvocations targets g

end Pass

/-- The formulas that `evaluateRecursive(id)` runs, in order: those of the dependencies, and then the
node's own. -/
def recursiveInvocations : Nat → Graph D → NodeId → List (Invocation D)
  | 0, _, _ => []
  | fuel + 1, g, id =>
      match g.node id with
      | .error _ => []
      | .ok node =>
          if !node.dirty then []
          else
            passInvocations (evaluateRecursive fuel) (recursiveInvocations fuel)
                (g.dependencies id) g ++
              match (g.dependencies id).foldlM (evaluateRecursive fuel) g with
              | .error _ => []
              | .ok g =>
                  match g.nodes.lookup id with
                  | none => []
                  | some node =>
                      if node.type ≠ .value then
                        (node.formula.map fun formula => ⟨id, formula, g⟩).toList
                      else []

namespace Executor

/-- The formulas that the private `evaluate(id)` runs. -/
def invocations (executor : Executor) (g : Graph D) (id : NodeId) : List (Invocation D) :=
  match executor.evaluateImpl with
  | .iterative => iterativeInvocations g id
  | .recursive => recursiveInvocations (g.nodes.keys.card + 1) g id

/-- The formulas that `getNodeValue(id)` runs. -/
def readInvocations (executor : Executor) (g : Graph D) (id : NodeId) : List (Invocation D) :=
  match g.node id with
  | .error _ => []
  | .ok node => if node.dirty then executor.invocations g id else []

/-- The formulas that `evaluate()` runs. -/
def evaluateInvocations (executor : Executor) (g : Graph D) : List (Invocation D) :=
  passInvocations executor.evaluateNode executor.invocations executor.dirtyLeaves g

end Executor

/-! ### Logs -/

/-- A formula that runs at the right moment: its node is dirty, the direct dependencies are clean, and
it computes the definition of its node, which reads clean nodes only. -/
structure Invocation.Ready (invocation : Invocation D) : Prop where
  dirty : invocation.graph.isDirty invocation.id = true
  dependencies : ∀ d ∈ invocation.graph.dependencies invocation.id,
    invocation.graph.isDirty d = false
  reads : ∃ definition, invocation.graph.definition invocation.id = some definition ∧
    invocation.run = definition.eval invocation.graph.valueOf ∧
    ∀ d ∈ definition.reads, invocation.graph.isDirty d = false

namespace Graph

variable {g g' g'' : Graph D} {id n : NodeId} {node : Node D} {targets : List NodeId}
  {log log' : List (Invocation D)}

/-- The log of an evaluation from `g` to `g'`. -/
structure Logged (g : Graph D) (log : List (Invocation D)) (g' : Graph D) : Prop where
  updates : Updates Refreshes g g'
  once : (log.map Invocation.id).Nodup
  mem_iff : ∀ n, n ∈ log.map Invocation.id ↔ g.isDirty n = true ∧ g'.isDirty n = false
  ready : ∀ invocation ∈ log, invocation.Ready

theorem Logged.nil (g : Graph D) : g.Logged [] g where
  updates := .refl _ _
  once := List.nodup_nil
  mem_iff n := by
    cases g.isDirty n <;> simp
  ready := by simp

/-- Logs are joined: a node of the first one is clean before the second one starts. -/
theorem Logged.append (h : g.Logged log g') (h' : g'.Logged log' g'') :
    g.Logged (log ++ log') g'' where
  updates := refreshes_trans h.updates h'.updates
  once := by
    rw [List.map_append]
    refine h.once.append h'.once fun n hn hn' => ?_
    have hclean := ((h.mem_iff n).mp hn).2
    rw [((h'.mem_iff n).mp hn').1] at hclean
    cases hclean
  mem_iff n := by
    rw [List.map_append, List.mem_append, h.mem_iff, h'.mem_iff]
    constructor
    · rintro (⟨hdirty, hclean⟩ | ⟨hdirty, hclean⟩)
      · exact ⟨hdirty, refreshes_clean h'.updates hclean⟩
      · exact ⟨refreshes_isDirty h.updates hdirty, hclean⟩
    · rintro ⟨hdirty, hclean⟩
      cases hmiddle : g'.isDirty n with
      | false => exact Or.inl ⟨hdirty, rfl⟩
      | true => exact Or.inr ⟨rfl, hclean⟩
  ready invocation hinvocation := by
    rcases List.mem_append.mp hinvocation with hmem | hmem
    · exact h.ready invocation hmem
    · exact h'.ready invocation hmem

/-- One formula runs, and its value is stored. -/
theorem Logged.run (hsound : g.Sound) (hnode : g.nodes.lookup id = some node)
    (hdirty : node.dirty = true) (hclean : ∀ d ∈ g.dependencies id, g.isDirty d = false)
    {formula : NodeFormula D} (hformula : node.formula = some formula) (value : D) :
    g.Logged [⟨id, formula, g⟩] (g.setNode id { node with value := value, dirty := false }) where
  updates := .setNode hnode ⟨hdirty, value, rfl⟩
  once := List.nodup_singleton id
  mem_iff n := by
    rw [isDirty_setNode]
    show n ∈ [id] ↔ _
    rw [List.mem_singleton]
    constructor
    · rintro rfl
      rw [if_pos rfl, isDirty_of_lookup hnode]
      exact ⟨hdirty, rfl⟩
    · rintro ⟨hbefore, hafter⟩
      by_contra hn
      rw [if_neg hn, hbefore] at hafter
      cases hafter
  ready invocation hinvocation := by
    obtain rfl := List.mem_singleton.mp hinvocation
    obtain ⟨definition, hdefinition, -, hreads, hinvoke⟩ := hsound.definition_of_lookup hnode
    refine ⟨?_, hclean, definition, hdefinition, hinvoke formula hformula,
      fun d hd => hclean d (hreads d hd)⟩
    rw [isDirty_of_lookup hnode, hdirty]

/-- An evaluation that returns has a complete log; the log of one that aborts shows the formula that
aborts. -/
def Traces (g : Graph D) (log : List (Invocation D)) : Except Abort (Graph D) → Prop
  | .ok g' => g.Logged log g'
  | .error reason => ∃ invocation ∈ log, invocation.run = .error reason

/-- After a complete log, whatever comes next is logged behind it. -/
theorem Logged.traces (h : g.Logged log g') {result : Except Abort (Graph D)}
    (hresult : g'.Traces log' result) : g.Traces (log ++ log') result := by
  cases result with
  | ok g'' => exact h.append hresult
  | error reason =>
      obtain ⟨invocation, hmem, hrun⟩ := hresult
      exact ⟨invocation, List.mem_append_right _ hmem, hrun⟩

/-! ### The iterative evaluation -/

section Round

variable {t next : Traversal D} {current : NodeId} {rest : List NodeId}

theorem invocation_of_not_visiting (hstack : t.stack = current :: rest)
    (hstate : t.visitState current ≠ .visiting) : t.invocation = none := by
  simp [Traversal.invocation, hstack, hstate]

theorem invocation_of_visiting (hstack : t.stack = current :: rest)
    (hstate : t.visitState current = .visiting) (hnode : t.graph.nodes.lookup current = some node)
    {formula : NodeFormula D} (hformula : node.formula = some formula) :
    t.invocation = some ⟨current, formula, t.graph⟩ := by
  simp [Traversal.invocation, hstack, hstate, hnode, hformula]

/-- The result of a round with its log: the graph goes on, or the formula aborts. -/
def RoundTraces (t : Traversal D) : Except Abort (Graph D) ⊕ Traversal D → Prop
  | .inl result => t.graph.Traces t.invocation.toList result
  | .inr next => t.graph.Logged t.invocation.toList next.graph

/-- A round without an invocation leaves the graph as it is. -/
theorem roundTraces_of_not_visiting (hstack : t.stack = current :: rest)
    (hstate : t.visitState current ≠ .visiting) (hcurrent : current ∈ t.graph.nodes) :
    RoundTraces t (evaluateIterativeStep t) := by
  obtain ⟨node, hnode⟩ := Finmap.mem_iff.mp hcurrent
  have hnone := invocation_of_not_visiting hstack hstate
  simp only [evaluateIterativeStep, hstack, node_of_lookup hnode]
  split
  · rw [RoundTraces, hnone]
    exact .nil _
  · rename_i hvisited
    have hunvisited : t.visitState current = .unvisited := by
      cases hcase : t.visitState current <;> simp_all
    rw [if_pos hunvisited]
    split
    · rw [RoundTraces, hnone]
      exact .nil _
    · rw [RoundTraces, hnone]
      exact .nil _

/-- On the second encounter the formula runs, with clean dependencies. -/
theorem roundTraces_of_visiting (h : g.Traversing id t) (hsound : g.Sound)
    (hstack : t.stack = current :: rest) (hcurrent : current ∈ g.nodes)
    (hstate : t.visitState current = .visiting) : RoundTraces t (evaluateIterativeStep t) := by
  have hsound' := refreshes_sound h.updates hsound
  obtain ⟨node, hnode, hdirty, hclean⟩ := h.ready hsound hstack hcurrent hstate
  obtain ⟨formula, hformula, hresult⟩ := run_formula hsound' h.upToDate hnode hdirty hclean
  have hinvocation := invocation_of_visiting hstack hstate hnode hformula
  rw [evaluateIterativeStep_of_visiting hstack hstate hnode hformula]
  rcases hresult with ⟨value, hvalue, -⟩ | ⟨hvalue, -⟩
  · rw [hvalue]
    show t.graph.Logged t.invocation.toList _
    rw [hinvocation]
    exact .run hsound' hnode hdirty hclean hformula value
  · rw [hvalue]
    show t.graph.Traces t.invocation.toList (.error .unreachable)
    rw [hinvocation]
    exact ⟨⟨current, formula, t.graph⟩, List.mem_singleton.mpr rfl, hvalue⟩

/-- **One round** is logged by the formula that it runs. -/
theorem Traversing.roundTraces (h : g.Traversing id t) (hsound : g.Sound) (hid : id ∈ g.nodes) :
    RoundTraces t (evaluateIterativeStep t) := by
  cases hstack : t.stack with
  | nil =>
      have hnone : t.invocation = none := by simp [Traversal.invocation, hstack]
      simp only [evaluateIterativeStep, hstack, RoundTraces, hnone]
      exact .nil _
  | cons current rest =>
      have hcurrent := h.current_mem hsound hid hstack
      by_cases hstate : t.visitState current = .visiting
      · exact roundTraces_of_visiting h hsound hstack hcurrent hstate
      · exact roundTraces_of_not_visiting hstack hstate (h.updates.mem_iff.mpr hcurrent)

theorem filterMap_append_invocation (past : List (Traversal D)) (t : Traversal D) :
    (past ++ [t]).filterMap Traversal.invocation =
      past.filterMap Traversal.invocation ++ t.invocation.toList := by
  rw [List.filterMap_append]
  cases hinvocation : t.invocation <;> simp [hinvocation]

end Round

/-- **The rule for the log of the iterative evaluation**: what the exits make of an invariant of the
log and the loop's state holds of the whole log and the result. -/
theorem iterativeInvocations_rule (Inv : List (Invocation D) → Traversal D → Prop)
    (Post : List (Invocation D) → Except Abort (Graph D) → Prop)
    (hexit : ∀ log t result, Inv log t → evaluateIterativeStep t = .inl result →
      Post (log ++ t.invocation.toList) result)
    (hnext : ∀ log t next, Inv log t → evaluateIterativeStep t = .inr next →
      Inv (log ++ t.invocation.toList) next)
    (hnode : g.nodes.lookup id = some node) (hdirty : node.dirty = true)
    (hstart : Inv [] ⟨[id], fun _ => .unvisited, g⟩) {result : Except Abort (Graph D)}
    (hrun : FuelLoop.run evaluateIterativeStep g.traversalBound ⟨[id], fun _ => .unvisited, g⟩ =
      some result) : Post (iterativeInvocations g id) (evaluateIterative g id) := by
  simp only [iterativeInvocations, evaluateIterative, node_of_lookup hnode, ok_bind, hdirty,
    Bool.not_true, Bool.false_eq_true, if_false, hrun]
  have hstart : Inv (([] : List (Traversal D)).filterMap Traversal.invocation)
      ⟨[id], fun _ => .unvisited, g⟩ := hstart
  refine FuelLoop.rounds_spec (fun past t => Inv (past.filterMap Traversal.invocation) t)
    (fun history result => Post (history.filterMap Traversal.invocation) result) ?_ ?_ hstart hrun
  · intro past t result hinv hstep
    rw [filterMap_append_invocation]
    exact hexit _ t result hinv hstep
  · intro past t next hinv hstep
    rw [filterMap_append_invocation]
    exact hnext _ t next hinv hstep

/-- A clean node runs no formula. -/
theorem iterativeInvocations_of_clean (hnode : g.nodes.lookup id = some node)
    (hclean : node.dirty = false) :
    iterativeInvocations g id = [] ∧ evaluateIterative g id = .ok g := by
  simp [iterativeInvocations, evaluateIterative, node_of_lookup hnode, hclean]

/-- **The iterative evaluation** is logged by the formulas of its rounds. -/
theorem iterativeInvocations_traces (hsound : g.Sound) (hcurrent : g.UpToDate) (hid : id ∈ g.nodes) :
    g.Traces (iterativeInvocations g id) (evaluateIterative g id) := by
  obtain ⟨node, hnode⟩ := Finmap.mem_iff.mp hid
  cases hdirty : node.dirty with
  | false =>
      obtain ⟨hlog, hresult⟩ := iterativeInvocations_of_clean hnode hdirty
      rw [hlog, hresult]
      exact .nil g
  | true =>
      cases hrun : FuelLoop.run evaluateIterativeStep g.traversalBound
          ⟨[id], fun _ => .unvisited, g⟩ with
      | none =>
          -- The loop ends, so the bound is not exhausted.
          have hresult := evaluateIterative_spec hsound hcurrent hid
          simp only [evaluateIterative, node_of_lookup hnode, ok_bind, hdirty, Bool.not_true,
            Bool.false_eq_true, if_false, hrun] at hresult
          cases hresult.1
      | some result =>
          refine iterativeInvocations_rule (fun log t => g.Traversing id t ∧ g.Logged log t.graph)
            g.Traces ?_ ?_ hnode hdirty ⟨.start hcurrent, .nil g⟩ hrun
          · rintro log t result ⟨htraversing, hlogged⟩ hstep
            have hround := htraversing.roundTraces hsound hid
            rw [hstep] at hround
            exact hlogged.traces hround
          · rintro log t next ⟨htraversing, hlogged⟩ hstep
            have hround := htraversing.roundTraces hsound hid
            rw [hstep] at hround
            exact ⟨(htraversing.next hsound hid hstep).1, hlogged.append hround⟩

/-! ### Evaluating one node after the other -/

/-- A pass is logged by the logs of its nodes. -/
theorem passInvocations_traces (targets : List NodeId)
    (evaluate : Graph D → NodeId → Except Abort (Graph D))
    (invocations : Graph D → NodeId → List (Invocation D)) (hsound : g.Sound) (hcurrent : g.UpToDate)
    (hevaluate : ∀ g', g'.Sound → g'.UpToDate → Updates Refreshes g g' → ∀ id ∈ targets,
      g'.EvaluationResult [id] (evaluate g' id) ∧
        g'.Traces (invocations g' id) (evaluate g' id)) :
    g.Traces (passInvocations evaluate invocations targets g) (targets.foldlM evaluate g) := by
  induction targets generalizing g with
  | nil => exact Logged.nil g
  | cons id targets ih =>
      obtain ⟨hresult, htraces⟩ := hevaluate g hsound hcurrent (.refl _ _) id (by simp)
      rw [List.foldlM_cons, passInvocations]
      cases hrun : evaluate g id with
      | error reason =>
          rw [hrun] at htraces
          dsimp only
          rw [List.append_nil]
          exact htraces
      | ok g' =>
          rw [hrun] at hresult htraces
          have hresult : g.Evaluated [id] g' := hresult
          have htraces : g.Logged (invocations g id) g' := htraces
          rw [ok_bind]
          refine htraces.traces (ih (hresult.sound hsound) hresult.upToDate ?_)
          intro g'' hsound' hcurrent' hupdates id' hid'
          exact hevaluate g'' hsound' hcurrent' (refreshes_trans hresult.updates hupdates) id'
            (List.mem_cons_of_mem _ hid')

/-! ### The recursive evaluation -/

/-- **The recursive evaluation** is logged by the formulas of the dependencies and the node's own. -/
theorem recursiveInvocations_traces (hsound : g.Sound) (hcurrent : g.UpToDate) (hid : id ∈ g.nodes)
    {fuel : Nat} (hfuel : Successors.rank g.nodes.keys g.DependsOn id < fuel) :
    g.Traces (recursiveInvocations fuel g id) (evaluateRecursive fuel g id) := by
  induction fuel generalizing g id with
  | zero => omega
  | succ fuel ih =>
      obtain ⟨node, hnode⟩ := Finmap.mem_iff.mp hid
      rw [evaluateRecursive, recursiveInvocations, node_of_lookup hnode, ok_bind]
      dsimp only
      cases hdirty : node.dirty with
      | false => exact .nil g
      | true =>
          have hdependencies : ∀ g', g'.Sound → g'.UpToDate → Updates Refreshes g g' →
              ∀ d ∈ g.dependencies id, g'.EvaluationResult [d] (evaluateRecursive fuel g' d) ∧
                g'.Traces (recursiveInvocations fuel g' d) (evaluateRecursive fuel g' d) := by
            intro g' hsound' hcurrent' hupdates d hd
            -- A dependency has a smaller rank, and evaluations keep ranks, so the fuel suffices.
            have hrank : Successors.rank g'.nodes.keys g'.DependsOn d < fuel := by
              have hlt := hsound.rank_lt hd
              rw [hupdates.keys_eq, hupdates.dependsOn_eq]
              omega
            have hmem := hupdates.mem_iff.mpr (hsound.linked.dependency_mem hd)
            exact ⟨evaluateRecursive_spec hsound' hcurrent' hmem hrank,
              ih hsound' hcurrent' hmem hrank⟩
          have hpass := passInvocations_traces (g.dependencies id) (evaluateRecursive fuel)
            (recursiveInvocations fuel) hsound hcurrent hdependencies
          have hresult := foldlM_evaluationResult (g.dependencies id) (evaluateRecursive fuel) hsound
            hcurrent fun g' hsound' hcurrent' hupdates d hd =>
              (hdependencies g' hsound' hcurrent' hupdates d hd).1
          simp only [Bool.not_true, Bool.false_eq_true, if_false]
          cases hrun : (g.dependencies id).foldlM (evaluateRecursive fuel) g with
          | error reason =>
              rw [hrun] at hpass
              dsimp only
              rw [List.append_nil]
              exact hpass
          | ok g' =>
              rw [hrun] at hpass hresult
              have hevaluated : g.Evaluated (g.dependencies id) g' := hresult
              have hlogged : g.Logged _ g' := hpass
              have hsound' := hevaluated.sound hsound
              have hnode' := (hevaluated.own_record hsound).trans hnode
              have hclean : ∀ d ∈ g'.dependencies id, g'.isDirty d = false := fun d hd =>
                hevaluated.clean d (hevaluated.updates.dependencies_eq id ▸ hd)
              have htype := (hsound.typed id node hnode).type_ne_value_of_dirty hdirty
              obtain ⟨formula, hformula, hvalues⟩ :=
                run_formula hsound' hevaluated.upToDate hnode' hdirty hclean
              rw [ok_bind, node_of_lookup hnode', ok_bind]
              simp only [hnode', if_pos htype, hformula]
              apply hlogged.traces
              rcases hvalues with ⟨value, hvalue, -⟩ | ⟨hvalue, -⟩
              · have hown := Logged.run hsound' hnode' hdirty hclean hformula value
                rw [hformula] at hown
                rw [hvalue]
                exact hown
              · rw [hvalue]
                exact ⟨⟨id, formula, g'⟩, List.mem_singleton.mpr rfl, hvalue⟩

theorem invocations_traces (hsound : g.Sound) (hcurrent : g.UpToDate) (hid : id ∈ g.nodes)
    (executor : Executor) :
    g.Traces (executor.invocations g id) (executor.evaluateNode g id) := by
  unfold Executor.invocations Executor.evaluateNode
  cases executor.evaluateImpl with
  | iterative => exact iterativeInvocations_traces hsound hcurrent hid
  | recursive =>
      have hrank := hsound.rank_lt_card hid
      exact recursiveInvocations_traces hsound hcurrent hid (by omega)

end Graph

/-! ### Reads and passes -/

/-- An evaluation of some targets, with the formulas that it runs: every dirty node among the targets
and below them runs once, when its dependencies are clean, and becomes clean; nothing else changes. -/
structure EvaluatedInOrder (g : Graph D) (targets : List NodeId) (log : List (Invocation D))
    (g' : Graph D) : Prop where
  once : (log.map Invocation.id).Nodup
  mem_iff : ∀ n, n ∈ log.map Invocation.id ↔
    g.isDirty n = true ∧ ∃ id ∈ targets, ReflTransGen g.DependsOn id n
  ready : ∀ invocation ∈ log, invocation.Ready
  cleaned : ∀ n ∈ log.map Invocation.id, g'.isDirty n = false
  kept : ∀ n, n ∉ log.map Invocation.id → g'.nodes.lookup n = g.nodes.lookup n

/-- A complete log of a successful evaluation. -/
theorem Graph.Logged.evaluatedInOrder {g g' : Graph D} {targets : List NodeId}
    {log : List (Invocation D)} (h : g.Logged log g') (hevaluated : g.Evaluated targets g') :
    EvaluatedInOrder g targets log g' where
  once := h.once
  mem_iff n := by
    rw [h.mem_iff]
    constructor
    · rintro ⟨hdirty, hclean⟩
      refine ⟨hdirty, ?_⟩
      by_contra hreached
      push Not at hreached
      rw [isDirty_congr (hevaluated.frame n hreached), hdirty] at hclean
      cases hclean
    · rintro ⟨hdirty, id, hid, hpath⟩
      exact ⟨hdirty, hevaluated.clean_of_reached hid hpath⟩
  ready := h.ready
  cleaned n hn := ((h.mem_iff n).mp hn).2
  kept n hn := by
    rcases h.updates.node n with hsame | ⟨node, node', hnode, ⟨hdirty, value, rfl⟩, hnode'⟩
    · exact hsame
    · exact absurd ((h.mem_iff n).mpr ⟨by rw [isDirty_of_lookup hnode, hdirty],
        by rw [isDirty_of_lookup hnode']⟩) hn

/-- No formula aborts. -/
def NoneAborts (log : List (Invocation D)) : Prop :=
  ∀ invocation ∈ log, ∃ value, invocation.run = .ok value

theorem NoneAborts.run_ne_error {log : List (Invocation D)} (h : NoneAborts log)
    {invocation : Invocation D} (hmem : invocation ∈ log) (reason : Abort) :
    invocation.run ≠ .error reason := by
  obtain ⟨value, hvalue⟩ := h invocation hmem
  rw [hvalue]
  intro h
  cases h

/-- The test for it. -/
theorem noneAborts_of_isOk {log : List (Invocation D)}
    (h : ∀ invocation ∈ log, invocation.run.isOk = true) : NoneAborts log := by
  intro invocation hmem
  have hok := h invocation hmem
  cases hrun : invocation.run with
  | ok value => exact ⟨value, rfl⟩
  | error reason =>
      rw [hrun] at hok
      cases hok

/-- If no formula aborts, the evaluation returns. -/
theorem Graph.Traces.exists_logged {g : Graph D} {log : List (Invocation D)}
    {result : Except Abort (Graph D)} (h : g.Traces log result) (hlog : NoneAborts log) :
    ∃ g', result = .ok g' ∧ g.Logged log g' := by
  cases result with
  | ok g' => exact ⟨g', rfl, h⟩
  | error reason =>
      obtain ⟨invocation, hmem, hrun⟩ := h
      exact absurd hrun (hlog.run_ne_error hmem reason)

section Executor

variable {g : Graph D} {id : NodeId}

/-- A clean node runs no formula, so the test in `getNodeValue` makes no difference. -/
theorem Executor.readInvocations_eq (executor : Executor) (hid : id ∈ g.nodes) :
    executor.readInvocations g id = executor.invocations g id := by
  obtain ⟨node, hnode⟩ := Finmap.mem_iff.mp hid
  rw [readInvocations, node_of_lookup hnode]
  dsimp only
  cases hdirty : node.dirty with
  | true => rfl
  | false =>
      unfold invocations
      cases executor.evaluateImpl with
      | iterative => exact (iterativeInvocations_of_clean hnode hdirty).1.symm
      | recursive => simp [recursiveInvocations, node_of_lookup hnode, hdirty]

theorem Executor.getNodeValue_in_order (executor : Executor) (hsound : g.Sound)
    (hcurrent : g.UpToDate) (hid : id ∈ g.nodes)
    (hlog : NoneAborts (executor.readInvocations g id)) :
    ∃ value g', executor.getNodeValue g id = .ok (.ok value, g') ∧
      EvaluatedInOrder g [id] (executor.readInvocations g id) g' := by
  rw [executor.readInvocations_eq hid] at hlog ⊢
  obtain ⟨g', hrun, hlogged⟩ := (invocations_traces hsound hcurrent hid executor).exists_logged hlog
  have hevaluated := executor.evaluated_of_evaluateNode hsound hcurrent hrun
  rcases executor.getNodeValue_spec hsound hcurrent hid with
    ⟨g'', node, hevaluated', -, hread⟩ | ⟨-, haborts⟩
  · obtain rfl := hevaluated.unique hsound hevaluated'
    exact ⟨node.value, g', hread, hlogged.evaluatedInOrder hevaluated⟩
  · exact absurd haborts (hevaluated.not_abortsAt hsound (by simpa using hid) _)

theorem Executor.evaluate_in_order (executor : Executor) (hsound : g.Sound) (hcurrent : g.UpToDate)
    (hleaves : ∀ leaf ∈ executor.dirtyLeaves, leaf ∈ g.nodes)
    (hlog : NoneAborts (executor.evaluateInvocations g)) :
    ∃ g', executor.evaluate g = .ok (.ok (), { executor with dirtyLeaves := [] }, g') ∧
      EvaluatedInOrder g executor.dirtyLeaves (executor.evaluateInvocations g) g' := by
  have htraces := passInvocations_traces executor.dirtyLeaves executor.evaluateNode
    executor.invocations hsound hcurrent fun g' hsound' hcurrent' hupdates leaf hleaf =>
      have hmem := hupdates.mem_iff.mpr (hleaves leaf hleaf)
      ⟨executor.evaluateNode_spec hsound' hcurrent' hmem,
        invocations_traces hsound' hcurrent' hmem executor⟩
  obtain ⟨g', hrun, hlogged⟩ := htraces.exists_logged hlog
  have hevaluated := (executor.foldlM_evaluateNode hsound hcurrent hrun).2
  exact ⟨g', by rw [evaluate, hrun, ok_bind], hlogged.evaluatedInOrder hevaluated⟩

end Executor

/-- **Every dirty node once, after its dependencies.**  If no formula aborts, a read of an existing
node of a reachable kernel runs the formulas of exactly the dirty nodes among the node and its
transitive dependencies, each once and with clean dependencies; afterwards these nodes are clean and
all other records are as before.  An evaluation pass over existing leaves does the same below its
leaves. -/
theorem formulas_run_once_in_order {kernel : StatKernel D} (hreach : Reachable kernel) :
    (∀ id ∈ kernel.graph.nodes, NoneAborts (kernel.executor.readInvocations kernel.graph id) →
      ∃ value next, kernel.getNodeValue id = .ok (.ok value, next) ∧
        EvaluatedInOrder kernel.graph [id] (kernel.executor.readInvocations kernel.graph id)
          next.graph) ∧
    ((∀ leaf ∈ kernel.executor.dirtyLeaves, leaf ∈ kernel.graph.nodes) →
      NoneAborts (kernel.executor.evaluateInvocations kernel.graph) →
      ∃ next, kernel.evaluate = .ok (.ok (), next) ∧
        EvaluatedInOrder kernel.graph kernel.executor.dirtyLeaves
          (kernel.executor.evaluateInvocations kernel.graph) next.graph) := by
  have h := hreach.consistent
  constructor
  · intro id hid hlog
    obtain ⟨value, g, hrun, horder⟩ :=
      kernel.executor.getNodeValue_in_order h.sound h.upToDate hid hlog
    exact ⟨value, { kernel with graph := g }, by rw [getNodeValue, hrun, ok_bind], horder⟩
  · intro hleaves hlog
    obtain ⟨g, hrun, horder⟩ :=
      kernel.executor.evaluate_in_order h.sound h.upToDate hleaves hlog
    exact ⟨⟨g, { kernel.executor with dirtyLeaves := [] }⟩, by rw [evaluate, hrun, ok_bind], horder⟩

section Instances

private def sourceId : NodeId := "a".toList
private def leftId : NodeId := "b".toList
private def rightId : NodeId := "c".toList
private def joinId : NodeId := "d".toList

/-- A diamond: two formulas over one value, and a formula over both. -/
private def diamondCalls : List (Op NanRat) :=
  [.createValueNode sourceId (Double.ofNat 1), .createFormulaNode leftId "<a> + 1".toList,
    .createFormulaNode rightId "<a> * 2".toList, .createFormulaNode joinId "<b> - <c> + <a>".toList]

/-- A read of the diamond's tip runs the right side, the left side and the tip. -/
theorem diamond_runs_once :
    (((after diamondCalls).executor.readInvocations (after diamondCalls).graph joinId).map
        Invocation.id = [rightId, leftId, joinId]) ∧
      ∃ value next, (after diamondCalls).getNodeValue joinId = .ok (.ok value, next) ∧
        EvaluatedInOrder (after diamondCalls).graph [joinId]
          ((after diamondCalls).executor.readInvocations (after diamondCalls).graph joinId)
          next.graph := by
  have horder : ((after diamondCalls).executor.readInvocations (after diamondCalls).graph joinId).map
      Invocation.id = [rightId, leftId, joinId] := by decide +kernel
  have hmem : joinId ∈ (after diamondCalls).graph.nodes := by decide +kernel
  refine ⟨horder, (formulas_run_once_in_order (reachable_after diamondCalls)).1 joinId hmem ?_⟩
  exact noneAborts_of_isOk (by decide +kernel)

end Instances

end StatForge.StatKernel
