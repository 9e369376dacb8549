import StatForge.StatKernel.Invocations

/-!
# The iterative evaluation on any graph

The evaluation itself has no cycle check.  Here nothing is known about the graph: the flags are any
flags, the edges may contain a cycle, and a formula may throw.

* `Round` — what one round of the loop does to the stack, the visit states and the log.
* `Walk` — the loop invariant: the formula of a node has run only if the node has been visited.
* `loop_settles` — the loop ends, whatever the bound on its rounds, if it is large enough.
* `evaluateIterative_terminates` — it ends, runs no formula twice, and aborts in a formula only.
-/

namespace StatForge.StatKernel

open Successors ExceptBind StatForge.StatKernel.Graph

variable {D : Type} [Double D]

namespace Graph

/-- All dependency edges point to existing nodes. -/
def EdgesExist (g : Graph D) : Prop := ∀ n, ∀ d ∈ g.dependencies n, d ∈ g.nodes

variable {g : Graph D} {id n : NodeId} {node : Node D}

/-- Records may have changed, in any way; the edges and the set of nodes are those of `g`. -/
abbrev SameShape (g g' : Graph D) : Prop := Updates (fun _ _ => True) g g'

theorem SameShape.trans {g' g'' : Graph D} (h : g.SameShape g') (h' : g'.SameShape g'') :
    g.SameShape g'' :=
  Updates.trans h h' fun _ _ _ _ _ => trivial

/-! ### One round -/

/-- One round, with the formula that it runs and its result.  A node that is done leaves the stack
visited; its formula has run or there was none to run. -/
inductive Round (t : Traversal D) :
    Option (Invocation D) → Except Abort (Graph D) ⊕ Traversal D → Prop
  | done (hstack : t.stack = []) : Round t none (.inl (.ok t.graph))
  | skip {current : NodeId} {rest : List NodeId} (hstack : t.stack = current :: rest) :
      Round t none (.inr { t with stack := rest })
  | missing {current : NodeId} {rest : List NodeId} (hstack : t.stack = current :: rest)
      (hmissing : current ∉ t.graph.nodes) : Round t none (.inl (.error .missingNode))
  | expand {current : NodeId} {rest pushed : List NodeId} (hstack : t.stack = current :: rest)
      (hstate : t.visitState current = .unvisited) (hmem : current ∈ t.graph.nodes)
      (hpushed : pushed.Sublist (t.graph.dependencies current).reverse) :
      Round t none (.inr ⟨pushed ++ current :: rest,
        Function.update t.visitState current .visiting, t.graph⟩)
  | leave {current : NodeId} {rest : List NodeId} {invocation : Option (Invocation D)}
      {graph : Graph D} (hstack : t.stack = current :: rest)
      (hstate : t.visitState current ≠ .visited) (hmem : current ∈ t.graph.nodes)
      (hlog : ∀ i ∈ invocation, i.id = current) (hshape : t.graph.SameShape graph) :
      Round t invocation (.inr ⟨rest, Function.update t.visitState current .visited, graph⟩)
  | throw {invocation : Invocation D} {reason : Abort}
      (hstate : t.visitState invocation.id ≠ .visited) (hrun : invocation.run = .error reason) :
      Round t (some invocation) (.inl (.error reason))

section Round

variable {t next : Traversal D} {current : NodeId} {rest : List NodeId}

theorem round_of_unvisited (hstack : t.stack = current :: rest)
    (hstate : t.visitState current = .unvisited) (hnode : t.graph.nodes.lookup current = some node) :
    Round t t.invocation (evaluateIterativeStep t) := by
  have hmem : current ∈ t.graph.nodes := Finmap.mem_iff.mpr ⟨node, hnode⟩
  rw [invocation_of_not_visiting hstack (by simp [hstate])]
  simp only [evaluateIterativeStep, hstack, hstate, node_of_lookup hnode]
  rw [if_neg (by simp), if_pos trivial]
  cases node.dirty with
  | false => exact .leave hstack (by simp [hstate]) hmem (by simp) (.refl _ _)
  | true => exact .expand hstack hstate hmem List.filter_sublist.reverse

theorem round_of_visiting (hstack : t.stack = current :: rest)
    (hstate : t.visitState current = .visiting) (hnode : t.graph.nodes.lookup current = some node) :
    Round t t.invocation (evaluateIterativeStep t) := by
  have hmem : current ∈ t.graph.nodes := Finmap.mem_iff.mpr ⟨node, hnode⟩
  have hvisited : t.visitState current ≠ .visited := by simp [hstate]
  cases hformula : node.formula with
  | none =>
      have hnone : t.invocation = none := by
        simp [Traversal.invocation, hstack, hstate, hnode, hformula]
      rw [hnone]
      simp only [evaluateIterativeStep, hstack, hstate, node_of_lookup hnode, hformula]
      rw [if_neg (by simp), if_neg (by simp)]
      exact .leave hstack hvisited hmem (by simp) (.setNode hnode trivial)
  | some formula =>
      rw [invocation_of_visiting hstack hstate hnode hformula,
        evaluateIterativeStep_of_visiting hstack hstate hnode hformula]
      cases hvalue : formula.invoke t.graph with
      | error reason =>
          exact .throw hvisited hvalue
      | ok value => exact .leave hstack hvisited hmem (by simp) (.setNode hnode trivial)

theorem round_of_missing (hstack : t.stack = current :: rest)
    (hstate : t.visitState current ≠ .visited) (hnode : t.graph.nodes.lookup current = none) :
    Round t t.invocation (evaluateIterativeStep t) := by
  have hnone : t.invocation = none := by simp [Traversal.invocation, hstack, hnode]
  rw [hnone]
  simp only [evaluateIterativeStep, hstack, Graph.node, hnode]
  rw [if_neg hstate]
  exact .missing hstack (Finmap.lookup_eq_none.mp hnode)

/-- **One round**, in any state of the loop. -/
theorem round (t : Traversal D) : Round t t.invocation (evaluateIterativeStep t) := by
  cases hstack : t.stack with
  | nil =>
      have hnone : t.invocation = none := by simp [Traversal.invocation, hstack]
      rw [hnone]
      simp only [evaluateIterativeStep, hstack]
      exact .done hstack
  | cons current rest =>
      by_cases hvisited : t.visitState current = .visited
      · rw [invocation_of_not_visiting hstack (by simp [hvisited])]
        simp only [evaluateIterativeStep, hstack, hvisited, if_true]
        exact .skip hstack
      · cases hnode : t.graph.nodes.lookup current with
        | none => exact round_of_missing hstack hvisited hnode
        | some node =>
            cases hstate : t.visitState current with
            | unvisited => exact round_of_unvisited hstack hstate hnode
            | visiting => exact round_of_visiting hstack hstate hnode
            | visited => exact absurd hstate hvisited

theorem Round.of_step {result : Except Abort (Graph D) ⊕ Traversal D}
    (hstep : evaluateIterativeStep t = result) : Round t t.invocation result :=
  hstep ▸ round t

/-- Every further round decreases the measure: a node leaves the stack, or it is expanded, which the
budget allows once. -/
theorem Round.next_lt {invocation : Option (Invocation D)} (hround : Round t invocation (.inr next))
    (hshape : g.SameShape t.graph) :
    g.SameShape next.graph ∧ g.traversalMeasure next < g.traversalMeasure t := by
  cases hround with
  | skip hstack => exact ⟨hshape, by simp [traversalMeasure, hstack]⟩
  | @expand current rest pushed hstack hstate hmem hpushed =>
      have hlength := hpushed.length_le
      rw [List.length_reverse, hshape.dependencies_eq] at hlength
      exact ⟨hshape,
        traversalMeasure_expand_lt hstack (hshape.mem_iff.mp hmem) hstate hlength t.graph⟩
  | @leave current rest _ graph hstack hstate hmem hlog hgraph =>
      exact ⟨hshape.trans hgraph,
        traversalMeasure_finish_lt hstack (hshape.mem_iff.mp hmem) hstate graph⟩

end Round

/-- **Termination.**  The loop settles within the bound that `evaluateIterative` has. -/
theorem loop_settles (g : Graph D) (id : NodeId) :
    Fuel.Settles g.traversalBound
      (fun fuel => FuelLoop.run evaluateIterativeStep fuel ⟨[id], fun _ => .unvisited, g⟩)
      (· ≠ none) := by
  have hstart : g.SameShape (⟨[id], fun _ => .unvisited, g⟩ : Traversal D).graph := .refl _ _
  have hsettles := FuelLoop.run_settles (fun t => g.SameShape t.graph) g.traversalMeasure
    (fun t next hshape hstep => (Round.of_step hstep).next_lt hshape) hstart
  exact hsettles.mono (traversalMeasure_start_lt g id)

/-! ### The formulas that run -/

/-- The loop invariant: every formula of the log belongs to a node that has been visited. -/
structure Walk (g : Graph D) (log : List (Invocation D)) (t : Traversal D) : Prop where
  shape : g.SameShape t.graph
  visited : ∀ invocation ∈ log, t.visitState invocation.id = .visited
  once : (log.map Invocation.id).Nodup

theorem Walk.start (g : Graph D) (id : NodeId) : g.Walk [] ⟨[id], fun _ => .unvisited, g⟩ where
  shape := .refl _ _
  visited := by simp
  once := List.nodup_nil

section Walk

variable {t next : Traversal D} {log : List (Invocation D)} {invocation : Option (Invocation D)}

/-- A node that has not been visited is not in the log. -/
theorem Walk.once_append (h : g.Walk log t)
    (hlog : ∀ i ∈ invocation, t.visitState i.id ≠ .visited) :
    ((log ++ invocation.toList).map Invocation.id).Nodup := by
  cases invocation with
  | none =>
      rw [Option.toList_none, List.append_nil]
      exact h.once
  | some last =>
      rw [List.map_append]
      refine h.once.append (List.nodup_singleton last.id) fun n hn hn' => ?_
      obtain rfl := List.mem_singleton.mp hn'
      obtain ⟨earlier, hearlier, hid⟩ := List.mem_map.mp hn
      exact hlog last rfl (hid ▸ h.visited earlier hearlier)

/-- A round logs its formula. -/
theorem Walk.step (h : g.Walk log t) (hround : Round t invocation (.inr next)) :
    g.Walk (log ++ invocation.toList) next := by
  have hshape := (hround.next_lt h.shape).1
  cases hround with
  | skip hstack =>
      rw [Option.toList_none, List.append_nil]
      exact ⟨hshape, h.visited, h.once⟩
  | @expand current rest pushed hstack hstate hmem hpushed =>
      rw [Option.toList_none, List.append_nil]
      refine ⟨hshape, fun earlier hearlier => ?_, h.once⟩
      have hvisited := h.visited earlier hearlier
      -- The node that is expanded has not been visited.
      have hne : earlier.id ≠ current := by
        intro heq
        rw [heq, hstate] at hvisited
        cases hvisited
      show Function.update t.visitState current .visiting earlier.id = .visited
      rw [Function.update_of_ne hne, hvisited]
  | @leave current rest _ graph hstack hstate hmem hlog hgraph =>
      refine ⟨hshape, fun i hi => ?_, h.once_append fun i hi => hlog i hi ▸ hstate⟩
      show Function.update t.visitState current .visited i.id = .visited
      rw [update_eq_visited_iff]
      rcases List.mem_append.mp hi with hi | hi
      · exact Or.inr (h.visited i hi)
      · exact Or.inl (hlog i (Option.mem_toList.mp hi))

theorem Walk.exit (h : g.Walk log t) {result : Except Abort (Graph D)}
    (hround : Round t invocation (.inl result)) :
    ((log ++ invocation.toList).map Invocation.id).Nodup := by
  apply h.once_append
  intro i hi
  cases hround with
  | done hstack => cases hi
  | missing hstack hmissing => cases hi
  | throw hstate hrun =>
      obtain rfl := Option.mem_some.mp hi
      exact hstate

/-- If all edges point to existing nodes, then only existing nodes go on the stack. -/
theorem Round.stack_mem (hround : Round t invocation (.inr next)) (hshape : g.SameShape t.graph)
    (hedges : g.EdgesExist) (hmem : ∀ n ∈ t.stack, n ∈ g.nodes) :
    ∀ n ∈ next.stack, n ∈ g.nodes := by
  intro n hn
  cases hround with
  | skip hstack => exact hmem n (hstack ▸ List.mem_cons_of_mem _ hn)
  | leave hstack => exact hmem n (hstack ▸ List.mem_cons_of_mem _ hn)
  | @expand current rest pushed hstack hstate hcurrent hpushed =>
      rcases List.mem_append.mp hn with hn | hn
      · have hdependency := List.mem_reverse.mp (hpushed.subset hn)
        rw [hshape.dependencies_eq] at hdependency
        exact hedges current n hdependency
      · exact hmem n (hstack ▸ hn)

/-- Then the loop aborts in a formula only. -/
theorem Round.throws {reason : Abort} (hround : Round t invocation (.inl (.error reason)))
    (hshape : g.SameShape t.graph) (hmem : ∀ n ∈ t.stack, n ∈ g.nodes) :
    ∃ i ∈ invocation, i.run = .error reason := by
  cases hround with
  | missing hstack hmissing =>
      exact absurd (hshape.mem_iff.mpr (hmem _ (hstack ▸ List.mem_cons_self))) hmissing
  | throw hstate hrun => exact ⟨_, rfl, hrun⟩

end Walk

/-- The log of an evaluation: no node twice and, if the edges point to existing nodes, the formula
that made it abort. -/
theorem iterativeInvocations_spec (g : Graph D) (id : NodeId) :
    ((iterativeInvocations g id).map Invocation.id).Nodup ∧
      (g.EdgesExist → id ∈ g.nodes → ∀ reason, evaluateIterative g id = .error reason →
        ∃ invocation ∈ iterativeInvocations g id, invocation.run = .error reason) := by
  cases hnode : g.nodes.lookup id with
  | none =>
      have hlog : iterativeInvocations g id = [] := by
        simp [iterativeInvocations, Graph.node, hnode]
      rw [hlog]
      exact ⟨List.nodup_nil, fun _ hid => absurd hid (Finmap.lookup_eq_none.mp hnode)⟩
  | some node =>
      cases hdirty : node.dirty with
      | false =>
          obtain ⟨hlog, hresult⟩ := iterativeInvocations_of_clean hnode hdirty
          rw [hlog, hresult]
          exact ⟨List.nodup_nil, fun _ _ _ habort => by cases habort⟩
      | true =>
          obtain ⟨result, hrun⟩ :=
            Option.ne_none_iff_exists'.mp ((loop_settles g id).post (Nat.le_refl _))
          refine iterativeInvocations_rule
            (fun log t => g.Walk log t ∧
              (g.EdgesExist → id ∈ g.nodes → ∀ n ∈ t.stack, n ∈ g.nodes))
            (fun log result => (log.map Invocation.id).Nodup ∧
              (g.EdgesExist → id ∈ g.nodes → ∀ reason, result = .error reason →
                ∃ invocation ∈ log, invocation.run = .error reason))
            ?_ ?_ hnode hdirty ⟨.start g id, fun _ hid n hn => List.mem_singleton.mp hn ▸ hid⟩ hrun
          · rintro log t result ⟨hwalk, hmem⟩ hstep
            have hround := Round.of_step hstep
            refine ⟨hwalk.exit hround, fun hedges hid reason hresult => ?_⟩
            subst hresult
            obtain ⟨invocation, hlast, hthrows⟩ := hround.throws hwalk.shape (hmem hedges hid)
            exact ⟨invocation, List.mem_append_right _ (Option.mem_toList.mpr hlast), hthrows⟩
          · rintro log t next ⟨hwalk, hmem⟩ hstep
            have hround := Round.of_step hstep
            exact ⟨hwalk.step hround, fun hedges hid =>
              hround.stack_mem hwalk.shape hedges (hmem hedges hid)⟩

end Graph

/-- **The evaluation ends and runs each formula at most once**, on every graph and from every id: with
enough rounds the bound makes no difference to the loop, and no node runs twice.  If all dependency
edges point to existing nodes, then the evaluation of an existing node returns, unless a formula that
it runs throws. -/
theorem evaluateIterative_terminates (g : Graph D) (id : NodeId) :
    (∃ result, ∀ fuel, g.traversalBound ≤ fuel →
      FuelLoop.run evaluateIterativeStep fuel ⟨[id], fun _ => .unvisited, g⟩ = some result) ∧
    ((iterativeInvocations g id).map Invocation.id).Nodup ∧
    (g.EdgesExist → id ∈ g.nodes → ∀ reason, evaluateIterative g id = .error reason →
      ∃ invocation ∈ iterativeInvocations g id, invocation.run = .error reason) := by
  obtain ⟨result, hsome, hresult⟩ := loop_settles g id
  obtain ⟨result, rfl⟩ := Option.ne_none_iff_exists'.mp hsome
  exact ⟨⟨result, hresult⟩, iterativeInvocations_spec g id⟩

section Instances

private def headId : NodeId := "a".toList
private def tailId : NodeId := "b".toList

private def formulaOver (id : NodeId) : Node NanRat :=
  { formula := some (.expression (.ref id ⟨0, 0⟩)), type := .formula, dirty := true }

/-- Two dirty formula nodes that depend on each other. -/
private def cyclicGraph : Graph NanRat where
  nodes := ((∅ : UnorderedMap (Node NanRat)).insert headId (formulaOver tailId)).insert tailId
    (formulaOver headId)
  dependenciesMap :=
    ((∅ : UnorderedMap (List NodeId)).insert headId [tailId]).insert tailId [headId]
  dependentsMap :=
    ((∅ : UnorderedMap (List NodeId)).insert headId [tailId]).insert tailId [headId]

private theorem cyclicGraph_mem : headId ∈ cyclicGraph.nodes ∧ tailId ∈ cyclicGraph.nodes := by
  decide +kernel

private theorem cyclicGraph_edgesExist : cyclicGraph.EdgesExist := by
  intro n d hd
  have hentry : cyclicGraph.dependencies n =
      if n = tailId then [headId] else if n = headId then [tailId] else [] := by
    simp only [dependencies, entry, cyclicGraph]
    by_cases htail : n = tailId
    · rw [if_pos htail, htail, Finmap.lookup_insert]
      rfl
    · rw [if_neg htail, Finmap.lookup_insert_of_ne _ htail]
      by_cases hhead : n = headId
      · rw [if_pos hhead, hhead, Finmap.lookup_insert]
        rfl
      · rw [if_neg hhead, Finmap.lookup_insert_of_ne _ hhead]
        rfl
  rw [hentry] at hd
  split at hd
  · exact List.mem_singleton.mp hd ▸ cyclicGraph_mem.1
  · split at hd
    · exact List.mem_singleton.mp hd ▸ cyclicGraph_mem.2
    · cases hd

/-- The evaluation of a cycle comes back to the node that it started from, runs it first, and
returns. -/
theorem cycle_is_left :
    cyclicGraph.EdgesExist ∧
      (iterativeInvocations cyclicGraph headId).map Invocation.id = [headId, tailId] ∧
      ∃ g, evaluateIterative cyclicGraph headId = .ok g := by
  have hlog : NoneAborts (iterativeInvocations cyclicGraph headId) :=
    noneAborts_of_isOk (by decide +kernel)
  refine ⟨cyclicGraph_edgesExist, by decide +kernel, ?_⟩
  cases hresult : evaluateIterative cyclicGraph headId with
  | ok g => exact ⟨g, rfl⟩
  | error reason =>
      obtain ⟨invocation, hinvocation, hrun⟩ :=
        (evaluateIterative_terminates cyclicGraph headId).2.2 cyclicGraph_edgesExist
          cyclicGraph_mem.1 reason hresult
      exact absurd hrun (hlog.run_ne_error hinvocation reason)

end Instances

end StatForge.StatKernel
