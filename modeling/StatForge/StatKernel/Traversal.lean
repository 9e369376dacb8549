import StatForge.StatKernel.Evaluation

/-!
# The iterative evaluation

The loop of `evaluateIterative` on a sound, up-to-date graph.  A node that is being visited stands in
the stack below dependencies only, so on its second encounter all of them have been visited.

* `Traversing` — the loop invariant; `Expanded` is its part about a node being visited.
* `evaluateIterative_spec` — the loop ends, in one of the two results of an evaluation.
* `evaluateIterative_eq_evaluateRecursive` — both algorithms have the same result.
-/

namespace StatForge.StatKernel

open Relation Successors ExceptBind

variable {D : Type} [Double D]

namespace Graph

variable {g : Graph D} {id n : NodeId}

/-- A node that has been expanded: above it on the stack are only nodes below it in the graph, among
them all dependencies that have not been visited. -/
def Expanded (g : Graph D) (stack : List NodeId) (visitState : NodeId → VisitState) (n : NodeId) :
    Prop :=
  ∃ above below, stack = above ++ n :: below ∧ (∀ m ∈ above, TransGen g.DependsOn n m) ∧
    ∀ d ∈ g.dependencies n, visitState d = .visited ∨ d ∈ above

section Expanded

variable {current : NodeId} {rest : List NodeId} {visitState visitState' : NodeId → VisitState}

/-- A visited node may leave the top of the stack. -/
theorem Expanded.pop (h : g.Expanded (current :: rest) visitState n) (hne : n ≠ current)
    (hvisited : visitState' current = .visited)
    (hmono : ∀ d, visitState d = .visited → visitState' d = .visited) :
    g.Expanded rest visitState' n := by
  obtain ⟨above, below, hstack, habove, hdependencies⟩ := h
  cases above with
  | nil => exact absurd (List.cons.inj hstack).1.symm hne
  | cons top above =>
      -- The top was above `n`; if `n` depends on it, the dependency has now been visited.
      obtain ⟨rfl, hrest⟩ := List.cons.inj hstack
      refine ⟨above, below, hrest, fun m hm => habove m (List.mem_cons_of_mem _ hm), fun d hd => ?_⟩
      rcases hdependencies d hd with hd | hd
      · exact Or.inl (hmono d hd)
      · rcases List.mem_cons.mp hd with rfl | hd
        · exact Or.inl hvisited
        · exact Or.inr hd

/-- Dependencies of the top of the stack may go on the stack. -/
theorem Expanded.push (h : g.Expanded (current :: rest) visitState n) (hne : n ≠ current)
    {pushed : List NodeId} (hpushed : ∀ m ∈ pushed, m ∈ g.dependencies current)
    (hmono : ∀ d, visitState d = .visited → visitState' d = .visited) :
    g.Expanded (pushed ++ current :: rest) visitState' n := by
  obtain ⟨above, below, hstack, habove, hdependencies⟩ := h
  cases above with
  | nil => exact absurd (List.cons.inj hstack).1.symm hne
  | cons top above =>
      obtain ⟨rfl, hrest⟩ := List.cons.inj hstack
      refine ⟨pushed ++ current :: above, below, by simp [hrest], fun m hm => ?_, fun d hd => ?_⟩
      · rcases List.mem_append.mp hm with hm | hm
        · exact (habove current (by simp)).tail (hpushed m hm)
        · exact habove m hm
      · exact (hdependencies d hd).imp (hmono d) (List.mem_append_right _)

/-- On the second encounter every dependency has been visited. -/
theorem Expanded.dependencies_visited (h : g.Expanded (n :: rest) visitState n)
    (hacyclic : Acyclic g.DependsOn) : ∀ d ∈ g.dependencies n, visitState d = .visited := by
  obtain ⟨above, below, hstack, habove, hdependencies⟩ := h
  cases above with
  | nil => exact fun d hd => (hdependencies d hd).resolve_right List.not_mem_nil
  | cons top above =>
      obtain ⟨rfl, -⟩ := List.cons.inj hstack
      -- A second occurrence above `n` would be a node below itself.
      exact absurd (habove n (by simp)) (hacyclic n)

end Expanded

/-- The loop invariant of `evaluateIterative`. -/
structure Traversing (g : Graph D) (id : NodeId) (t : Traversal D) : Prop where
  upToDate : t.graph.UpToDate
  updates : Updates Refreshes g t.graph
  stack : ∀ n ∈ t.stack, ReflTransGen g.DependsOn id n
  visited : ∀ n, t.visitState n = .visited → t.graph.isDirty n = false
  visiting : ∀ n, t.visitState n = .visiting →
    t.graph.isDirty n = true ∧ g.Expanded t.stack t.visitState n
  target : t.visitState id = .visited ∨ id ∈ t.stack
  frame : ∀ n, ¬ ReflTransGen g.DependsOn id n → t.graph.nodes.lookup n = g.nodes.lookup n

/-- The rounds that are left at most. -/
noncomputable def traversalMeasure (g : Graph D) (t : Traversal D) : Nat :=
  budget g.nodes.keys (fun n => t.visitState n ≠ .unvisited)
    (fun n => (g.dependencies n).length + 1) + t.stack.length

section Loop

variable {t : Traversal D} {current : NodeId} {rest : List NodeId} {node : Node D}

theorem Traversing.current_mem (h : g.Traversing id t) (hsound : g.Sound) (hid : id ∈ g.nodes)
    (hstack : t.stack = current :: rest) : current ∈ g.nodes :=
  hsound.linked.reached_mem hid (h.stack current (by simp [hstack]))

/-- A visited node leaves the stack. -/
theorem Traversing.skip (h : g.Traversing id t) (hstack : t.stack = current :: rest)
    (hcurrent : t.visitState current = .visited) : g.Traversing id { t with stack := rest } where
  upToDate := h.upToDate
  updates := h.updates
  stack n hn := h.stack n (by rw [hstack]; exact List.mem_cons_of_mem _ hn)
  visited := h.visited
  visiting n hn := by
    obtain ⟨hdirty, hexpanded⟩ := h.visiting n hn
    rw [hstack] at hexpanded
    refine ⟨hdirty, hexpanded.pop ?_ hcurrent fun _ hd => hd⟩
    rintro rfl
    rw [hcurrent] at hn
    cases hn
  target := by
    rcases h.target with hvisited | hmem
    · exact Or.inl hvisited
    · rw [hstack] at hmem
      rcases List.mem_cons.mp hmem with rfl | hmem
      · exact Or.inl hcurrent
      · exact Or.inr hmem
  frame := h.frame

theorem update_eq_visited_iff (visitState : NodeId → VisitState) (current n : NodeId) :
    Function.update visitState current .visited n = .visited ↔
      n = current ∨ visitState n = .visited := by
  by_cases hn : n = current
  · subst hn
    simp
  · simp [hn]

theorem update_eq_visiting {visitState : NodeId → VisitState}
    (h : Function.update visitState current .visited n = .visiting) :
    n ≠ current ∧ visitState n = .visiting := by
  by_cases hn : n = current
  · subst hn
    simp at h
  · rw [Function.update_of_ne hn] at h
    exact ⟨hn, h⟩

/-- The top of the stack leaves it visited, in a graph in which it is clean and which is otherwise
unchanged. -/
theorem Traversing.finish (h : g.Traversing id t) (hstack : t.stack = current :: rest)
    {g' : Graph D} (hupToDate : g'.UpToDate) (hupdates : Updates Refreshes t.graph g')
    (hclean : g'.isDirty current = false)
    (hframe : ∀ n, n ≠ current → g'.nodes.lookup n = t.graph.nodes.lookup n) :
    g.Traversing id ⟨rest, Function.update t.visitState current .visited, g'⟩ where
  upToDate := hupToDate
  updates := refreshes_trans h.updates hupdates
  stack n hn := h.stack n (by rw [hstack]; exact List.mem_cons_of_mem _ hn)
  visited n hn := by
    rcases (update_eq_visited_iff _ _ _).mp hn with rfl | hn
    · exact hclean
    · exact refreshes_clean hupdates (h.visited n hn)
  visiting n hn := by
    obtain ⟨hne, hvisiting⟩ := update_eq_visiting hn
    obtain ⟨hdirty, hexpanded⟩ := h.visiting n hvisiting
    rw [hstack] at hexpanded
    refine ⟨?_, hexpanded.pop hne (Function.update_self _ _ _) fun d hd => ?_⟩
    · rw [isDirty, hframe n hne]
      exact hdirty
    · exact (update_eq_visited_iff _ _ _).mpr (Or.inr hd)
  target := by
    rw [update_eq_visited_iff]
    rcases h.target with hvisited | hmem
    · exact Or.inl (Or.inr hvisited)
    · rw [hstack] at hmem
      exact (List.mem_cons.mp hmem).imp_left Or.inl
  frame n hn := by
    rw [hframe n, h.frame n hn]
    rintro rfl
    exact hn (h.stack n (by simp [hstack]))

/-- A dirty node is expanded on its first encounter. -/
theorem Traversing.expand (h : g.Traversing id t) (hstack : t.stack = current :: rest)
    (hcurrent : t.visitState current = .unvisited) (hdirty : t.graph.isDirty current = true) :
    g.Traversing id { t with
      stack := ((t.graph.dependencies current).filter
        (Function.update t.visitState current .visiting · ≠ .visited)).reverse ++ t.stack
      visitState := Function.update t.visitState current .visiting } := by
  have hmono : ∀ d, t.visitState d = .visited →
      Function.update t.visitState current .visiting d = .visited := by
    intro d hd
    rw [Function.update_of_ne, hd]
    rintro rfl
    rw [hcurrent] at hd
    cases hd
  have hpushed : ∀ m, m ∈ ((t.graph.dependencies current).filter
      (Function.update t.visitState current .visiting · ≠ .visited)).reverse ↔
        m ∈ g.dependencies current ∧
          Function.update t.visitState current .visiting m ≠ .visited := by
    intro m
    rw [List.mem_reverse, List.mem_filter, h.updates.dependencies_eq]
    simp
  -- Only dependencies go on the stack, and each of them is on it or has been visited.
  have hreached : ReflTransGen g.DependsOn id current := h.stack current (by simp [hstack])
  refine ⟨h.upToDate, h.updates, fun n hn => ?_, fun n hn => ?_, fun n hn => ?_, ?_, h.frame⟩
  · rcases List.mem_append.mp hn with hn | hn
    · exact hreached.tail ((hpushed n).mp hn).1
    · exact h.stack n hn
  · apply h.visited n
    dsimp only at hn
    by_cases hne : n = current
    · subst hne
      simp at hn
    · rwa [Function.update_of_ne hne] at hn
  · by_cases hne : n = current
    · subst hne
      refine ⟨hdirty, _, rest, by rw [hstack], fun m hm => .single ((hpushed m).mp hm).1,
        fun d hd => ?_⟩
      rw [hpushed, or_iff_not_imp_left]
      exact fun hvisited => ⟨hd, hvisited⟩
    · dsimp only at hn ⊢
      rw [Function.update_of_ne hne] at hn
      obtain ⟨hdirty', hexpanded⟩ := h.visiting n hn
      rw [hstack] at hexpanded ⊢
      exact ⟨hdirty', hexpanded.push hne (fun m hm => ((hpushed m).mp hm).1) hmono⟩
  · rcases h.target with hvisited | hmem
    · exact Or.inl (hmono id hvisited)
    · exact Or.inr (List.mem_append_right _ hmem)

/-- Marking an unvisited node takes its cost off the budget. -/
theorem budget_update (hmem : current ∈ g.nodes) (visitState : NodeId → VisitState)
    (hcurrent : visitState current = .unvisited) (state : VisitState) (hstate : state ≠ .unvisited) :
    budget g.nodes.keys (fun n => Function.update visitState current state n ≠ .unvisited)
        (fun n => (g.dependencies n).length + 1) + ((g.dependencies current).length + 1) =
      budget g.nodes.keys (fun n => visitState n ≠ .unvisited)
        (fun n => (g.dependencies n).length + 1) := by
  refine budget_visit _ _ _ _ (fun n => ?_) (by simp [hcurrent])
    fun hkey => absurd (Finmap.mem_keys.mpr hmem) hkey
  by_cases hn : n = current
  · subst hn
    simp [hstate]
  · simp [hn]

/-- The node has already been expanded, so no cost comes off the budget. -/
theorem budget_update_visiting (visitState : NodeId → VisitState)
    (hcurrent : visitState current = .visiting) :
    budget g.nodes.keys (fun n => Function.update visitState current .visited n ≠ .unvisited)
        (fun n => (g.dependencies n).length + 1) =
      budget g.nodes.keys (fun n => visitState n ≠ .unvisited)
        (fun n => (g.dependencies n).length + 1) := by
  have hsame : ∀ n, Function.update visitState current .visited n ≠ .unvisited ↔
      visitState n ≠ .unvisited := by
    intro n
    by_cases hn : n = current
    · subst hn
      simp [hcurrent]
    · rw [Function.update_of_ne hn]
  simp only [hsame]

/-- A node that leaves the stack visited decreases the measure, whether it was expanded or not. -/
theorem traversalMeasure_finish_lt (hstack : t.stack = current :: rest) (hmem : current ∈ g.nodes)
    (hstate : t.visitState current ≠ .visited) (g' : Graph D) :
    g.traversalMeasure ⟨rest, Function.update t.visitState current .visited, g'⟩ <
      g.traversalMeasure t := by
  simp only [traversalMeasure, hstack, List.length_cons]
  cases hcase : t.visitState current with
  | visited => exact absurd hcase hstate
  | visiting =>
      rw [budget_update_visiting t.visitState hcase]
      omega
  | unvisited =>
      have hbudget := budget_update hmem t.visitState hcase .visited (by simp)
      omega

/-- At most all dependencies go on the stack, which the budget has reserved for them. -/
theorem traversalMeasure_expand_lt (hstack : t.stack = current :: rest) (hmem : current ∈ g.nodes)
    (hstate : t.visitState current = .unvisited) {pushed : List NodeId}
    (hpushed : pushed.length ≤ (g.dependencies current).length) (g' : Graph D) :
    g.traversalMeasure ⟨pushed ++ current :: rest,
      Function.update t.visitState current .visiting, g'⟩ < g.traversalMeasure t := by
  have hbudget := budget_update hmem t.visitState hstate .visiting (by simp)
  simp only [traversalMeasure, hstack, List.length_append, List.length_cons]
  omega

/-- The first encounter: a clean node is done, a dirty one is expanded. -/
theorem Traversing.step_unvisited (h : g.Traversing id t) (hstack : t.stack = current :: rest)
    (hmem : current ∈ g.nodes) (hstate : t.visitState current = .unvisited) :
    ∃ next, evaluateIterativeStep t = .inr next ∧ g.Traversing id next ∧
      g.traversalMeasure next < g.traversalMeasure t := by
  obtain ⟨node, hnode⟩ := Finmap.mem_iff.mp (h.updates.mem_iff.mpr hmem)
  simp only [evaluateIterativeStep, hstack, hstate, node_of_lookup hnode]
  rw [if_neg (by simp), if_pos trivial]
  cases hdirty : node.dirty with
  | false =>
      have hclean : t.graph.isDirty current = false := by rw [isDirty_of_lookup hnode, hdirty]
      exact ⟨_, if_pos rfl, h.finish hstack h.upToDate (.refl _ _) hclean fun _ _ => rfl,
        traversalMeasure_finish_lt hstack hmem (by simp [hstate]) t.graph⟩
  | true =>
      have hlength := List.length_filter_le
        (Function.update t.visitState current .visiting · ≠ .visited)
        (t.graph.dependencies current)
      rw [← List.length_reverse] at hlength
      have hexpand := h.expand hstack hstate (by rw [isDirty_of_lookup hnode, hdirty])
      rw [hstack] at hexpand
      refine ⟨_, if_neg (by simp), hexpand, traversalMeasure_expand_lt hstack hmem hstate ?_ t.graph⟩
      exact hlength.trans_eq (congrArg List.length (h.updates.dependencies_eq current))

/-- The round of a second encounter: the formula runs, and its value is stored. -/
theorem evaluateIterativeStep_of_visiting (hstack : t.stack = current :: rest)
    (hstate : t.visitState current = .visiting) (hnode : t.graph.nodes.lookup current = some node)
    {formula : NodeFormula D} (hformula : node.formula = some formula) :
    evaluateIterativeStep t =
      match formula.invoke t.graph with
      | .error reason => .inl (.error reason)
      | .ok value => .inr ⟨rest, Function.update t.visitState current .visited,
          t.graph.setNode current { node with value := value, dirty := false }⟩ := by
  simp only [evaluateIterativeStep, hstack, hstate, node_of_lookup hnode]
  rw [if_neg (by simp), if_neg (by simp)]
  cases hvalue : formula.invoke t.graph <;> simp only [hformula, hvalue]

/-- On the second encounter the node is dirty and all its dependencies are clean. -/
theorem Traversing.ready (h : g.Traversing id t) (hsound : g.Sound)
    (hstack : t.stack = current :: rest) (hmem : current ∈ g.nodes)
    (hstate : t.visitState current = .visiting) :
    ∃ node, t.graph.nodes.lookup current = some node ∧ node.dirty = true ∧
      ∀ d ∈ t.graph.dependencies current, t.graph.isDirty d = false := by
  obtain ⟨node, hnode⟩ := Finmap.mem_iff.mp (h.updates.mem_iff.mpr hmem)
  obtain ⟨hdirty, hexpanded⟩ := h.visiting current hstate
  rw [isDirty_of_lookup hnode] at hdirty
  rw [hstack] at hexpanded
  refine ⟨node, hnode, hdirty, fun d hd => ?_⟩
  rw [h.updates.dependencies_eq] at hd
  exact h.visited d (hexpanded.dependencies_visited hsound.acyclic d hd)

/-- The second encounter: the dependencies are clean, and the formula runs. -/
theorem Traversing.step_visiting (h : g.Traversing id t) (hsound : g.Sound)
    (hstack : t.stack = current :: rest) (hmem : current ∈ g.nodes)
    (hstate : t.visitState current = .visiting) :
    (∃ next, evaluateIterativeStep t = .inr next ∧ g.Traversing id next ∧
      g.traversalMeasure next < g.traversalMeasure t) ∨
    (evaluateIterativeStep t = .inl (.error .unreachable) ∧ g.Unreachable current) := by
  obtain ⟨node, hnode, hdirty, hclean⟩ := h.ready hsound hstack hmem hstate
  obtain ⟨formula, hformula, hresult⟩ :=
    run_formula (refreshes_sound h.updates hsound) h.upToDate hnode hdirty hclean
  rw [evaluateIterativeStep_of_visiting hstack hstate hnode hformula]
  rcases hresult with ⟨value, hvalue, hevaluated⟩ | ⟨hvalue, hunreachable⟩
  · rw [hvalue]
    refine Or.inl ⟨_, rfl,
      h.finish hstack hevaluated.upToDate hevaluated.updates (hevaluated.clean current (by simp))
        fun n hn => by rw [lookup_setNode, if_neg hn],
      traversalMeasure_finish_lt hstack hmem (by simp [hstate]) _⟩
  · rw [hvalue]
    exact Or.inr ⟨rfl, (unreachable_iff_of_updates h.updates hsound).mp hunreachable⟩

/-- What one round does on a stack that is not empty. -/
theorem Traversing.step (h : g.Traversing id t) (hsound : g.Sound) (hid : id ∈ g.nodes)
    (hstack : t.stack = current :: rest) :
    (∃ next, evaluateIterativeStep t = .inr next ∧ g.Traversing id next ∧
      g.traversalMeasure next < g.traversalMeasure t) ∨
    (evaluateIterativeStep t = .inl (.error .unreachable) ∧ g.Unreachable current) := by
  have hmem := h.current_mem hsound hid hstack
  cases hstate : t.visitState current with
  | visited =>
      refine Or.inl ⟨_, ?_, h.skip hstack hstate, by simp [traversalMeasure, hstack]⟩
      simp only [evaluateIterativeStep, hstack, hstate, if_true]
  | unvisited => exact Or.inl (h.step_unvisited hstack hmem hstate)
  | visiting => exact h.step_visiting hsound hstack hmem hstate

/-- Every further round keeps the invariant and decreases the measure. -/
theorem Traversing.next (h : g.Traversing id t) (hsound : g.Sound) (hid : id ∈ g.nodes)
    {next : Traversal D} (hstep : evaluateIterativeStep t = .inr next) :
    g.Traversing id next ∧ g.traversalMeasure next < g.traversalMeasure t := by
  cases hstack : t.stack with
  | nil => simp [evaluateIterativeStep, hstack] at hstep
  | cons current rest =>
      rcases h.step hsound hid hstack with ⟨next', hnext, hinv, hlt⟩ | ⟨habort, -⟩
      · obtain rfl := Sum.inr.inj (hnext.symm.trans hstep)
        exact ⟨hinv, hlt⟩
      · rw [habort] at hstep
        cases hstep

/-- The loop leaves on an empty stack, or when a formula reaches `unreachable()`. -/
theorem Traversing.exit (h : g.Traversing id t) (hsound : g.Sound) (hid : id ∈ g.nodes)
    {result : Except Abort (Graph D)} (hstep : evaluateIterativeStep t = .inl result) :
    g.EvaluationResult [id] result := by
  cases hstack : t.stack with
  | nil =>
      simp only [evaluateIterativeStep, hstack] at hstep
      obtain rfl := Sum.inl.inj hstep
      refine ⟨h.upToDate, h.updates, fun n hn => ?_, fun n hn => h.frame n (hn id (by simp))⟩
      rw [List.mem_singleton.mp hn]
      exact h.visited id (h.target.resolve_right (by simp [hstack]))
  | cons current rest =>
      rcases h.step hsound hid hstack with ⟨next, hnext, -⟩ | ⟨habort, hunreachable⟩
      · rw [hnext] at hstep
        cases hstep
      · obtain rfl := Sum.inl.inj (habort.symm.trans hstep)
        exact ⟨rfl, id, by simp, current, h.stack current (by simp [hstack]), hunreachable⟩

end Loop

theorem Traversing.start (hcurrent : g.UpToDate) :
    g.Traversing id ⟨[id], fun _ => .unvisited, g⟩ where
  upToDate := hcurrent
  updates := .refl _ _
  stack n hn := by rw [List.mem_singleton.mp hn]
  visited := by simp
  visiting := by simp
  target := by simp
  frame _ _ := rfl

/-- The bound of `evaluateIterative` exceeds the measure of the start. -/
theorem traversalMeasure_start_lt (g : Graph D) (id : NodeId) :
    g.traversalMeasure ⟨[id], fun _ => .unvisited, g⟩ < g.traversalBound := by
  have hbudget := budget_le g.nodes.keys (fun _ => VisitState.unvisited ≠ VisitState.unvisited)
    fun n => (g.dependencies n).length + 1
  simp only [traversalMeasure, traversalBound, List.length_singleton]
  omega

/-- **The iterative evaluation.**  The loop ends, in one of the two results of an evaluation. -/
theorem evaluateIterative_spec (hsound : g.Sound) (hcurrent : g.UpToDate) (hid : id ∈ g.nodes) :
    g.EvaluationResult [id] (evaluateIterative g id) := by
  obtain ⟨node, hnode⟩ := Finmap.mem_iff.mp hid
  rw [evaluateIterative, node_of_lookup hnode, ok_bind]
  cases hdirty : node.dirty with
  | false =>
      apply Evaluated.refl hcurrent
      intro n hn
      rw [List.mem_singleton.mp hn, isDirty_of_lookup hnode, hdirty]
  | true =>
      obtain ⟨result, hrun, hresult⟩ : ∃ result, FuelLoop.run evaluateIterativeStep
          g.traversalBound ⟨[id], fun _ => .unvisited, g⟩ = some result ∧
            g.EvaluationResult [id] result :=
        FuelLoop.run_spec (g.Traversing id) _ g.traversalMeasure
          (fun _ _ h hstep => h.exit hsound hid hstep)
          (fun _ _ h hstep => h.next hsound hid hstep) (.start hcurrent)
          (traversalMeasure_start_lt g id)
      simp only [Bool.not_true, Bool.false_eq_true, if_false, hrun]
      exact hresult

/-- **Both evaluations agree**, on missing nodes too. -/
theorem evaluateIterative_eq_evaluateRecursive (hsound : g.Sound) (hcurrent : g.UpToDate)
    (id : NodeId) : evaluateIterative g id = evaluateRecursive (g.nodes.keys.card + 1) g id := by
  by_cases hid : id ∈ g.nodes
  · have hrank := hsound.rank_lt_card hid
    exact EvaluationResult.unique hsound (by simpa using hid)
      (evaluateIterative_spec hsound hcurrent hid)
      (evaluateRecursive_spec hsound hcurrent hid (by omega))
  · rw [← Finmap.lookup_eq_none] at hid
    simp [evaluateIterative, evaluateRecursive, Graph.node, hid]

end Graph

end StatForge.StatKernel
