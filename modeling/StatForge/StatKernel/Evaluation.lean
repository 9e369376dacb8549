import StatForge.StatKernel.Marking

/-!
# Bringing nodes up to date

What an evaluation of some target nodes does to a sound, up-to-date graph, whichever algorithm is
used.

* `Evaluated` — a successful evaluation: the targets are clean, dirty nodes below them have been
  refreshed, everything else is as before.
* `AbortsAt` — an aborting one: below a target is a node whose recomputation reaches `unreachable()`.
* `EvaluationResult.unique` — there is exactly one result with one of the two properties.
* `evaluateRecursive_spec` — the recursive evaluation has one of them.
-/

namespace StatForge.StatKernel

open Relation Successors ExceptBind

variable {D : Type} [Double D]

/-- The change of a node record that running its formula makes. -/
def Refreshes (node node' : Node D) : Prop :=
  node.dirty = true ∧ ∃ value, node' = { node with value := value, dirty := false }

namespace Graph

variable {g g' g'' : Graph D} {id n d : NodeId} {node : Node D} {targets targets' : List NodeId}

/-! ### Graphs that differ in refreshed nodes -/

section Refreshes

variable (h : Updates Refreshes g g')

include h

theorem refreshes_sound (hsound : g.Sound) : g'.Sound := by
  apply h.sound hsound
  rintro id node _ htyped ⟨-, value, rfl⟩
  exact htyped.update fun _ => rfl

/-- A node that was clean has kept its record. -/
theorem refreshes_lookup_of_clean (hclean : g.isDirty n = false) :
    g'.nodes.lookup n = g.nodes.lookup n := by
  rcases h.node n with hsame | ⟨node, _, hnode, ⟨hdirty, -⟩, -⟩
  · exact hsame
  · rw [isDirty_of_lookup hnode, hdirty] at hclean
    cases hclean

theorem refreshes_clean (hclean : g.isDirty n = false) : g'.isDirty n = false := by
  rw [isDirty, refreshes_lookup_of_clean h hclean]
  exact hclean

/-- No evaluation makes a node dirty. -/
theorem refreshes_isDirty (hdirty : g'.isDirty n = true) : g.isDirty n = true := by
  by_contra hclean
  rw [refreshes_clean h (by simpa using hclean)] at hdirty
  cases hdirty

theorem refreshes_definition (hsound : g.Sound) : g'.definition = g.definition := by
  funext n
  rcases h.node n with hsame | ⟨node, _, hnode, ⟨hdirty, value, rfl⟩, hnode'⟩
  · simp only [definition, hsame, h.dependencies_eq]
  · have htype := (hsound.typed n node hnode).type_ne_value_of_dirty hdirty
    simp only [definition, hnode, hnode', h.dependencies_eq]
    cases hcase : node.type with
    | value => exact absurd hcase htype
    | formula =>
        cases node.formula with
        | none => rfl
        | some formula => cases formula <;> rfl
    | collection => rfl

end Refreshes

theorem refreshes_trans (h : Updates Refreshes g g') (h' : Updates Refreshes g' g'') :
    Updates Refreshes g g'' := by
  apply h.trans h'
  rintro a _ c ⟨-, value, rfl⟩ ⟨hdirty, -⟩
  cases hdirty

/-! ### Results of an evaluation -/

/-- A successful evaluation of the targets. -/
structure Evaluated (g : Graph D) (targets : List NodeId) (g' : Graph D) : Prop where
  upToDate : g'.UpToDate
  updates : Updates Refreshes g g'
  clean : ∀ id ∈ targets, g'.isDirty id = false
  frame : ∀ n, (∀ id ∈ targets, ¬ ReflTransGen g.DependsOn id n) →
    g'.nodes.lookup n = g.nodes.lookup n

/-- Recomputing the node reaches `unreachable()`, with any sufficient fuel. -/
def Unreachable (g : Graph D) (n : NodeId) : Prop :=
  ∀ fuel, g.nodes.keys.card ≤ fuel → recompute g.definition fuel n = .error .unreachable

/-- An evaluation that aborts: a node below a target cannot be computed. -/
def AbortsAt (g : Graph D) (targets : List NodeId) (reason : Abort) : Prop :=
  reason = .unreachable ∧ ∃ id ∈ targets, ∃ n, ReflTransGen g.DependsOn id n ∧ g.Unreachable n

def EvaluationResult (g : Graph D) (targets : List NodeId) : Except Abort (Graph D) → Prop
  | .ok g' => g.Evaluated targets g'
  | .error reason => g.AbortsAt targets reason

theorem Evaluated.sound (h : g.Evaluated targets g') (hsound : g.Sound) : g'.Sound :=
  refreshes_sound h.updates hsound

theorem Evaluated.refl (hcurrent : g.UpToDate) (hclean : ∀ id ∈ targets, g.isDirty id = false) :
    g.Evaluated targets g :=
  ⟨hcurrent, .refl _ _, hclean, fun _ _ => rfl⟩

theorem Evaluated.trans (h : g.Evaluated targets g') (h' : g'.Evaluated targets' g'') :
    g.Evaluated (targets ++ targets') g'' where
  upToDate := h'.upToDate
  updates := refreshes_trans h.updates h'.updates
  clean id hid := by
    rcases List.mem_append.mp hid with hid | hid
    · exact refreshes_clean h'.updates (h.clean id hid)
    · exact h'.clean id hid
  frame n hn := by
    rw [h'.frame n fun id hid => by
        rw [h.updates.dependsOn_eq]
        exact hn id (List.mem_append_right _ hid),
      h.frame n fun id hid => hn id (List.mem_append_left _ hid)]

theorem unreachable_iff_of_updates (h : Updates Refreshes g g') (hsound : g.Sound) :
    g'.Unreachable n ↔ g.Unreachable n := by
  unfold Unreachable
  rw [h.keys_eq, refreshes_definition h hsound]

/-- A result after some targets have been evaluated is a result for all of them. -/
theorem Evaluated.extend (hsound : g.Sound) (h : g.Evaluated targets g')
    {result : Except Abort (Graph D)} (hresult : g'.EvaluationResult targets' result) :
    g.EvaluationResult (targets ++ targets') result := by
  cases result with
  | ok g'' => exact h.trans hresult
  | error reason =>
      obtain ⟨rfl, id, hid, n, hpath, hn⟩ := hresult
      rw [h.updates.dependsOn_eq] at hpath
      exact ⟨rfl, id, List.mem_append_right _ hid, n, hpath,
        (unreachable_iff_of_updates h.updates hsound).mp hn⟩

/-- The stored values after an evaluation are the recomputed values of the definitions before it. -/
theorem Evaluated.recompute_eq (hsound : g.Sound) (h : g.Evaluated targets g')
    (hnode : g'.nodes.lookup n = some node) (hclean : g'.isDirty n = false) {fuel : Nat}
    (hfuel : g.nodes.keys.card ≤ fuel) : recompute g.definition fuel n = .ok node.value := by
  have hsound' := h.sound hsound
  have hrank := hsound'.rank_lt_card (Finmap.mem_of_lookup_eq_some hnode)
  rw [h.updates.keys_eq] at hrank
  rw [← refreshes_definition h.updates hsound]
  apply recompute_of_clean hsound' h.upToDate hnode hclean
  rw [h.updates.keys_eq]
  omega

/-- After an evaluation everything below a target is clean. -/
theorem Evaluated.clean_of_reached (h : g.Evaluated targets g') (hid : id ∈ targets)
    (hpath : ReflTransGen g.DependsOn id n) : g'.isDirty n = false :=
  h.upToDate.clean_of_reached (h.clean id hid) (h.updates.dependsOn_eq ▸ hpath)

/-- Two successful evaluations of the same targets end in the same graph. -/
theorem Evaluated.unique (hsound : g.Sound) (h : g.Evaluated targets g')
    (h' : g.Evaluated targets g'') : g' = g'' := by
  have hnodes : g'.nodes = g''.nodes := by
    apply Finmap.ext_lookup
    intro n
    by_cases hreached : ∃ id ∈ targets, ReflTransGen g.DependsOn id n
    · obtain ⟨id, hid, hpath⟩ := hreached
      have hclean := h.clean_of_reached hid hpath
      have hclean' := h'.clean_of_reached hid hpath
      -- Either the node was clean and both evaluations kept it, or both refreshed it.
      rcases h.updates.node n with hsame | ⟨node, _, hnode, ⟨hdirty, value, rfl⟩, hrefreshed⟩
      · have hbefore : g.isDirty n = false := by rw [isDirty, ← hsame]; exact hclean
        rw [hsame, refreshes_lookup_of_clean h'.updates hbefore]
      · rcases h'.updates.node n with hsame' | ⟨node', _, hnode', ⟨-, value', rfl⟩, hrefreshed'⟩
        · rw [isDirty, hsame', ← isDirty, isDirty_of_lookup hnode, hdirty] at hclean'
          cases hclean'
        · -- Both values are the recomputed one.
          obtain rfl := Option.some.inj (hnode.symm.trans hnode')
          have hvalue : value = value' :=
            Except.ok.inj ((h.recompute_eq hsound hrefreshed hclean le_rfl).symm.trans
              (h'.recompute_eq hsound hrefreshed' hclean' le_rfl))
          rw [hrefreshed, hrefreshed', hvalue]
    · push Not at hreached
      rw [h.frame n hreached, h'.frame n hreached]
  have hmaps := h.updates.dependenciesMap.trans h'.updates.dependenciesMap.symm
  have hmaps' := h.updates.dependentsMap.trans h'.updates.dependentsMap.symm
  cases g'
  cases g''
  simp_all

/-- An evaluation cannot both succeed and abort. -/
theorem Evaluated.not_abortsAt (hsound : g.Sound) (h : g.Evaluated targets g')
    (hexist : ∀ id ∈ targets, id ∈ g.nodes) (reason : Abort) : ¬ g.AbortsAt targets reason := by
  rintro ⟨-, id, hid, n, hpath, hn⟩
  have hmem : n ∈ g'.nodes := h.updates.mem_iff.mpr (hsound.linked.reached_mem (hexist id hid) hpath)
  obtain ⟨node, hnode⟩ := Finmap.mem_iff.mp hmem
  have hvalue := h.recompute_eq hsound hnode (h.clean_of_reached hid hpath) le_rfl
  rw [hn _ le_rfl] at hvalue
  cases hvalue

/-- **Evaluation is determined.**  The targets and the graph determine the result. -/
theorem EvaluationResult.unique (hsound : g.Sound) (hexist : ∀ id ∈ targets, id ∈ g.nodes)
    {result result' : Except Abort (Graph D)} (h : g.EvaluationResult targets result)
    (h' : g.EvaluationResult targets result') : result = result' := by
  cases result with
  | ok g' =>
      cases result' with
      | ok g'' => rw [Evaluated.unique hsound h h']
      | error reason => exact absurd h' (Evaluated.not_abortsAt hsound h hexist reason)
  | error reason =>
      cases result' with
      | ok g'' => exact absurd h (Evaluated.not_abortsAt hsound h' hexist reason)
      | error reason' => rw [h.1, h'.1]

/-! ### Running one formula -/

theorem valueOf_setNode_of_ne (g : Graph D) (node : Node D) (hne : n ≠ id) :
    (g.setNode id node).valueOf n = g.valueOf n := by
  simp only [valueOf, Graph.node, lookup_setNode, if_neg hne]

section Run

variable (hsound : g.Sound) (hcurrent : g.UpToDate) (hnode : g.nodes.lookup id = some node)
  (hclean : ∀ d ∈ g.dependencies id, g.isDirty d = false) {definition : Definition D}
  (hdefinition : g.definition id = some definition)

include hsound hcurrent hnode hclean hdefinition

/-- Storing the value of a dirty node's definition leaves the graph up to date. -/
theorem UpToDate.refresh (hdirty : node.dirty = true) {value : D}
    (hvalue : definition.eval g.valueOf = .ok value) :
    (g.setNode id { node with value := value, dirty := false }).UpToDate := by
  have hupdates : Updates Refreshes g (g.setNode id { node with value := value, dirty := false }) :=
    .setNode hnode ⟨hdirty, value, rfl⟩
  have hid : g.isDirty id = true := by rw [isDirty_of_lookup hnode, hdirty]
  have hflag : ∀ n, (g.setNode id { node with value := value, dirty := false }).isDirty n =
      if n = id then false else g.isDirty n := fun n => isDirty_setNode _ _ _ _
  constructor
  case dirtyUp =>
    intro n d hd hdirty'
    rw [dependencies_setNode] at hd
    rw [hflag] at hdirty' ⊢
    by_cases hd' : d = id
    · simp [hd'] at hdirty'
    · rw [if_neg hd'] at hdirty'
      by_cases hn : n = id
      · -- The refreshed node itself has clean dependencies only.
        rw [hn] at hd
        rw [hclean d hd] at hdirty'
        cases hdirty'
      · rw [if_neg hn]
        exact hcurrent.dirtyUp n d hd hdirty'
  case current =>
    intro n hclean' node' definition' hnode' hdefinition'
    rw [refreshes_definition hupdates hsound] at hdefinition'
    rw [lookup_setNode] at hnode'
    by_cases hn : n = id
    · subst hn
      rw [if_pos rfl] at hnode'
      obtain rfl := Option.some.inj hnode'
      obtain rfl := Option.some.inj (hdefinition.symm.trans hdefinition')
      rw [← hvalue]
      refine Definition.eval_congr fun d hd => valueOf_setNode_of_ne g _ ?_
      exact (hsound.acyclic.irrefl ((hsound.of_definition hdefinition).2 d hd)).symm
    · -- No clean node depends on the refreshed one, so it reads the values that it read before.
      rw [if_neg hn] at hnode'
      rw [hflag, if_neg hn] at hclean'
      rw [← hcurrent.current n hclean' node' definition' hnode' hdefinition']
      refine Definition.eval_congr fun d hd => valueOf_setNode_of_ne g _ ?_
      rintro rfl
      rw [hcurrent.dirtyUp n d ((hsound.of_definition hdefinition').2 d hd) hid] at hclean'
      cases hclean'

/-- Storing the value of a dirty node's definition evaluates the node. -/
theorem Evaluated.refresh (hdirty : node.dirty = true) {value : D}
    (hvalue : definition.eval g.valueOf = .ok value) :
    g.Evaluated [id] (g.setNode id { node with value := value, dirty := false }) where
  upToDate := .refresh hsound hcurrent hnode hclean hdefinition hdirty hvalue
  updates := .setNode hnode ⟨hdirty, value, rfl⟩
  clean n hn := by
    rw [List.mem_singleton.mp hn, isDirty_setNode, if_pos rfl]
  frame n hn := by
    rw [lookup_setNode, if_neg]
    rintro rfl
    exact hn n (List.mem_singleton.mpr rfl) .refl

/-- A definition without a value over the stored values has none by recomputation either. -/
theorem unreachable_of_eval {reason : Abort} (hvalue : definition.eval g.valueOf = .error reason) :
    reason = .unreachable ∧ g.Unreachable id := by
  obtain ⟨hvalid, hreads⟩ := hsound.of_definition hdefinition
  have hexist : ∀ d ∈ definition.reads, ∃ value, g.valueOf d = .ok value := by
    intro d hd
    obtain ⟨node', hnode'⟩ := Finmap.mem_iff.mp (hsound.linked.dependency_mem (hreads d hd))
    exact ⟨_, valueOf_of_lookup hnode'⟩
  obtain rfl := Definition.eval_error hvalid hexist hvalue
  refine ⟨rfl, fun fuel hfuel => ?_⟩
  have hrank := hsound.rank_lt_card (Finmap.mem_of_lookup_eq_some hnode)
  rw [recompute_of_clean_dependencies hsound hcurrent hclean hdefinition (by omega), hvalue]

end Run

/-- A node whose dependencies are clean has a formula, and running it either refreshes the node or
shows that its recomputation reaches `unreachable()`. -/
theorem run_formula (hsound : g.Sound) (hcurrent : g.UpToDate)
    (hnode : g.nodes.lookup id = some node) (hdirty : node.dirty = true)
    (hclean : ∀ d ∈ g.dependencies id, g.isDirty d = false) :
    ∃ formula, node.formula = some formula ∧
      ((∃ value, formula.invoke g = .ok value ∧
          g.Evaluated [id] (g.setNode id { node with value := value, dirty := false })) ∨
        formula.invoke g = .error .unreachable ∧ g.Unreachable id) := by
  have htyped := hsound.typed id node hnode
  obtain ⟨formula, hformula⟩ : ∃ formula, node.formula = some formula := by
    rw [← Option.ne_none_iff_exists', ne_eq, htyped.formula_eq_none_iff]
    exact htyped.type_ne_value_of_dirty hdirty
  obtain ⟨definition, hdefinition, -, -, hinvoke⟩ := hsound.definition_of_lookup hnode
  refine ⟨formula, hformula, ?_⟩
  rw [hinvoke formula hformula]
  cases hvalue : definition.eval g.valueOf with
  | ok value =>
      exact Or.inl ⟨value, rfl, .refresh hsound hcurrent hnode hclean hdefinition hdirty hvalue⟩
  | error reason =>
      obtain ⟨rfl, hunreachable⟩ :=
        unreachable_of_eval hsound hcurrent hnode hclean hdefinition hvalue
      exact Or.inr ⟨rfl, hunreachable⟩

/-! ### Evaluating one node after the other -/

/-- Evaluating a list of nodes in order, with any function that evaluates each of them. -/
theorem foldlM_evaluationResult (targets : List NodeId)
    (evaluate : Graph D → NodeId → Except Abort (Graph D)) (hsound : g.Sound) (hcurrent : g.UpToDate)
    (hevaluate : ∀ g', g'.Sound → g'.UpToDate → Updates Refreshes g g' → ∀ id ∈ targets,
      g'.EvaluationResult [id] (evaluate g' id)) :
    g.EvaluationResult targets (targets.foldlM evaluate g) := by
  induction targets generalizing g with
  | nil => exact Evaluated.refl hcurrent (by simp)
  | cons id targets ih =>
      have hfirst := hevaluate g hsound hcurrent (.refl _ _) id (by simp)
      rw [List.foldlM_cons]
      cases hrun : evaluate g id with
      | error reason =>
          rw [hrun] at hfirst
          -- The first abort ends the pass.
          obtain ⟨rfl, id', hid', hn⟩ := hfirst
          obtain rfl := List.mem_singleton.mp hid'
          exact ⟨rfl, id', by simp, hn⟩
      | ok g' =>
          rw [hrun] at hfirst
          rw [ok_bind]
          refine Evaluated.extend hsound hfirst (ih (hfirst.sound hsound) hfirst.upToDate ?_)
          intro g'' hsound' hcurrent' hupdates id' hid'
          exact hevaluate g'' hsound' hcurrent' (refreshes_trans hfirst.updates hupdates) id'
            (List.mem_cons_of_mem _ hid')

/-- Evaluating the dependencies of a node and then the node is an evaluation of the node. -/
theorem Evaluated.of_dependencies (h : g.Evaluated (g.dependencies id ++ [id]) g') :
    g.Evaluated [id] g' where
  upToDate := h.upToDate
  updates := h.updates
  clean n hn := h.clean n (List.mem_append_right _ hn)
  frame n hn := by
    apply h.frame n
    intro target htarget hpath
    rcases List.mem_append.mp htarget with hd | hself
    · exact hn id (by simp) (.head hd hpath)
    · exact hn target hself hpath

/-- A node is not below its own dependencies, so evaluating them leaves its record. -/
theorem Evaluated.own_record (h : g.Evaluated (g.dependencies id) g') (hsound : g.Sound) :
    g'.nodes.lookup id = g.nodes.lookup id := by
  apply h.frame id
  intro d hd hpath
  exact hsound.acyclic id (.head' hd hpath)

/-! ### The recursive evaluation -/

/-- **The recursive evaluation.**  With fuel above the rank of the node it ends, in one of the two
results of an evaluation. -/
theorem evaluateRecursive_spec (hsound : g.Sound) (hcurrent : g.UpToDate) (hid : id ∈ g.nodes)
    {fuel : Nat} (hfuel : rank g.nodes.keys g.DependsOn id < fuel) :
    g.EvaluationResult [id] (evaluateRecursive fuel g id) := by
  induction fuel generalizing g id with
  | zero => omega
  | succ fuel ih =>
      obtain ⟨node, hnode⟩ := Finmap.mem_iff.mp hid
      rw [evaluateRecursive, node_of_lookup hnode, ok_bind]
      cases hdirty : node.dirty with
      | false =>
          apply Evaluated.refl hcurrent
          intro n hn
          rw [List.mem_singleton.mp hn, isDirty_of_lookup hnode, hdirty]
      | true =>
          have hdependencies : g.EvaluationResult (g.dependencies id)
              ((g.dependencies id).foldlM (evaluateRecursive fuel) g) := by
            apply foldlM_evaluationResult _ _ hsound hcurrent
            intro g' hsound' hcurrent' hupdates d hd
            -- A dependency has a smaller rank, and evaluations keep ranks, so the fuel suffices.
            have hlt := hsound.rank_lt hd
            apply ih hsound' hcurrent' (hupdates.mem_iff.mpr (hsound.linked.dependency_mem hd))
            rw [hupdates.keys_eq, hupdates.dependsOn_eq]
            omega
          simp only [Bool.not_true, Bool.false_eq_true, if_false]
          cases hrun : (g.dependencies id).foldlM (evaluateRecursive fuel) g with
          | error reason =>
              rw [hrun] at hdependencies
              obtain ⟨rfl, d, hd, n, hpath, hn⟩ := hdependencies
              exact ⟨rfl, id, by simp, n, .head hd hpath, hn⟩
          | ok g' =>
              rw [hrun] at hdependencies
              have hdependencies : g.Evaluated (g.dependencies id) g' := hdependencies
              have hnode' := (hdependencies.own_record hsound).trans hnode
              have hsound' := hdependencies.sound hsound
              obtain ⟨formula, hformula, hresult⟩ :=
                run_formula hsound' hdependencies.upToDate hnode' hdirty fun d hd =>
                  hdependencies.clean d (hdependencies.updates.dependencies_eq id ▸ hd)
              have htype := (hsound.typed id node hnode).type_ne_value_of_dirty hdirty
              rw [ok_bind, node_of_lookup hnode', ok_bind, if_pos htype, hformula]
              dsimp only
              rcases hresult with ⟨value, hvalue, hevaluated⟩ | ⟨hvalue, hunreachable⟩
              · rw [hvalue, ok_bind]
                rw [hformula] at hevaluated
                exact (hdependencies.trans hevaluated).of_dependencies
              · rw [hvalue]
                exact ⟨rfl, id, by simp, id, .refl,
                  (unreachable_iff_of_updates hdependencies.updates hsound).mp hunreachable⟩

end Graph

end StatForge.StatKernel
