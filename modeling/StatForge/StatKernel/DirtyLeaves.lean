import StatForge.StatKernel.ReachableStates

/-!
# The list of dirty leaves

What `evaluate()` finds in the list, and what it reaches from there.

* `dirtyLeaves_exist` — as long as no accepted removal hits a node that is in the list twice, every
  recorded leaf exists, and `evaluate()` never looks up a missing node.
* `evaluate_completes` — as long as no accepted rewiring or removal takes the last dependent from a
  dirty node that is not in the list, `evaluate()` leaves no node dirty.
* `dangling_leaf`, `dirty_after_evaluate` — runs without these conditions in which it goes wrong.
-/

namespace StatForge.StatKernel

open Relation Successors StatForge.StatKernel.Graph

variable {D : Type} [Double D]

/-! ### Every recorded leaf exists -/

def LeavesExist (kernel : StatKernel D) : Prop :=
  ∀ id ∈ kernel.executor.dirtyLeaves, id ∈ kernel.graph.nodes

/-- An accepted removal finds its node at most once among the dirty leaves. -/
def RemovesLeafOnce (kernel : StatKernel D) (op : Op D) : Prop :=
  ∀ id, op = .removeNode id → kernel.Succeeds op → kernel.executor.dirtyLeaves.count id ≤ 1

/-- One call keeps the recorded leaves existing. -/
theorem Transition.leavesExist {kernel next : StatKernel D} {op : Op D} {reply : Reply D}
    (h : kernel.LeavesExist) (hguard : kernel.RemovesLeafOnce op)
    (hstep : kernel.step op = .ok (reply, next)) (htransition : kernel.Transition op reply next) :
    next.LeavesExist := by
  cases htransition with
  | failed => exact h
  | notFound => exact h
  | createdValue => exact fun n hn => (mem_setNode _ _ _ _).mpr (Or.inr (h n hn))
  | created =>
      intro n hn
      rcases List.mem_append.mp hn with hn | hn
      · exact (mem_setNode _ _ _ _).mpr (Or.inr (h n hn))
      · exact (mem_setNode _ _ _ _).mpr (Or.inl (List.mem_singleton.mp hn))
  | sameValue => exact h
  | changedValue hnode _ _ _ hmarked =>
      intro n hn
      apply hmarked.updates.mem_iff.mpr
      exact (hmarked.leaf_cases hn).elim (fun hn => by simp [h n hn]) id
  | redefined _ _ _ _ hmarked =>
      intro n hn
      apply hmarked.updates.mem_iff.mpr
      exact (hmarked.leaf_cases hn).elim (fun hn => by simp [h n hn]) id
  | @removed id _ _ hid _ hremoved _ hmarked =>
      intro n hn
      apply hmarked.updates.mem_iff.mpr
      rcases hmarked.leaf_cases hn with hn | hn
      · rw [hremoved.nodes, Finmap.mem_erase]
        refine ⟨?_, h n (List.mem_of_mem_erase hn)⟩
        rintro rfl
        -- The only occurrence has been erased.
        have hcount := hguard n rfl ⟨_, hstep⟩
        rw [← List.count_pos_iff, List.count_erase_self] at hn
        omega
      · exact hn
  | read _ hevaluated => exact fun n hn => hevaluated.updates.mem_iff.mpr (h n hn)
  | evaluated => exact fun n hn => absurd hn List.not_mem_nil
  | reset => exact fun n hn => absurd hn List.not_mem_nil
  | setEvaluationType =>
      intro n hn
      apply h n
      simp only [Executor.setEvaluationType] at hn
      split at hn <;> exact hn

/-- Removing a node that is in the list twice leaves an occurrence of it behind. -/
theorem Transition.not_leavesExist {kernel next : StatKernel D} {op : Op D} {reply : Reply D}
    (htransition : kernel.Transition op reply next)
    (hstep : kernel.step op = .ok (reply, next)) (hguard : ¬ kernel.RemovesLeafOnce op) :
    ¬ next.LeavesExist := by
  unfold RemovesLeafOnce at hguard
  push Not at hguard
  obtain ⟨id, rfl, ⟨next', hnext'⟩, hcount⟩ := hguard
  obtain ⟨rfl, rfl⟩ := ExceptBind.pair_unique hstep hnext'
  cases htransition with
  | created hcreates => cases hcreates
  | redefined hredefines => cases hredefines
  | removed _ _ hremoved _ hmarked =>
      intro hexist
      obtain ⟨new, hleaves, -⟩ := hmarked.leaves
      have hmem : id ∈ next.executor.dirtyLeaves := by
        rw [hleaves, List.mem_append, ← List.count_pos_iff, List.count_erase_self]
        exact Or.inl (by omega)
      have hid := hmarked.updates.mem_iff.mp (hexist id hmem)
      rw [hremoved.nodes, Finmap.mem_erase] at hid
      exact hid.1 rfl

/-- **No dangling work item.**  In every run in which an accepted removal finds its node at most once
in the list, every recorded leaf exists and `evaluate()` looks up no missing node.  The condition is
exact: a call that keeps the leaves existing meets it. -/
theorem dirtyLeaves_exist :
    (∀ kernel : StatKernel D, StepMachine.Reachable step RemovesLeafOnce fresh kernel →
      kernel.LeavesExist ∧ kernel.step .evaluate ≠ .error .missingNode) ∧
    ∀ (kernel next : StatKernel D) (op : Op D) (reply : Reply D), Reachable kernel →
      kernel.LeavesExist → kernel.step op = .ok (reply, next) →
        (next.LeavesExist ↔ kernel.RemovesLeafOnce op) := by
  constructor
  · intro kernel hreach
    have hinvariant : kernel.Consistent ∧ kernel.LeavesExist := by
      refine StepMachine.Reachable.invariant (fun kernel => kernel.Consistent ∧ kernel.LeavesExist)
        ⟨.fresh, fun n hn => absurd hn List.not_mem_nil⟩ ?_ hreach
      rintro kernel op reply next ⟨h, hleaves⟩ hguard hstep
      have htransition := step_transition h hstep
      exact ⟨htransition.consistent h, htransition.leavesExist hleaves hguard hstep⟩
    refine ⟨hinvariant.2, fun hstep => ?_⟩
    cases step_aborts hinvariant.1 hstep with
    | evaluate habort => cases (habort hinvariant.2).1
  · intro kernel next op reply hreach hleaves hstep
    have htransition := step_transition hreach.consistent hstep
    refine ⟨fun hnext => ?_, fun hguard => htransition.leavesExist hleaves hguard hstep⟩
    by_contra hguard
    exact htransition.not_leavesExist hstep hguard hnext

section Instances

private def valueId : NodeId := "v".toList
private def formulaId : NodeId := "f".toList
private def collectionId : NodeId := "c".toList

/-- Creation lists the formula node, the read makes it clean without taking it off the list, and the
new value lists it again. -/
private def danglingCalls : List (Op NanRat) :=
  [.createValueNode valueId (Double.ofNat 1), .createFormulaNode formulaId "<v>".toList,
    .getNodeValue formulaId, .setNodeValue valueId (Double.ofNat 2), .removeNode formulaId]

/-- After removing a node that is in the list twice, `evaluate()` looks up a missing node. -/
theorem dangling_leaf : Reachable (after danglingCalls) ∧
    formulaId ∈ (after danglingCalls).executor.dirtyLeaves ∧
    formulaId ∉ (after danglingCalls).graph.nodes ∧
    (after danglingCalls).step .evaluate = .error .missingNode := by
  refine ⟨reachable_after _, by decide +kernel, by decide +kernel, ?_⟩
  have hreason : (match (after danglingCalls).step .evaluate with
      | .ok _ => none
      | .error reason => some reason) = some Abort.missingNode := by decide +kernel
  cases hstep : (after danglingCalls).step .evaluate with
  | ok result => simp [hstep] at hreason
  | error reason =>
      rw [hstep] at hreason
      exact congrArg _ (Option.some.inj hreason)

/-- A removal of a node that is in the list once, next to one that stays listed. -/
private def removalCalls : List (Op NanRat) :=
  [.createValueNode valueId (Double.ofNat 1), .createFormulaNode formulaId "<v>".toList,
    .createCollectionNode collectionId [formulaId] .sum, .getNodeValue formulaId,
    .removeNode collectionId]

theorem sample_leaves_exist :
    (after removalCalls).executor.dirtyLeaves = [formulaId] ∧ (after removalCalls).LeavesExist ∧
      (after removalCalls).step .evaluate ≠ .error .missingNode := by
  have hreach : StepMachine.Reachable step RemovesLeafOnce fresh (after removalCalls) := by
    refine reachable_after_of_guards ?_
    rintro n _ hop id rfl -
    -- The last call is the only removal.
    rcases n with _ | _ | _ | _ | _ | n <;> cases hop
    decide +kernel
  exact ⟨by decide +kernel, dirtyLeaves_exist.1 _ hreach⟩

end Instances

/-! ### Every dirty node is reached -/

/-- Every dirty node without dependents is in the list. -/
def Covered (kernel : StatKernel D) : Prop :=
  ∀ n, kernel.graph.isDirty n = true → kernel.graph.dependents n = [] →
    n ∈ kernel.executor.dirtyLeaves

/-- The dependencies that a call takes from its node if it is accepted. -/
def lostDependencies (kernel : StatKernel D) : Op D → List NodeId
  | .removeNode id => kernel.graph.dependencies id
  | .setNodeDependencies id dependencies =>
      (kernel.graph.dependencies id).filter (!dependencies.contains ·)
  | .setNodeFormula id text =>
      match compileAst (D := D) id text with
      | .ok (.ok ast) =>
          (kernel.graph.dependencies id).filter (!(Dsl.extractDependencies ast).contains ·)
      | _ => []
  | _ => []

/-- An accepted call takes the last dependent from a dirty node only if the node is in the list. -/
def StrandsNoDirtyNode (kernel : StatKernel D) (op : Op D) : Prop :=
  kernel.Succeeds op → ∀ d ∈ kernel.lostDependencies op, kernel.graph.isDirty d = true →
    (kernel.graph.dependents d).length = 1 → d ∈ kernel.executor.dirtyLeaves

theorem Redefines.lostDependencies_eq {kernel : StatKernel D} {op : Op D} {id : NodeId}
    {dependencies : List NodeId} {node node' : Node D}
    (h : Redefines op id dependencies node node') : kernel.lostDependencies op =
      (kernel.graph.dependencies id).filter (!dependencies.contains ·) := by
  cases h with
  | formula _ hcompile => simp only [lostDependencies, hcompile]
  | dependencies => rfl

/-- A node that loses its last dependent to a rewiring. -/
theorem Graph.dependents_rewire_eq_nil {g : Graph D} {id d : NodeId} {newDeps : List NodeId}
    (h : g.Linked) (hnew : newDeps.Nodup) :
    (g.rewire id newDeps).dependents d = [] ↔
      (g.dependents d = [] ∧ d ∉ newDeps) ∨
        (d ∈ g.dependencies id ∧ d ∉ newDeps ∧ (g.dependents d).length = 1) := by
  rw [dependents_rewire g id hnew (h.dependenciesNodup id)]
  have hmirror := h.mirror id d
  split
  · rename_i hd
    simp [hd]
  · rename_i hd
    split
    · rename_i hlost
      -- The node loses this dependent, so it ends up without any if that was the only one.
      have hmem := hmirror.mp hlost.1
      have hne : g.dependents d ≠ [] := List.ne_nil_of_mem hmem
      rw [List.eq_nil_iff_length_eq_zero, List.length_erase_of_mem hmem]
      have hpos := List.length_pos_iff.mpr hne
      simp only [hlost, hne, false_and, false_or, not_false_eq_true, true_and]
      omega
    · rename_i hlost
      constructor
      · intro hnil
        refine Or.inl ⟨hnil, fun hmem => ?_⟩
        have hold : d ∈ g.dependencies id := by
          by_contra hnot
          exact hd ⟨hmem, hnot⟩
        rw [hnil] at hmirror
        exact List.not_mem_nil (hmirror.mp hold)
      · rintro (⟨hnil, -⟩ | ⟨hold, hnot, -⟩)
        · exact hnil
        · exact absurd ⟨hold, hnot⟩ hlost

theorem Redefines.isDirty_eq {kernel : StatKernel D} {op : Op D} {id : NodeId}
    {dependencies : List NodeId} {node node' : Node D} (h : Redefines op id dependencies node node')
    (hnode : kernel.graph.nodes.lookup id = some node) (n : NodeId) :
    ((kernel.graph.rewire id dependencies).setNode id node').isDirty n = kernel.graph.isDirty n :=
  isDirty_setNode_of_eq (g := kernel.graph.rewire id dependencies) hnode h.dirty_eq n

theorem Graph.Removed.ne_of_isDirty {g g' : Graph D} {id n : NodeId} (h : g.Removed id g')
    (hdirty : g'.isDirty n = true) : n ≠ id := by
  rintro rfl
  have hmem := mem_of_isDirty hdirty
  rw [h.nodes, Finmap.mem_erase] at hmem
  exact hmem.1 rfl

theorem Graph.Removed.isDirty_eq {g g' : Graph D} {id n : NodeId} (h : g.Removed id g')
    (hn : n ≠ id) : g'.isDirty n = g.isDirty n :=
  isDirty_congr (by rw [h.nodes, Finmap.lookup_erase_ne hn])

/-- Every dirty node reaches, through dirty dependents, one that has none. -/
theorem Consistent.exists_dirty_leaf {kernel : StatKernel D} (h : kernel.Consistent) {n : NodeId}
    (hdirty : kernel.graph.isDirty n = true) :
    ∃ leaf, ReflTransGen kernel.graph.DependsOn leaf n ∧ kernel.graph.isDirty leaf = true ∧
      kernel.graph.dependents leaf = [] := by
  have hlinked := h.sound.linked
  have hup : Acyclic fun a b => b ∈ kernel.graph.dependents a := by
    intro a ha
    refine h.sound.acyclic a ((transGen_swap).mp ?_)
    exact TransGen.mono (fun a b hab => (hlinked.mirror b a).mpr hab) _ _ ha
  obtain ⟨leaf, hpath, hleaf⟩ := hup.exists_sink kernel.graph.nodes.keys
    (fun a b hab => Finmap.mem_keys.mpr (hlinked.dependent_mem hab)) n
  refine ⟨leaf, ?_, ?_, List.eq_nil_iff_forall_not_mem.mpr hleaf⟩
  · rw [← reflTransGen_swap]
    exact ReflTransGen.mono (fun a b hab => (hlinked.mirror b a).mpr hab) _ _ hpath
  · clear hleaf
    induction hpath with
    | refl => exact hdirty
    | tail _ hstep ih => exact h.upToDate.dirtyUp _ _ ((hlinked.mirror _ _).mpr hstep) ih

/-- Evaluating the list leaves no dirty node if it holds every dirty node without dependents. -/
theorem Graph.Evaluated.all_clean {kernel : StatKernel D} {g : Graph D}
    (hconsistent : kernel.Consistent) (h : kernel.Covered)
    (hevaluated : kernel.graph.Evaluated kernel.executor.dirtyLeaves g) (n : NodeId) :
    g.isDirty n = false := by
  by_contra hdirty
  have hbefore := refreshes_isDirty hevaluated.updates (by simpa using hdirty)
  obtain ⟨leaf, hpath, hleaf, hnil⟩ := hconsistent.exists_dirty_leaf hbefore
  exact hdirty (hevaluated.clean_of_reached (h leaf hleaf hnil) hpath)

/-- A dirty node without dependents that is not in the list stays dirty. -/
theorem Graph.Evaluated.exists_dirty {kernel : StatKernel D} {g : Graph D}
    (hconsistent : kernel.Consistent) (h : ¬ kernel.Covered)
    (hevaluated : kernel.graph.Evaluated kernel.executor.dirtyLeaves g) :
    ∃ n, g.isDirty n = true := by
  unfold Covered at h
  push Not at h
  obtain ⟨n, hdirty, hnil, hn⟩ := h
  -- The pass only writes below its targets, and nothing is above this node.
  refine ⟨n, (isDirty_congr (hevaluated.frame n fun id hid hpath => ?_)).trans hdirty⟩
  rcases hpath.cases_tail with rfl | ⟨above, -, hstep⟩
  · exact hn hid
  · have hdependent := (hconsistent.sound.linked.mirror above n).mp hstep
    rw [hnil] at hdependent
    exact List.not_mem_nil hdependent

/-- One call keeps every dirty node without dependents in the list. -/
theorem Transition.covered {kernel next : StatKernel D} {op : Op D} {reply : Reply D}
    (hconsistent : kernel.Consistent) (h : kernel.Covered) (hguard : kernel.StrandsNoDirtyNode op)
    (hstep : kernel.step op = .ok (reply, next)) (htransition : kernel.Transition op reply next) :
    next.Covered := by
  have hlinked := hconsistent.sound.linked
  cases htransition with
  | failed => exact h
  | notFound => exact h
  | @createdValue id value hid =>
      intro n hdirty hleaf
      refine h n ?_ hleaf
      rw [isDirty_setNode] at hdirty
      split at hdirty
      · cases hdirty
      · exact hdirty
  | @created _ id dependencies node hcreates hcreatable =>
      intro n hdirty hleaf
      by_cases hn : n = id
      · exact List.mem_append_right _ (List.mem_singleton.mpr hn)
      · refine List.mem_append_left _ (h n ?_ ?_)
        · have hlookup : ((kernel.graph.setNode id node).rewire id dependencies).nodes.lookup n =
              kernel.graph.nodes.lookup n := by rw [lookup_rewire, lookup_setNode, if_neg hn]
          exact (isDirty_congr hlookup).symm.trans hdirty
        · -- A new node has no former dependencies to lose.
          rcases (dependents_rewire_eq_nil (hlinked.setNode id node) hcreatable.nodup).mp hleaf with
            ⟨hnil, -⟩ | ⟨hlost, -⟩
          · exact hnil
          · rw [dependencies_setNode, hlinked.dependencies_eq_nil hcreatable.fresh] at hlost
            exact absurd hlost List.not_mem_nil
  | sameValue => exact h
  | @changedValue id value node _ hnode _ _ _ hmarked =>
      refine hmarked.covered fun n hdirty hleaf => h n ?_ hleaf
      exact (isDirty_setNode_of_eq hnode (by rfl) n).symm.trans hdirty
  | @redefined _ id dependencies node node' _ hredefines hnode haccepts _ hmarked =>
      -- A leaf of the new graph was one before, or the rewiring took its last dependent.
      apply hmarked.covered
      intro n hdirty hleaf
      have hbefore : kernel.graph.isDirty n = true := hredefines.isDirty_eq hnode n ▸ hdirty
      rcases (dependents_rewire_eq_nil hlinked haccepts.nodup).mp hleaf with
        ⟨hnil, -⟩ | ⟨hold, hnew, hlast⟩
      · exact h n hbefore hnil
      · refine hguard ⟨_, hstep⟩ n ?_ hbefore hlast
        rw [hredefines.lostDependencies_eq]
        exact List.mem_filter.mpr ⟨hold, by simpa using hnew⟩
  | @removed id g _ _ _ hremoved _ hmarked =>
      -- As for a rewiring, with the removed node as the dependent that is lost.
      apply hmarked.covered
      intro n hdirty hleaf
      have hn := hremoved.ne_of_isDirty hdirty
      have hbefore : kernel.graph.isDirty n = true := hremoved.isDirty_eq hn ▸ hdirty
      rw [hremoved.dependents, if_neg hn] at hleaf
      apply (List.mem_erase_of_ne hn).mpr
      by_cases hmem : id ∈ kernel.graph.dependents n
      · apply hguard ⟨_, hstep⟩ n ((hlinked.mirror id n).mpr hmem) hbefore
        have hlength := List.length_erase_of_mem hmem
        have hpos := List.length_pos_of_mem hmem
        rw [hleaf, List.length_nil] at hlength
        omega
      · rw [List.erase_of_not_mem hmem] at hleaf
        exact h n hbefore hleaf
  | read _ hevaluated =>
      intro n hdirty hleaf
      rw [hevaluated.updates.dependents_eq] at hleaf
      exact h n (refreshes_isDirty hevaluated.updates hdirty) hleaf
  | evaluated _ hevaluated =>
      intro n hdirty _
      rw [hevaluated.all_clean hconsistent h n] at hdirty
      cases hdirty
  | reset =>
      intro n hdirty _
      exact absurd (mem_of_isDirty hdirty) Finmap.notMem_empty
  | setEvaluationType =>
      intro n hdirty hleaf
      have hn := h n hdirty hleaf
      simp only [Executor.setEvaluationType]
      split <;> exact hn

/-- A call that takes the last dependent from an unlisted dirty node leaves it unlisted and dirty. -/
theorem Transition.not_covered {kernel next : StatKernel D} {op : Op D} {reply : Reply D}
    (hconsistent : kernel.Consistent) (htransition : kernel.Transition op reply next)
    (hstep : kernel.step op = .ok (reply, next)) (hguard : ¬ kernel.StrandsNoDirtyNode op) :
    ¬ next.Covered := by
  unfold StrandsNoDirtyNode at hguard
  push Not at hguard
  obtain ⟨⟨next', hnext'⟩, d, hlost, hdirty, hlast, hunlisted⟩ := hguard
  obtain ⟨rfl, rfl⟩ := ExceptBind.pair_unique hstep hnext'
  have hlinked := hconsistent.sound.linked
  intro hcovered
  cases htransition with
  | created hcreates => cases hcreates <;> exact absurd hlost List.not_mem_nil
  | @redefined _ id dependencies node node' _ hredefines hnode haccepts _ hmarked =>
      rw [hredefines.lostDependencies_eq, List.mem_filter] at hlost
      have hbefore := (hredefines.isDirty_eq hnode d).trans hdirty
      refine hunlisted (hmarked.mem_leaves_of_isDirty hbefore
        (hcovered d (marks_isDirty hmarked.updates hbefore) ?_))
      rw [hmarked.updates.dependents_eq, dependents_setNode,
        dependents_rewire_eq_nil hlinked haccepts.nodup]
      exact Or.inr ⟨hlost.1, by simpa using hlost.2, hlast⟩
  | @removed id g _ _ _ hremoved _ hmarked =>
      have hdependent := (hlinked.mirror id d).mp hlost
      have hd : d ≠ id := (hconsistent.sound.acyclic.irrefl hlost).symm
      have hbefore := (hremoved.isDirty_eq hd).trans hdirty
      refine hunlisted (List.mem_of_mem_erase (hmarked.mem_leaves_of_isDirty hbefore
        (hcovered d (marks_isDirty hmarked.updates hbefore) ?_)))
      rw [hmarked.updates.dependents_eq, hremoved.dependents, if_neg hd,
        List.eq_nil_iff_length_eq_zero, List.length_erase_of_mem hdependent]
      omega
  | _ => exact absurd hlost List.not_mem_nil

/-- An `evaluate()` that returns has evaluated the list and emptied it. -/
theorem Consistent.of_evaluate {kernel next : StatKernel D} {reply : Reply D} (h : kernel.Consistent)
    (hstep : kernel.step .evaluate = .ok (reply, next)) :
    ∃ g, kernel.graph.Evaluated kernel.executor.dirtyLeaves g ∧
      next = ⟨g, kernel.executor.reset⟩ := by
  rw [evaluate_step] at hstep
  split at hstep
  · rename_i g hrun
    obtain ⟨-, hevaluated⟩ := kernel.executor.foldlM_evaluateNode h.sound h.upToDate hrun
    cases hstep
    exact ⟨g, hevaluated, rfl⟩
  · cases hstep

/-- `evaluate()` leaves no node dirty exactly if every dirty node without dependents is listed. -/
theorem all_clean_iff_covered {kernel next : StatKernel D} {reply : Reply D}
    (hconsistent : kernel.Consistent) (hstep : kernel.step .evaluate = .ok (reply, next)) :
    (∀ n, next.graph.isDirty n = false) ↔ kernel.Covered := by
  obtain ⟨g, hevaluated, rfl⟩ := hconsistent.of_evaluate hstep
  refine ⟨fun hclean => ?_, fun hcovered => hevaluated.all_clean hconsistent hcovered⟩
  by_contra hcovered
  obtain ⟨n, hdirty⟩ := hevaluated.exists_dirty hconsistent hcovered
  rw [hclean n] at hdirty
  cases hdirty

/-- **A full evaluation pass is complete.**  In every run in which an accepted call takes the last
dependent from a dirty node only if that node is in the list, no node is dirty after `evaluate()`.
The condition is exact: after the first call that breaks it, an `evaluate()` that returns leaves a
node dirty. -/
theorem evaluate_completes :
    (∀ (kernel next : StatKernel D) (reply : Reply D),
      StepMachine.Reachable step StrandsNoDirtyNode fresh kernel →
      kernel.step .evaluate = .ok (reply, next) → ∀ n, next.graph.isDirty n = false) ∧
    ∀ (kernel next final : StatKernel D) (op : Op D) (reply reply' : Reply D),
      StepMachine.Reachable step StrandsNoDirtyNode fresh kernel →
      kernel.step op = .ok (reply, next) → next.step .evaluate = .ok (reply', final) →
        ((∀ n, final.graph.isDirty n = false) ↔ kernel.StrandsNoDirtyNode op) := by
  have hinvariant (kernel : StatKernel D)
      (hreach : StepMachine.Reachable step StrandsNoDirtyNode fresh kernel) :
      kernel.Consistent ∧ kernel.Covered := by
    refine StepMachine.Reachable.invariant (fun kernel => kernel.Consistent ∧ kernel.Covered)
      ⟨.fresh, fun n hdirty => absurd (mem_of_isDirty hdirty) Finmap.notMem_empty⟩ ?_ hreach
    rintro kernel op reply next ⟨h, hcovered⟩ hguard hstep
    have htransition := step_transition h hstep
    exact ⟨htransition.consistent h, htransition.covered h hcovered hguard hstep⟩
  constructor
  · intro kernel next reply hreach hstep
    obtain ⟨h, hcovered⟩ := hinvariant kernel hreach
    exact (all_clean_iff_covered h hstep).mpr hcovered
  · intro kernel next final op reply reply' hreach hstep hevaluate
    obtain ⟨h, hcovered⟩ := hinvariant kernel hreach
    have htransition := step_transition h hstep
    rw [all_clean_iff_covered (htransition.consistent h) hevaluate]
    refine ⟨fun hnext => ?_, fun hguard => htransition.covered h hcovered hguard hstep⟩
    by_contra hguard
    exact htransition.not_covered h hstep hguard hnext

section Instances

private def sumId : NodeId := "s".toList

/-- The new value marks the formula node while the collection is the leaf; taking the collection's
dependencies away makes the formula node a leaf that nothing records. -/
private def strandingCalls : List (Op NanRat) :=
  [.createValueNode valueId (Double.ofNat 1), .createFormulaNode formulaId "<v> + 1".toList,
    .createCollectionNode sumId [formulaId] .sum, .evaluate,
    .setNodeValue valueId (Double.ofNat 2), .setNodeDependencies sumId []]

/-- The `evaluate()` after this run returns, and the formula node is still dirty. -/
theorem dirty_after_evaluate : Reachable (after strandingCalls) ∧
    ∃ reply next, (after strandingCalls).step .evaluate = .ok (reply, next) ∧
      next.graph.isDirty formulaId = true := by
  refine ⟨reachable_after _, ?_⟩
  have hdirty : (match (after strandingCalls).step .evaluate with
      | .ok (_, next) => next.graph.isDirty formulaId
      | .error _ => false) = true := by decide +kernel
  cases hstep : (after strandingCalls).step .evaluate with
  | ok result => exact ⟨result.1, result.2, rfl, by simpa [hstep] using hdirty⟩
  | error reason => simp [hstep] at hdirty

/-- Taking the last dependent from a dirty collection that is still listed from its creation. -/
private def listedCalls : List (Op NanRat) :=
  [.createCollectionNode collectionId [] .sum, .createCollectionNode sumId [collectionId] .sum,
    .setNodeDependencies sumId []]

theorem sample_complete : ∃ reply next, (after listedCalls).step .evaluate = .ok (reply, next) ∧
    ∀ n, next.graph.isDirty n = false := by
  have hreach : StepMachine.Reachable step StrandsNoDirtyNode fresh (after listedCalls) := by
    refine reachable_after_of_guards ?_
    rintro n _ hop -
    rcases n with _ | _ | _ | n <;> cases hop
    · decide +kernel
    · decide +kernel
    · decide +kernel
  exact ⟨_, _, rfl, evaluate_completes.1 _ _ _ hreach rfl⟩

end Instances

end StatForge.StatKernel
