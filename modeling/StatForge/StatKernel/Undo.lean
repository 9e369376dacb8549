import StatForge.StatKernel.ReachableStates

/-!
# Creating a node and removing it again

* `Graph.rewired_removed` — removing a node that was just created restores nodes and edges.
* `removeNode_undoes_creation_iff` — the removal undoes the creation of a formula or collection node;
  it undoes that of a value node exactly if no leaf of that name is left over.
* `removal_takes_a_leftover` — a value node whose removal changes the list of leaves.
-/

namespace StatForge.StatKernel

open Relation Successors ExceptBind StatForge.StatKernel.Graph

variable {D : Type} [Double D]

namespace Graph

variable {g g' : Graph D} {id : NodeId} {node : Node D}

/-- Erasing the record that was just inserted. -/
theorem erase_setNode_new (hid : id ∉ g.nodes) (node : Node D) :
    (g.setNode id node).nodes.erase id = g.nodes := by
  apply Finmap.ext_lookup
  intro n
  by_cases hn : n = id
  · subst hn
    rw [Finmap.lookup_erase, Finmap.lookup_eq_none.mpr hid]
  · rw [Finmap.lookup_erase_ne hn, lookup_setNode, if_neg hn]

/-- **The edges of a new node.**  Removing a node that was just inserted and wired restores the nodes
and all dependencies and dependents. -/
theorem rewired_removed (h : g.Linked) {dependencies : List NodeId}
    (hcreatable : g.Creatable id dependencies)
    (hremoved : ((g.setNode id node).rewire id dependencies).Removed id g') :
    g'.nodes = g.nodes ∧ (∀ n, g'.dependencies n = g.dependencies n) ∧
      ∀ d, g'.dependents d = g.dependents d := by
  have hid := hcreatable.fresh
  have hnone : g.dependencies id = [] := h.dependencies_eq_nil hid
  refine ⟨hremoved.nodes.trans (erase_setNode_new hid node), fun n => ?_, fun d => ?_⟩
  · rw [hremoved.dependencies, dependencies_rewire]
    by_cases hn : n = id
    · rw [if_pos hn, hn, hnone]
    · rw [if_neg hn, if_neg hn, dependencies_setNode, List.erase_of_not_mem]
      exact fun hmem => hid (h.dependency_mem hmem)
  · have hfresh : id ∉ g.dependents d := fun hmem => hid (h.dependent_mem hmem)
    have hnodup : ((g.setNode id node).dependencies id).Nodup := by
      rw [dependencies_setNode, hnone]
      exact List.nodup_nil
    rw [hremoved.dependents, dependents_rewire _ id hcreatable.nodup hnodup, dependencies_setNode,
      dependents_setNode, hnone]
    by_cases hd : d = id
    · rw [if_pos hd, hd, h.dependents_eq_nil hid]
    · rw [if_neg hd]
      -- The new dependencies have gained the node at the end of their vectors.
      by_cases hdependency : d ∈ dependencies
      · simp [hdependency, List.erase_append_right _ hfresh]
      · simp [hdependency, List.erase_of_not_mem hfresh]

/-- Nothing depends on a new node. -/
theorem dependents_rewire_new (h : g.Linked) {dependencies : List NodeId}
    (hcreatable : g.Creatable id dependencies) (node : Node D) :
    ((g.setNode id node).rewire id dependencies).dependents id = [] := by
  have hnone : (g.setNode id node).dependencies id = [] := h.dependencies_eq_nil hcreatable.fresh
  have hself : id ∉ dependencies := fun hmem => hcreatable.fresh (hcreatable.exist id hmem)
  rw [dependents_rewire _ id hcreatable.nodup (hnone ▸ List.nodup_nil), hnone]
  simpa [hself] using h.dependents_eq_nil hcreatable.fresh

end Graph

variable {kernel next : StatKernel D}

/-- The id of the node that a call creates. -/
def Op.createdId : Op D → Option NodeId
  | .createValueNode id _ => some id
  | .createFormulaNode id _ => some id
  | .createCollectionNode id _ _ => some id
  | _ => none

def Op.createsValue : Op D → Bool
  | .createValueNode _ _ => true
  | _ => false

/-- The same nodes, the same vectors of dependencies and dependents, and the same leaves, each as many
times. -/
structure SameState (kernel kernel' : StatKernel D) : Prop where
  nodes : kernel'.graph.nodes = kernel.graph.nodes
  dependencies : ∀ n, kernel'.graph.dependencies n = kernel.graph.dependencies n
  dependents : ∀ n, kernel'.graph.dependents n = kernel.graph.dependents n
  dirtyLeaves : (kernel'.executor.dirtyLeaves : Multiset NodeId) = kernel.executor.dirtyLeaves
  evaluateImpl : kernel'.executor.evaluateImpl = kernel.executor.evaluateImpl

/-- Removing a node without dependents marks nothing. -/
theorem removeNode_step {id : NodeId} {g : Graph D} (hdependents : kernel.graph.dependents id = [])
    (hrun : kernel.graph.removeNode id = .ok (.ok (), g)) :
    kernel.step (.removeNode id) = .ok (.result (.ok ()), ⟨g, kernel.executor.remove id⟩) := by
  have hmark : (kernel.graph.dependents id).foldlM
      (fun (kernel : StatKernel D) dependentId => kernel.markDirty dependentId)
      ⟨g, kernel.executor.remove id⟩ = .ok ⟨g, kernel.executor.remove id⟩ := by
    rw [hdependents]
    rfl
  simp only [step, removeNode]
  rw [kernel.andThen_ok hrun hmark]
  rfl

/-- Erasing an element once more than it was listed. -/
theorem coe_erase_eq_iff {leaves : List NodeId} {id : NodeId} :
    (leaves.erase id : Multiset NodeId) = leaves ↔ id ∉ leaves := by
  constructor
  · intro h hmem
    have hlength := congrArg Multiset.card h
    rw [Multiset.coe_card, Multiset.coe_card, List.length_erase_of_mem hmem] at hlength
    have hpos := List.length_pos_of_mem hmem
    omega
  · intro hmem
    rw [List.erase_of_not_mem hmem]

/-- Erasing an element that was appended, whether it was listed before or not. -/
theorem coe_append_erase (leaves : List NodeId) (id : NodeId) :
    ((leaves ++ [id]).erase id : Multiset NodeId) = leaves := by
  refine Multiset.coe_eq_coe.mpr ?_
  have hperm := (List.perm_append_singleton id leaves).erase id
  rwa [List.erase_cons_head] at hperm

/-- **Undoing a creation.**  In every reachable state a node that was just created can be removed, and
this restores the state exactly if the node is no value node or its name is not in the list of dirty
leaves: `removeNode` takes one leaf of that name, and `createValueNode` has listed none. -/
theorem removeNode_undoes_creation_iff (hreach : Reachable kernel) {op : Op D} {id : NodeId}
    (hop : op.createdId = some id) (hstep : kernel.step op = .ok (.result (.ok ()), next)) :
    (∃ back, next.step (.removeNode id) = .ok (.result (.ok ()), back) ∧ kernel.SameState back) ↔
      (op.createsValue = true → id ∉ kernel.executor.dirtyLeaves) := by
  have h := hreach.consistent
  have hlinked := h.sound.linked
  have htransition := step_transition h hstep
  have hconsistent := htransition.consistent h
  cases htransition with
  | @createdValue id' value hid =>
      obtain rfl : id' = id := Option.some.inj hop
      have hremove : step ⟨kernel.graph.setNode id' { value := value }, kernel.executor⟩
          (.removeNode id') = .ok (.result (.ok ()), ⟨_, kernel.executor.remove id'⟩) :=
        removeNode_step (hlinked.dependents_eq_nil hid)
          (hlinked.removeNode_new hid { value := value })
      have hvalue : (Op.createValueNode id' value).createsValue = true := rfl
      rw [← coe_erase_eq_iff]
      constructor
      · rintro ⟨back, hback, hsame⟩ -
        rw [hremove] at hback
        cases hback
        exact hsame.dirtyLeaves
      · intro hleaves
        exact ⟨_, hremove, rfl, fun _ => rfl, fun _ => rfl, hleaves hvalue, rfl⟩
  | @created _ id' dependencies node hcreates hcreatable =>
      obtain ⟨rfl, hvalue⟩ : id' = id ∧ op.createsValue = false := by
        cases hcreates with
        | formula => exact ⟨Option.some.inj hop, rfl⟩
        | collection => exact ⟨Option.some.inj hop, rfl⟩
      refine iff_of_true ?_ fun htrue => absurd htrue (by simp [hvalue])
      have hdependents := dependents_rewire_new hlinked hcreatable node
      rcases hconsistent.sound.linked.removeNode_cases id' with
        ⟨-, -, g, hrun, hremoved⟩ | ⟨info, -, hmissing | ⟨n, hn, -⟩⟩
      · obtain ⟨hnodes, hdependencies, hdependents'⟩ := rewired_removed hlinked hcreatable hremoved
        exact ⟨_, removeNode_step hdependents hrun, hnodes, hdependencies, hdependents',
          coe_append_erase _ _, rfl⟩
      · exact absurd (Finmap.mem_insert.mpr (Or.inl rfl)) hmissing
      · rw [hdependents] at hn
        exact absurd hn List.not_mem_nil
  | redefined hredefines => cases hredefines <;> cases hop
  | _ => cases hop

section Instances

private def weightId : NodeId := "w".toList
private def scoreId : NodeId := "x".toList

/-- Reading the formula node and changing its dependency lists it for a second time; one of the two
leaves stays when the node is removed. -/
private def leftoverCalls : List (Op NanRat) :=
  [.createValueNode weightId (Double.ofNat 1), .createFormulaNode scoreId "<w> + 1".toList,
    .getNodeValue scoreId, .setNodeValue weightId (Double.ofNat 2), .removeNode scoreId]

/-- Removing a new value node takes the leaf that an earlier node of its name has left behind. -/
theorem removal_takes_a_leftover : ∃ next back, Reachable (after leftoverCalls) ∧
    (after leftoverCalls).step (.createValueNode scoreId (Double.ofNat 3)) =
      .ok (.result (.ok ()), next) ∧
    next.step (.removeNode scoreId) = .ok (.result (.ok ()), back) ∧
    (after leftoverCalls).executor.dirtyLeaves = [scoreId] ∧ back.executor.dirtyLeaves = [] ∧
    ¬ SameState (after leftoverCalls) back := by
  refine ⟨_, _, reachable_after _, rfl, rfl, by decide +kernel, by decide +kernel, fun hsame => ?_⟩
  exact absurd (congrArg Multiset.card hsame.dirtyLeaves) (by decide +kernel)

/-- A new formula node of the same name can be created and removed. -/
theorem formula_is_undone : ∃ next back,
    (after leftoverCalls).step (.createFormulaNode scoreId "<w>".toList) =
      .ok (.result (.ok ()), next) ∧
    next.step (.removeNode scoreId) = .ok (.result (.ok ()), back) ∧
    SameState (after leftoverCalls) back := by
  have hstep : (after leftoverCalls).step (.createFormulaNode scoreId "<w>".toList) =
      .ok (.result (.ok ()), _) := rfl
  obtain ⟨back, hback, hsame⟩ :=
    (removeNode_undoes_creation_iff (reachable_after leftoverCalls) rfl hstep).mpr
      (by simp [Op.createsValue])
  exact ⟨_, back, hstep, hback, hsame⟩

end Instances

end StatForge.StatKernel
