import StatForge.StatKernel.DirtyLeaves
import StatForge.StatKernel.Propagation

/-!
# Duplicates in the list of dirty leaves

A leaf joins the list whenever it becomes dirty, but a read makes it clean without taking it off the
list.

* `Marked.nodup_iff` — marking keeps the list free of duplicates exactly if it marks no clean leaf that
  is listed already.
* `dirtyLeaves_nodup` — as long as no mutation does that, no id occurs twice and the list is no longer
  than there are nodes.
* `write_read_loop_grows` — writing and reading without `evaluate()` lists a leaf once in every round.
-/

namespace StatForge.StatKernel

open Relation Successors StatForge.StatKernel.Graph

variable {D : Type} [Double D]

/-- Marking appends the leaves that become dirty. -/
theorem Graph.Marked.nodup_iff {g g' : Graph D} {dirtyLeaves dirtyLeaves' sources : List NodeId}
    (h : g.Marked dirtyLeaves sources g' dirtyLeaves') (hnodup : dirtyLeaves.Nodup) :
    dirtyLeaves'.Nodup ↔ ∀ n ∈ dirtyLeaves, g'.isDirty n = true → g.isDirty n = false →
      g.dependents n ≠ [] := by
  obtain ⟨new, rfl, hnew, hmem⟩ := h.leaves
  rw [List.nodup_append]
  constructor
  · rintro ⟨-, -, hdisjoint⟩ n hn hdirty hclean hleaf
    exact hdisjoint n hn n ((hmem n).mpr ⟨hdirty, hclean, hleaf⟩) rfl
  · intro hkept
    refine ⟨hnodup, hnew, ?_⟩
    rintro n hn _ hn' rfl
    obtain ⟨hdirty, hclean, hleaf⟩ := (hmem n).mp hn'
    exact hkept n hn hdirty hclean hleaf

/-- A node from which `id` is reached is no dependency of `id`, so rewiring `id` keeps its
dependents. -/
theorem Graph.dependents_rewire_of_path {g : Graph D} {id n : NodeId} {newDeps : List NodeId}
    (h : g.Sound) (haccepts : g.Accepts id newDeps false) (hpath : ReflTransGen g.DependsOn n id) :
    (g.rewire id newDeps).dependents n = g.dependents n := by
  have hold : n ∉ g.dependencies id := fun hn => h.acyclic id (.head' hn hpath)
  have hnew : n ∉ newDeps := fun hn => haccepts.noPath rfl n hn hpath
  rw [dependents_rewire g id haccepts.nodup (h.linked.dependenciesNodup id)]
  simp [hold, hnew]

/-- The nodes whose flags an accepted call sets. -/
def marks (kernel : StatKernel D) : Op D → NodeId → Prop
  | .setNodeValue id value, n =>
      (∃ node, kernel.graph.nodes.lookup id = some node ∧ Double.eq node.value value = false) ∧
        TransGen kernel.graph.DependsOn n id
  | .setNodeFormula id _, n => n = id ∨ TransGen kernel.graph.DependsOn n id
  | .setNodeDependencies id _, n => n = id ∨ TransGen kernel.graph.DependsOn n id
  | .removeNode id, n => TransGen kernel.graph.DependsOn n id
  | _, _ => False

/-- An accepted call marks no clean leaf that is in the list. -/
def RelistsNoLeaf (kernel : StatKernel D) (op : Op D) : Prop :=
  kernel.Succeeds op → ∀ n ∈ kernel.executor.dirtyLeaves, kernel.marks op n →
    kernel.graph.isDirty n = false → kernel.graph.dependents n ≠ []

section Transition

variable {kernel next : StatKernel D} {op : Op D} {reply : Reply D} {id : NodeId}

theorem Redefines.marks_iff {dependencies : List NodeId} {node node' : Node D}
    (h : Redefines op id dependencies node node') (n : NodeId) :
    kernel.marks op n ↔ n = id ∨ TransGen kernel.graph.DependsOn n id := by
  cases h <;> rfl

theorem nodup_of_changedValue (h : kernel.Consistent) (hnodup : kernel.executor.dirtyLeaves.Nodup)
    {value : D} {node : Node D} (hnode : kernel.graph.nodes.lookup id = some node)
    (htype : node.type = .value) (hne : Double.eq node.value value = false)
    (hmarked : (kernel.graph.setNode id { node with value := value }).Marked
      kernel.executor.dirtyLeaves [id] next.graph next.executor.dirtyLeaves) :
    next.executor.dirtyLeaves.Nodup ↔ ∀ n ∈ kernel.executor.dirtyLeaves,
      kernel.marks (.setNodeValue id value) n → kernel.graph.isDirty n = false →
        kernel.graph.dependents n ≠ [] := by
  have hset := setsFlags_changedValue h hnode htype hmarked
  rw [hmarked.nodup_iff hnodup]
  apply forall₂_congr
  intro n _
  rw [hset.dirty, isDirty_setNode_of_eq hnode (by rfl) n, dependents_setNode]
  constructor
  · rintro hkept ⟨-, hpath⟩ hclean
    exact hkept (Or.inr hpath) hclean
  · rintro hkept (hdirty | hpath) hclean
    · exact fun _ => by simp [hclean] at hdirty
    · exact hkept ⟨⟨node, hnode, hne⟩, hpath⟩ hclean

theorem nodup_of_redefined (h : kernel.Consistent) (hnodup : kernel.executor.dirtyLeaves.Nodup)
    {dependencies : List NodeId} {node node' : Node D}
    (hredefines : Redefines op id dependencies node node')
    (hnode : kernel.graph.nodes.lookup id = some node)
    (haccepts : kernel.graph.Accepts id dependencies false)
    (hmarked : ((kernel.graph.rewire id dependencies).setNode id node').Marked
      kernel.executor.dirtyLeaves [id] next.graph next.executor.dirtyLeaves) :
    next.executor.dirtyLeaves.Nodup ↔ ∀ n ∈ kernel.executor.dirtyLeaves,
      kernel.marks op n → kernel.graph.isDirty n = false → kernel.graph.dependents n ≠ [] := by
  have hset := setsFlags_redefined h hredefines hnode haccepts hmarked
  rw [hmarked.nodup_iff hnodup]
  apply forall₂_congr
  intro n _
  rw [hset.dirty, hredefines.isDirty_eq hnode n, hredefines.marks_iff, dependents_setNode]
  have hdependents (hpath : n = id ∨ TransGen kernel.graph.DependsOn n id) :
      (kernel.graph.rewire id dependencies).dependents n = kernel.graph.dependents n :=
    dependents_rewire_of_path h.sound haccepts
      (reflTransGen_iff_eq_or_transGen.mpr (hpath.imp_left Eq.symm))
  constructor
  · intro hkept hpath hclean
    rw [← hdependents hpath]
    exact hkept (Or.inr hpath) hclean
  · rintro hkept (hdirty | hpath) hclean
    · simp [hclean] at hdirty
    · rw [hdependents hpath]
      exact hkept hpath hclean

theorem nodup_of_removed (h : kernel.Consistent) (hnodup : kernel.executor.dirtyLeaves.Nodup)
    {g : Graph D} (hremoved : kernel.graph.Removed id g)
    (hmarked : g.Marked (kernel.executor.dirtyLeaves.erase id) (kernel.graph.dependents id)
      next.graph next.executor.dirtyLeaves) :
    next.executor.dirtyLeaves.Nodup ↔ ∀ n ∈ kernel.executor.dirtyLeaves,
      kernel.marks (.removeNode id) n → kernel.graph.isDirty n = false →
        kernel.graph.dependents n ≠ [] := by
  have hlinked := h.sound.linked
  have hset := setsFlags_removed h hremoved hmarked
  -- Above the removed node the flags and the dependents are as before.
  have habove (n : NodeId) (hpath : TransGen kernel.graph.DependsOn n id) :
      n ≠ id ∧ g.isDirty n = kernel.graph.isDirty n ∧
        g.dependents n = kernel.graph.dependents n := by
    have hn : n ≠ id := by
      rintro rfl
      exact h.sound.acyclic n hpath
    refine ⟨hn, hremoved.isDirty_eq hn, ?_⟩
    rw [hremoved.dependents, if_neg hn]
    apply List.erase_of_not_mem
    intro hmem
    exact h.sound.acyclic id (.head ((hlinked.mirror id n).mpr hmem) hpath)
  rw [hmarked.nodup_iff (hnodup.erase id)]
  constructor
  · intro hkept n hn hpath hclean
    obtain ⟨hne, hflag, hdependents⟩ := habove n hpath
    obtain ⟨d, hnd, hd⟩ := TransGen.tail'_iff.mp hpath
    have hdirty : next.graph.isDirty n = true := (hset.dirty n).mpr (Or.inr
      ⟨d, (hlinked.mirror d id).mp hd, (reflTransGen_iff_eq_or_transGen.mp hnd).imp_left Eq.symm⟩)
    rw [← hdependents]
    exact hkept n (hnodup.mem_erase_iff.mpr ⟨hne, hn⟩) hdirty (hflag.trans hclean)
  · intro hkept n hn hdirty hclean
    obtain ⟨hne, hn⟩ := hnodup.mem_erase_iff.mp hn
    rcases (hset.dirty n).mp hdirty with ⟨-, hbefore⟩ | ⟨d, hd, hpath⟩
    · rw [hremoved.isDirty_eq hne, hbefore] at hclean
      cases hclean
    · have hpath : TransGen kernel.graph.DependsOn n id :=
        .tail' (reflTransGen_iff_eq_or_transGen.mpr (hpath.imp_left Eq.symm))
          ((hlinked.mirror d id).mpr hd)
      obtain ⟨-, hflag, hdependents⟩ := habove n hpath
      rw [hdependents]
      exact hkept n hn hpath (hflag.symm.trans hclean)

/-- **One call.**  A call keeps the list free of duplicates exactly if it marks no listed clean leaf. -/
theorem Transition.nodup_iff (h : kernel.Consistent) (hexist : kernel.LeavesExist)
    (hnodup : kernel.executor.dirtyLeaves.Nodup) (hstep : kernel.step op = .ok (reply, next))
    (htransition : kernel.Transition op reply next) :
    next.executor.dirtyLeaves.Nodup ↔ kernel.RelistsNoLeaf op := by
  -- A call that fails or marks nothing has nothing to show.
  have hfailed {info : ErrorInfo} (hreply : reply = .result (.error info)) :
      kernel.RelistsNoLeaf op := by
    rintro ⟨next', hstep'⟩
    rw [hstep, hreply] at hstep'
    cases hstep'
  have hsucceeds (hreply : reply = .result (.ok ())) : kernel.Succeeds op := ⟨next, hreply ▸ hstep⟩
  cases htransition with
  | failed => exact iff_of_true hnodup (hfailed rfl)
  | notFound => exact iff_of_true hnodup fun _ n _ hmarks => hmarks.elim
  | createdValue => exact iff_of_true hnodup fun _ n _ hmarks => hmarks.elim
  | @created _ id _ _ hcreates hcreatable =>
      refine iff_of_true ?_ fun _ n _ hmarks => by cases hcreates <;> exact hmarks.elim
      -- The new id is not in the list, which names existing nodes only.
      refine List.nodup_append.mpr ⟨hnodup, List.nodup_singleton id, ?_⟩
      rintro n hn _ hid rfl
      exact hcreatable.fresh (List.mem_singleton.mp hid ▸ hexist n hn)
  | sameValue hnode htype heq =>
      refine iff_of_true hnodup fun _ n _ hmarks => ?_
      obtain ⟨⟨node, hnode', hne⟩, -⟩ := hmarks
      obtain rfl := Option.some.inj (hnode.symm.trans hnode')
      simp [heq] at hne
  | changedValue hnode htype hne _ hmarked =>
      rw [nodup_of_changedValue h hnodup hnode htype hne hmarked]
      exact ⟨fun hkept _ => hkept, fun hkept => hkept (hsucceeds rfl)⟩
  | redefined hredefines hnode haccepts _ hmarked =>
      rw [nodup_of_redefined h hnodup hredefines hnode haccepts hmarked]
      exact ⟨fun hkept _ => hkept, fun hkept => hkept (hsucceeds rfl)⟩
  | removed _ _ hremoved _ hmarked =>
      rw [nodup_of_removed h hnodup hremoved hmarked]
      exact ⟨fun hkept _ => hkept, fun hkept => hkept (hsucceeds rfl)⟩
  | read => exact iff_of_true hnodup fun _ n _ hmarks => hmarks.elim
  | evaluated => exact iff_of_true List.nodup_nil fun _ n _ hmarks => hmarks.elim
  | reset => exact iff_of_true List.nodup_nil fun _ n _ hmarks => hmarks.elim
  | setEvaluationType =>
      refine iff_of_true ?_ fun _ n _ hmarks => hmarks.elim
      simp only [Executor.setEvaluationType]
      split <;> exact hnodup

end Transition

/-- A list without duplicates, all of whose ids exist, is no longer than there are nodes. -/
theorem LeavesExist.length_le {kernel : StatKernel D} (h : kernel.LeavesExist)
    (hnodup : kernel.executor.dirtyLeaves.Nodup) :
    kernel.executor.dirtyLeaves.length ≤ kernel.graph.nodes.keys.card := by
  rw [← List.toFinset_card_of_nodup hnodup]
  apply Finset.card_le_card
  intro n hn
  exact Finmap.mem_keys.mpr (h n (List.mem_toFinset.mp hn))

/-- **No duplicates.**  In every run in which no accepted call marks a clean leaf that is listed already,
no id occurs twice in the list and the list is no longer than there are nodes.  The condition is
exact: after a further call the list is free of duplicates exactly if the call meets it. -/
theorem dirtyLeaves_nodup :
    (∀ kernel : StatKernel D, StepMachine.Reachable step RelistsNoLeaf fresh kernel →
      kernel.executor.dirtyLeaves.Nodup ∧
        kernel.executor.dirtyLeaves.length ≤ kernel.graph.nodes.keys.card) ∧
    ∀ (kernel next : StatKernel D) (op : Op D) (reply : Reply D),
      StepMachine.Reachable step RelistsNoLeaf fresh kernel →
      kernel.step op = .ok (reply, next) →
        (next.executor.dirtyLeaves.Nodup ↔ kernel.RelistsNoLeaf op) := by
  have hinvariant (kernel : StatKernel D)
      (hreach : StepMachine.Reachable step RelistsNoLeaf fresh kernel) :
      kernel.Consistent ∧ kernel.LeavesExist ∧ kernel.executor.dirtyLeaves.Nodup := by
    refine StepMachine.Reachable.invariant (fun kernel => kernel.Consistent ∧ kernel.LeavesExist ∧
      kernel.executor.dirtyLeaves.Nodup) ⟨.fresh, fun n hn => absurd hn List.not_mem_nil,
        List.nodup_nil⟩ ?_ hreach
    rintro kernel op reply next ⟨h, hexist, hnodup⟩ hguard hstep
    have htransition := step_transition h hstep
    -- Without duplicates every removal finds its node at most once.
    have honce : kernel.RemovesLeafOnce op := fun id _ _ => List.nodup_iff_count_le_one.mp hnodup id
    exact ⟨htransition.consistent h, htransition.leavesExist hexist honce hstep,
      (htransition.nodup_iff h hexist hnodup hstep).mpr hguard⟩
  constructor
  · intro kernel hreach
    obtain ⟨-, hexist, hnodup⟩ := hinvariant kernel hreach
    exact ⟨hnodup, hexist.length_le hnodup⟩
  · intro kernel next op reply hreach hstep
    obtain ⟨h, hexist, hnodup⟩ := hinvariant kernel hreach
    exact (step_transition h hstep).nodup_iff h hexist hnodup hstep

section Instances

private def inputId : NodeId := "v".toList
private def outputId : NodeId := "f".toList

/-- One round of the write and read loop. -/
private def writeRead (value : Nat) : List (Op NanRat) :=
  [.setNodeValue inputId (Double.ofNat value), .getNodeValue outputId]

private def loopCalls : List (Op NanRat) :=
  [.createValueNode inputId (Double.ofNat 1), .createFormulaNode outputId "<v>".toList,
    .getNodeValue outputId] ++ writeRead 2 ++ writeRead 3

/-- Two rounds on two nodes: the formula node is in the list three times. -/
theorem write_read_loop_grows : Reachable (after loopCalls) ∧
    (after loopCalls).executor.dirtyLeaves = [outputId, outputId, outputId] ∧
    ¬ (after loopCalls).executor.dirtyLeaves.Nodup ∧
    (after loopCalls).graph.nodes.keys.card < (after loopCalls).executor.dirtyLeaves.length :=
  ⟨reachable_after _, by decide +kernel, by decide +kernel, by decide +kernel⟩

/-- The first new value meets a formula that is dirty already, the second one an empty list. -/
private def passedCalls : List (Op NanRat) :=
  [.createValueNode inputId (Double.ofNat 1), .createFormulaNode outputId "<v>".toList] ++
    writeRead 2 ++ [.evaluate, .setNodeValue inputId (Double.ofNat 3)]

/-- With a pass between a read and the next write, the formula node is listed once. -/
theorem evaluated_leaf_is_listed_once :
    (after passedCalls).executor.dirtyLeaves = [outputId] ∧
      (after passedCalls).executor.dirtyLeaves.Nodup ∧
      (after passedCalls).executor.dirtyLeaves.length ≤ (after passedCalls).graph.nodes.keys.card := by
  have hreach : StepMachine.Reachable step RelistsNoLeaf fresh (after passedCalls) := by
    refine reachable_after_of_guards ?_
    rintro n op hop - leaf hleaf hmarks hclean
    rcases n with _ | _ | _ | _ | _ | _ | n <;> cases hop
    · cases hmarks
    · cases hmarks
    · have hlisted : (after (passedCalls.take 2)).executor.dirtyLeaves = [outputId] := by
        decide +kernel
      have hdirty : (after (passedCalls.take 2)).graph.isDirty outputId = true := by
        decide +kernel
      rw [hlisted, List.mem_singleton] at hleaf
      rw [hleaf, hdirty] at hclean
      cases hclean
    · cases hmarks
    · cases hmarks
    · have hlisted : (after (passedCalls.take 5)).executor.dirtyLeaves = [] := by decide +kernel
      rw [hlisted] at hleaf
      cases hleaf
  exact ⟨by decide +kernel, dirtyLeaves_nodup.1 _ hreach⟩

end Instances

end StatForge.StatKernel
