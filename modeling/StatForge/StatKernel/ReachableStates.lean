import StatForge.NanRat
import StatForge.StatKernel.Transitions

/-!
# Properties of every reachable kernel

* `getNodeValue_eq_recompute` — a read returns the value recomputed from the current definitions.
* `edgeMaps_mirror` — the edge maps are mirror images over the existing nodes.
* `acyclic_and_rewiring` — the dependency relation is acyclic, and the cycle check refuses exactly
  the rewirings that would close a cycle.
* `failed_call_changes_nothing` — a call that returns an error leaves the state as it was.
-/

namespace StatForge.StatKernel

open Relation Successors StatForge.StatKernel.Graph

variable {D : Type} [Double D]

/-- The kernel after a sequence of calls, or a fresh one if a call aborts. -/
def after (ops : List (Op D)) : StatKernel D :=
  match StepMachine.run step fresh ops with
  | .ok (_, kernel) => kernel
  | .error _ => fresh

/-- Every call meets the guard in the state that the calls before it lead to. -/
theorem reachable_after_of_guards {guard : StatKernel D → Op D → Prop} {ops : List (Op D)}
    (hguard : ∀ n op, ops[n]? = some op → guard (after (ops.take n)) op) :
    StepMachine.Reachable step guard fresh (after ops) := by
  rw [after]
  cases hrun : StepMachine.run step fresh ops with
  | error reason => exact .start
  | ok result =>
      refine .of_run .start ?_ hrun
      intro n op replies middle hop hmiddle
      have hcall := hguard n op hop
      rwa [after, hmiddle] at hcall

theorem reachable_after (ops : List (Op D)) : Reachable (after ops) :=
  reachable_after_of_guards fun _ _ _ => trivial

/-- The call returns without an error. -/
def Succeeds (kernel : StatKernel D) (op : Op D) : Prop :=
  ∃ next, kernel.step op = .ok (.result (.ok ()), next)

def Reply.isSuccess : Reply D → Bool
  | .result (.ok ()) => true
  | _ => false

instance (kernel : StatKernel D) (op : Op D) : Decidable (kernel.Succeeds op) :=
  decidable_of_iff ((kernel.step op).toOption.any (·.1.isSuccess) = true) <| by
    unfold Succeeds
    cases kernel.step op with
    | error reason => simp [Except.toOption]
    | ok result =>
        obtain ⟨_ | ⟨_ | _⟩ | _, next⟩ := result <;> simp [Except.toOption, Reply.isSuccess]

section Reachable

variable {kernel : StatKernel D}

/-- **Cached reads equal recomputation.**  In every reachable state a read of a missing node fails; a
read of an existing node returns the value that recursion over the current definitions gives, or
aborts because that recursion reaches `unreachable()` at the node or below it. -/
theorem getNodeValue_eq_recompute (hreach : Reachable kernel) (id : NodeId) :
    (id ∉ kernel.graph.nodes → ∃ info, kernel.getNodeValue id = .ok (.error info, kernel)) ∧
    (id ∈ kernel.graph.nodes →
      (∃ value next, kernel.getNodeValue id = .ok (.ok value, next) ∧
        ∀ fuel, kernel.graph.nodes.keys.card ≤ fuel →
          recompute kernel.graph.definition fuel id = .ok value) ∨
      (kernel.getNodeValue id = .error .unreachable ∧
        ∃ n, ReflTransGen kernel.graph.DependsOn id n ∧ ∀ fuel,
          kernel.graph.nodes.keys.card ≤ fuel →
            recompute kernel.graph.definition fuel n = .error .unreachable)) := by
  have h := hreach.consistent
  constructor
  · intro hid
    obtain ⟨info, hrun⟩ := Executor.getNodeValue_missing hid kernel.executor
    exact ⟨info, by rw [getNodeValue, hrun]; rfl⟩
  · intro hid
    rcases kernel.executor.getNodeValue_spec h.sound h.upToDate hid with
      ⟨g, node, hevaluated, hnode, hrun⟩ | ⟨hrun, -, id', hid', n, hpath, hn⟩
    · refine Or.inl ⟨node.value, ⟨g, kernel.executor⟩, by rw [getNodeValue, hrun]; rfl, ?_⟩
      intro fuel hfuel
      exact hevaluated.recompute_eq h.sound hnode (hevaluated.clean id (by simp)) hfuel
    · obtain rfl := List.mem_singleton.mp hid'
      exact Or.inr ⟨by rw [getNodeValue, hrun]; rfl, n, hpath, hn⟩

/-- **Mirror images.**  In every reachable state the keys and entries of both maps exist, the maps
mirror each other without duplicates, and value nodes are bare and clean. -/
theorem edgeMaps_mirror (hreach : Reachable kernel) :
    (∀ n ∈ kernel.graph.dependenciesMap,
      n ∈ kernel.graph.nodes ∧ ∀ d ∈ kernel.graph.dependencies n, d ∈ kernel.graph.nodes) ∧
    (∀ d ∈ kernel.graph.dependentsMap,
      d ∈ kernel.graph.nodes ∧ ∀ n ∈ kernel.graph.dependents d, n ∈ kernel.graph.nodes) ∧
    (∀ n d, d ∈ kernel.graph.dependencies n ↔ n ∈ kernel.graph.dependents d) ∧
    (∀ n, (kernel.graph.dependencies n).Nodup ∧ (kernel.graph.dependents n).Nodup) ∧
    ∀ id node, kernel.graph.nodes.lookup id = some node → node.type = .value →
      kernel.graph.dependencies id = [] ∧ node.formula = none ∧ node.dirty = false := by
  have hsound := hreach.consistent.sound
  have hlinked := hsound.linked
  refine ⟨fun n hn => ⟨hlinked.dependenciesKey n hn, fun d hd => hlinked.dependency_mem hd⟩,
    fun d hd => ⟨hlinked.dependentsKey d hd, fun n hn => hlinked.dependent_mem hn⟩, hlinked.mirror,
    fun n => ⟨hlinked.dependenciesNodup n, hlinked.dependentsNodup n⟩, fun id node hnode htype => ?_⟩
  cases hsound.typed id node hnode with
  | value _ hformula hdirty hdependencies => exact ⟨hdependencies, hformula, hdirty⟩
  | formula _ htype' => simp [htype'] at htype
  | collection htype' => simp [htype'] at htype

/-- **Acyclic, and no acyclic rewiring is refused.**  In every reachable state the dependencies have
no cycle, and rewiring an existing node with the cycle check succeeds exactly for existing, distinct
dependencies other than the node that leave the graph acyclic; and on every finite map the path
search ends with the answer whether the target is reachable. -/
theorem acyclic_and_rewiring :
    (∀ kernel : StatKernel D, Reachable kernel → Acyclic kernel.graph.DependsOn ∧
      ∀ id ∈ kernel.graph.nodes, ∀ newDeps,
        (∃ g, kernel.graph.setNodeDependencies id newDeps = .ok (.ok (), g)) ↔
          (∀ d ∈ newDeps, d ∈ kernel.graph.nodes) ∧ newDeps.Nodup ∧ id ∉ newDeps ∧
            Acyclic (redirect kernel.graph.DependsOn id (· ∈ newDeps))) ∧
    ∀ (map : UnorderedMap (List NodeId)) (src target : NodeId), ∃ found,
      hasPath src target map = .ok found ∧
        (found = true ↔ ReflTransGen (fun a b => b ∈ entry map a) src target) := by
  refine ⟨fun kernel hreach => ?_, fun map src target => hasPath_spec src target map⟩
  have hsound := hreach.consistent.sound
  exact ⟨hsound.acyclic, fun id hid newDeps =>
    setNodeDependencies_succeeds_iff hsound.acyclic hid newDeps⟩

/-- The reply reports an error. -/
def Reply.isError : Reply D → Bool
  | .void => false
  | .result (.error _) => true
  | .result (.ok _) => false
  | .value (.error _) => true
  | .value (.ok _) => false

/-- **Failed operations change nothing.**  A call that returns an error in a reachable state leaves
every part of the state as it was. -/
theorem failed_call_changes_nothing (hreach : Reachable kernel) {op : Op D} {reply : Reply D}
    {next : StatKernel D} (hstep : kernel.step op = .ok (reply, next))
    (herror : reply.isError = true) : next = kernel := by
  cases step_transition hreach.consistent hstep with
  | failed => rfl
  | notFound => rfl
  | _ => cases herror

end Reachable

section Instances

private def idA : NodeId := "a".toList
private def idB : NodeId := "b".toList
private def idC : NodeId := "c".toList

/-- A value, a formula over it and a collection over both, read once; then a new value. -/
private def sampleCalls : List (Op NanRat) :=
  [.createValueNode idA (Double.ofNat 1), .createFormulaNode idB "<a> + 2".toList,
    .createCollectionNode idC [idA, idB] .sum, .getNodeValue idC,
    .setNodeValue idA (Double.ofNat 5)]

/-- The collection reads `5 + (5 + 2)`, which is what three levels of recomputation give. -/
theorem sample_read : ∃ next,
    (after sampleCalls).getNodeValue idC = .ok (.ok (Double.ofNat 12), next) := by
  have hrecompute : recompute (after sampleCalls).graph.definition 3 idC =
      .ok (Double.ofNat 12) := by decide +kernel
  have hreturns : ((after sampleCalls).getNodeValue idC).isOk = true := by decide +kernel
  rcases (getNodeValue_eq_recompute (reachable_after sampleCalls) idC).2 (by decide +kernel) with
    ⟨value, next, hread, hvalue⟩ | ⟨habort, -⟩
  · have hthree := hvalue 3 (by decide +kernel)
    rw [hrecompute] at hthree
    exact ⟨next, Except.ok.inj hthree ▸ hread⟩
  · rw [habort] at hreturns
    cases hreturns

theorem sample_mirror :
    idC ∈ (after sampleCalls).graph.dependents idB ∧
      idB ∈ (after sampleCalls).graph.dependencies idC :=
  have hmirror := (edgeMaps_mirror (reachable_after sampleCalls)).2.2.1 idC idB
  have hdependency : idB ∈ (after sampleCalls).graph.dependencies idC := by decide +kernel
  ⟨hmirror.mp hdependency, hdependency⟩

/-- The collection may drop the value; the formula may not depend on the collection, which depends on
it. -/
theorem sample_acyclic :
    Acyclic (after sampleCalls).graph.DependsOn ∧
      Acyclic (redirect (after sampleCalls).graph.DependsOn idC (· ∈ [idB])) ∧
      ¬ ∃ g, (after sampleCalls).graph.setNodeDependencies idB [idC] = .ok (.ok (), g) := by
  obtain ⟨hacyclic, hrewiring⟩ :=
    acyclic_and_rewiring.1 (after sampleCalls) (reachable_after sampleCalls)
  refine ⟨hacyclic, ?_, fun haccepted => ?_⟩
  · have haccepted : ∃ g,
        (after sampleCalls).graph.setNodeDependencies idC [idB] = .ok (.ok (), g) := ⟨_, rfl⟩
    exact ((hrewiring idC (by decide +kernel) [idB]).mp haccepted).2.2.2
  · have hcycle := ((hrewiring idB (by decide +kernel) [idC]).mp haccepted).2.2.2
    have hdependency : idB ∈ (after sampleCalls).graph.dependencies idC := by decide +kernel
    refine hcycle idB (.tail (.single (Or.inl ⟨rfl, List.mem_singleton_self idC⟩)) ?_)
    exact Or.inr ⟨by decide +kernel, hdependency⟩

/-- Creating a node that exists fails and changes nothing. -/
theorem sample_failure : ∃ info, (after sampleCalls).step (.createValueNode idA (Double.ofNat 7)) =
    .ok (.result (.error info), after sampleCalls) := by
  have hexists : idA ∈ (after sampleCalls).graph.nodes := by decide +kernel
  obtain ⟨info, hadd⟩ := addNode_existing hexists
    { formula := none, value := Double.ofNat 7, type := .value, dirty := false }
  have hstep : (after sampleCalls).step (.createValueNode idA (Double.ofNat 7)) =
      .ok (.result (.error info), ⟨(after sampleCalls).graph, (after sampleCalls).executor⟩) := by
    simp only [step, createValueNode, Compiler.addValueNode, hadd]
    rfl
  exact ⟨info, failed_call_changes_nothing (reachable_after sampleCalls) hstep rfl ▸ hstep⟩

end Instances

end StatForge.StatKernel
