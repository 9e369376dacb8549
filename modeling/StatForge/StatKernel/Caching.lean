import StatForge.Lib.Traces
import StatForge.StatKernel.Histories
import StatForge.StatKernel.Propagation
import StatForge.StatKernel.Recorded

/-!
# Unchanged inputs skip computation

When a stored result is used again, over whole runs.

* `Disturbs` — a call changes a node, or one below it.
* `kept_of_step` — every other call leaves a clean node's record alone.
* `callInvocations` — the formulas that a call runs; `recordedStep_eq` ties them to the calls.
* `reevaluated_only_after_a_change` — between two runs of one formula there is such a change.
* `undisturbed_read_repeats` — without one, a second read runs nothing.
-/

namespace StatForge.StatKernel

open Relation ExceptBind StepMachine Dsl StatForge.StatKernel.Graph

variable {D : Type} [Double D]

/-- The call changes the kernel, and the node that it is about is `n` or one that `n` transitively
depends on; a reset is about all nodes. -/
def Disturbs (n : NodeId) (kernel : StatKernel D) (op : Op D) (next : StatKernel D) : Prop :=
  next ≠ kernel ∧
    (op = .reset ∨ ∃ m, op.target = some m ∧ ReflTransGen kernel.graph.DependsOn n m)

theorem Redefines.target {op : Op D} {id : NodeId} {dependencies : List NodeId} {node node' : Node D}
    (h : Redefines op id dependencies node node') : op.target = some id := by
  cases h <;> rfl

section Step

variable {kernel next : StatKernel D} {op : Op D} {reply : Reply D} {n : NodeId}

/-- A flag that stays as it is leaves the record as it is. -/
theorem lookup_eq_of_sameButFlag {g g' : Graph D} (h : g.SameButFlag g' n)
    (hclean : g.isDirty n = false) (hclean' : g'.isDirty n = false) :
    g'.nodes.lookup n = g.nodes.lookup n := by
  have hforget {g : Graph D} (hclean : g.isDirty n = false) :
      (g.nodes.lookup n).map (fun node => { node with dirty := false }) = g.nodes.lookup n := by
    cases hnode : g.nodes.lookup n with
    | none => rfl
    | some node =>
        rw [isDirty_of_lookup hnode] at hclean
        rw [Option.map_some, ← hclean]
  rw [SameButFlag, hforget hclean, hforget hclean'] at h
  exact h

/-- The record of a node below which nothing changes. -/
theorem SetsFlags.lookup_eq {id : NodeId} {dirty : NodeId → Prop}
    (h : kernel.SetsFlags id dirty next) (hn : n ≠ id) (hclean : kernel.graph.isDirty n = false)
    (hdirty : ¬ dirty n) : next.graph.nodes.lookup n = kernel.graph.nodes.lookup n := by
  have hclean' : next.graph.isDirty n = false := by
    rw [← Bool.not_eq_true, h.dirty]
    exact hdirty
  exact lookup_eq_of_sameButFlag (h.frame n hn) hclean hclean'

/-- **A call that does not disturb a clean node** leaves its record alone. -/
theorem kept_of_step (h : kernel.Consistent) (hn : n ∈ kernel.graph.nodes)
    (hclean : kernel.graph.isDirty n = false) (hstep : kernel.step op = .ok (reply, next)) :
    next.graph.nodes.lookup n = kernel.graph.nodes.lookup n ∨ Disturbs n kernel op next := by
  by_cases hsame : next = kernel
  · exact Or.inl (by rw [hsame])
  by_cases hreached : ∃ m, op.target = some m ∧ ReflTransGen kernel.graph.DependsOn n m
  · exact Or.inr ⟨hsame, Or.inr hreached⟩
  have habove {m : NodeId} (htarget : op.target = some m) :
      n ≠ m ∧ ¬ TransGen kernel.graph.DependsOn n m := by
    constructor
    · rintro rfl
      exact hreached ⟨n, htarget, .refl⟩
    · intro hpath
      exact hreached ⟨m, htarget, hpath.to_reflTransGen⟩
  cases step_transition h hstep with
  | failed => exact absurd rfl hsame
  | notFound _ => exact absurd rfl hsame
  | @createdValue id value hid =>
      have hne : n ≠ id := fun heq => hid (heq ▸ hn)
      exact Or.inl (by rw [lookup_setNode, if_neg hne])
  | @created _ id dependencies node hcreates hcreatable =>
      have hne : n ≠ id := fun heq => hcreatable.fresh (heq ▸ hn)
      exact Or.inl (by rw [lookup_rewire, lookup_setNode, if_neg hne])
  | sameValue _ _ _ => exact absurd rfl hsame
  | changedValue hnode htype _ _ hmarked =>
      obtain ⟨hne, hpath⟩ := habove rfl
      refine Or.inl ((setsFlags_changedValue h hnode htype hmarked).lookup_eq hne hclean ?_)
      simp [hclean, hpath]
  | redefined hredefines hnode haccepts _ hmarked =>
      obtain ⟨hne, hpath⟩ := habove hredefines.target
      refine Or.inl ((setsFlags_redefined h hredefines hnode haccepts hmarked).lookup_eq hne hclean ?_)
      simp [hclean, hne, hpath]
  | removed _ _ hremoved _ hmarked =>
      obtain ⟨hne, hpath⟩ := habove rfl
      refine Or.inl ((setsFlags_removed h hremoved hmarked).lookup_eq hne hclean ?_)
      rintro (⟨-, hdirty⟩ | ⟨d, hd, hd'⟩)
      · rw [hclean] at hdirty
        cases hdirty
      · -- A former dependent, or a node above one, is above the removed node.
        have hdependency := (h.sound.linked.mirror d _).mpr hd
        exact hpath (.tail' (reflTransGen_iff_eq_or_transGen.mpr (hd'.imp_left Eq.symm)) hdependency)
  | read _ hevaluated _ => exact Or.inl (refreshes_lookup_of_clean hevaluated.updates hclean)
  | evaluated _ hevaluated => exact Or.inl (refreshes_lookup_of_clean hevaluated.updates hclean)
  | reset => exact Or.inr ⟨hsame, Or.inl rfl⟩
  | setEvaluationType => exact Or.inl rfl

/-! ### The formulas that run -/

/-- The formulas that a call runs, in order. -/
def callInvocations (kernel : StatKernel D) : Op D → List (Invocation D)
  | .getNodeValue id => kernel.executor.readInvocations kernel.graph id
  | .evaluate => kernel.executor.evaluateInvocations kernel.graph
  | _ => []

/-- A call with its log.  Only reads and passes run formulas. -/
def recordedStep (kernel : StatKernel D) : Op D → Recorded.Run D (Reply D × StatKernel D)
  | .getNodeValue id => do
      let (result, graph) ← Recorded.getNodeValue kernel.executor kernel.graph id
      pure (.value result, { kernel with graph := graph })
  | .evaluate => do
      let (result, executor, graph) ← Recorded.evaluate kernel.executor kernel.graph
      pure (.result result, ⟨graph, executor⟩)
  | op => Recording.silent (kernel.step op)

/-- Without the log it is the call. -/
theorem recordedStep_eq (kernel : StatKernel D) (op : Op D) :
    kernel.recordedStep op = ⟨kernel.callInvocations op, kernel.step op⟩ := by
  cases op with
  | getNodeValue id =>
      rw [recordedStep, Recorded.getNodeValue_eq, callInvocations, step, getNodeValue]
      cases kernel.executor.getNodeValue kernel.graph id with
      | error reason => rfl
      | ok read =>
          obtain ⟨result, graph⟩ := read
          rw [Recording.ok_bind]
          dsimp only
          rw [Recording.pure_eq, List.append_nil]
          rfl
  | evaluate =>
      rw [recordedStep, Recorded.evaluate_eq, callInvocations, step, evaluate]
      cases kernel.executor.evaluate kernel.graph with
      | error reason => rfl
      | ok pass =>
          obtain ⟨result, executor, graph⟩ := pass
          rw [Recording.ok_bind]
          dsimp only
          rw [Recording.pure_eq, List.append_nil]
          rfl
  | _ => rfl

/-- A read that returns has a complete log. -/
theorem logged_of_read (h : kernel.Consistent) {id : NodeId} (hid : id ∈ kernel.graph.nodes)
    {g : Graph D} (hevaluated : kernel.graph.Evaluated [id] g) :
    kernel.graph.Logged (kernel.executor.readInvocations kernel.graph id) g := by
  have htraces := invocations_traces h.sound h.upToDate hid kernel.executor
  rw [← kernel.executor.readInvocations_eq hid] at htraces
  cases hrun : kernel.executor.evaluateNode kernel.graph id with
  | error reason =>
      have haborts := kernel.executor.evaluateNode_spec h.sound h.upToDate hid
      rw [hrun] at haborts
      exact absurd haborts (hevaluated.not_abortsAt h.sound (by simpa using hid) _)
  | ok g' =>
      rw [hrun] at htraces
      have hevaluated' := kernel.executor.evaluated_of_evaluateNode h.sound h.upToDate hrun
      rwa [hevaluated'.unique h.sound hevaluated] at htraces

/-- A pass that returns has a complete log. -/
theorem logged_of_pass (h : kernel.Consistent) (hstep : kernel.step .evaluate = .ok (reply, next)) :
    kernel.graph.Logged (kernel.executor.evaluateInvocations kernel.graph) next.graph := by
  rw [evaluate_step] at hstep
  cases hrun : kernel.executor.dirtyLeaves.foldlM kernel.executor.evaluateNode kernel.graph with
  | error reason =>
      rw [hrun] at hstep
      cases hstep
  | ok g =>
      rw [hrun] at hstep
      cases hstep
      have hleaves := (kernel.executor.foldlM_evaluateNode h.sound h.upToDate hrun).1
      have htraces := passInvocations_traces kernel.executor.dirtyLeaves
        kernel.executor.evaluateNode kernel.executor.invocations h.sound h.upToDate
        fun g' hsound' hcurrent' hupdates leaf hleaf =>
          have hmem := hupdates.mem_iff.mpr (hleaves leaf hleaf)
          ⟨kernel.executor.evaluateNode_spec hsound' hcurrent' hmem,
            invocations_traces hsound' hcurrent' hmem kernel.executor⟩
      rwa [hrun] at htraces

theorem readInvocations_missing {id : NodeId} (hid : id ∉ kernel.graph.nodes) :
    kernel.executor.readInvocations kernel.graph id = [] := by
  rw [Executor.readInvocations]
  cases hnode : kernel.graph.node id with
  | error reason => rfl
  | ok node => exact absurd (Finmap.mem_of_lookup_eq_some (node_eq_ok_iff.mp hnode)) hid

/-- A read of an existing node that returns. -/
theorem evaluated_of_read (h : kernel.Consistent) {id : NodeId} (hid : id ∈ kernel.graph.nodes)
    (hstep : kernel.step (.getNodeValue id) = .ok (reply, next)) :
    kernel.graph.Evaluated [id] next.graph ∧ ∃ node, next.graph.nodes.lookup id = some node ∧
      reply = .value (.ok node.value) := by
  rw [step, getNodeValue] at hstep
  rcases kernel.executor.getNodeValue_spec h.sound h.upToDate hid with
    ⟨g, node, hevaluated, hnode, hrun⟩ | ⟨hrun, -⟩
  · rw [hrun] at hstep
    cases hstep
    exact ⟨hevaluated, node, hnode, rfl⟩
  · rw [hrun] at hstep
    cases hstep

/-- A clean node is read as it is stored. -/
theorem read_of_clean {id : NodeId} {node : Node D} (hnode : kernel.graph.nodes.lookup id = some node)
    (hclean : node.dirty = false) :
    kernel.step (.getNodeValue id) = .ok (.value (.ok node.value), kernel) ∧
      kernel.callInvocations (.getNodeValue id) = [] := by
  have hid : id ∈ kernel.graph.nodes := Finmap.mem_of_lookup_eq_some hnode
  constructor
  · simp [step, getNodeValue, Executor.getNodeValue, hid, node_of_lookup hnode, hclean]
  · simp [callInvocations, Executor.readInvocations, node_of_lookup hnode, hclean]

theorem Graph.Logged.flags {g g' : Graph D} {log : List (Invocation D)} (h : g.Logged log g')
    (hn : n ∈ log.map Invocation.id) :
    g.isDirty n = true ∧ g'.isDirty n = false ∧ n ∈ g'.nodes := by
  obtain ⟨hdirty, hclean⟩ := (h.mem_iff n).mp hn
  exact ⟨hdirty, hclean, h.updates.mem_iff.mpr (mem_of_isDirty hdirty)⟩

/-- **A formula that a call runs** belongs to a dirty node, which the call leaves clean. -/
theorem flags_of_invoked (h : kernel.Consistent) (hstep : kernel.step op = .ok (reply, next))
    (hn : n ∈ (kernel.callInvocations op).map Invocation.id) :
    kernel.graph.isDirty n = true ∧ next.graph.isDirty n = false ∧ n ∈ next.graph.nodes := by
  cases op with
  | getNodeValue id =>
      by_cases hid : id ∈ kernel.graph.nodes
      · have hlogged := logged_of_read h hid (evaluated_of_read h hid hstep).1
        exact hlogged.flags hn
      · rw [callInvocations, readInvocations_missing hid] at hn
        exact absurd hn List.not_mem_nil
  | evaluate => exact (logged_of_pass h hstep).flags hn
  | _ => exact absurd hn List.not_mem_nil

end Step

/-! ### Runs -/

section Runs

variable {kernel kernel' next : StatKernel D} {op : Op D} {reply : Reply D} {n : NodeId}
  {events : List (Op D × Reply D)}

/-- A run that does not disturb a clean node leaves its record alone. -/
theorem kept_of_ran (h : kernel.Consistent) (hn : n ∈ kernel.graph.nodes)
    (hclean : kernel.graph.isDirty n = false) (hran : Ran step kernel events kernel') :
    (kernel'.Consistent ∧ kernel'.graph.nodes.lookup n = kernel.graph.nodes.lookup n) ∨
      Happens step (Disturbs n) kernel events := by
  refine Ran.kept_or_happens (fun state : StatKernel D => state.Consistent ∧
    state.graph.nodes.lookup n = kernel.graph.nodes.lookup n) ?_ ⟨h, rfl⟩ hran
  rintro state op reply next ⟨hstate, hlookup⟩ hstep
  have hmem : n ∈ state.graph.nodes := by
    rw [← Finmap.lookup_isSome, hlookup, Finmap.lookup_isSome]
    exact hn
  have hflag : state.graph.isDirty n = false := by rw [isDirty_congr hlookup, hclean]
  refine (kept_of_step hstate hmem hflag hstep).imp_left fun hkept => ⟨?_, hkept.trans hlookup⟩
  exact (step_transition hstate hstep).consistent hstate

/-- **Formulas run again only after a change.**  If two calls of a run evaluate the formula of one node,
then a call between them has changed the node or a node that it transitively depended on at that
moment, or has reset the kernel. -/
theorem reevaluated_only_after_a_change {kernel₁ kernel₂ kernel₃ : StatKernel D} {op' : Op D}
    {reply' : Reply D} (hreach : Reachable kernel) (hfirst : kernel.step op = .ok (reply, kernel₁))
    (hran : Ran step kernel₁ events kernel₂) (hsecond : kernel₂.step op' = .ok (reply', kernel₃))
    (hn : n ∈ (kernel.callInvocations op).map Invocation.id)
    (hn' : n ∈ (kernel₂.callInvocations op').map Invocation.id) :
    Happens step (Disturbs n) kernel₁ events := by
  have h := hreach.consistent
  have h₁ := (step_transition h hfirst).consistent h
  obtain ⟨-, hclean, hmem⟩ := flags_of_invoked h hfirst hn
  rcases kept_of_ran h₁ hmem hclean hran with ⟨h₂, hlookup⟩ | hhappens
  · -- Nothing has happened, so the node is still clean, and clean nodes run no formula.
    have hdirty' := (flags_of_invoked h₂ hsecond hn').1
    rw [isDirty_congr hlookup, hclean] at hdirty'
    cases hdirty'
  · exact hhappens

/-- **Unchanged inputs skip computation.**  After a successful read of a node, and any calls that change
neither the node nor one that it transitively depends on, a second read has the same value, runs no
formula and leaves the kernel as it is. -/
theorem undisturbed_read_repeats {kernel₁ kernel₂ : StatKernel D} {id : NodeId} {value : D}
    (hreach : Reachable kernel)
    (hfirst : kernel.step (.getNodeValue id) = .ok (.value (.ok value), kernel₁))
    (hran : Ran step kernel₁ events kernel₂) (hquiet : ¬ Happens step (Disturbs id) kernel₁ events) :
    kernel₂.step (.getNodeValue id) = .ok (.value (.ok value), kernel₂) ∧
      kernel₂.callInvocations (.getNodeValue id) = [] := by
  have h := hreach.consistent
  have hid : id ∈ kernel.graph.nodes := by
    by_contra hid
    obtain ⟨info, hmissing⟩ := kernel.executor.getNodeValue_missing hid
    rw [step, getNodeValue, hmissing] at hfirst
    cases hfirst
  obtain ⟨hevaluated, node, hnode, hreply⟩ := evaluated_of_read h hid hfirst
  have hclean : kernel₁.graph.isDirty id = false := hevaluated.clean id (by simp)
  have hmem : id ∈ kernel₁.graph.nodes := hevaluated.updates.mem_iff.mpr hid
  obtain rfl : value = node.value := Except.ok.inj (Reply.value.inj hreply)
  rcases kept_of_ran ((step_transition h hfirst).consistent h) hmem hclean hran with
    ⟨-, hlookup⟩ | hhappens
  · rw [isDirty_of_lookup hnode] at hclean
    exact read_of_clean (hlookup.trans hnode) hclean
  · exact absurd hhappens hquiet

end Runs

section Instances

private def stockId : NodeId := "stock".toList
private def worthId : NodeId := "worth".toList
private def limitId : NodeId := "limit".toList

/-- A formula over one value. -/
private def worthCalls : List (Op NanRat) :=
  [.createValueNode stockId (Double.ofNat 3), .createFormulaNode worthId "<stock> * 2".toList]

/-- The next call behind a sequence. -/
private theorem step_after (ops : List (Op D)) (op : Op D) (hops : (run step fresh ops).isOk = true)
    (hop : ((after ops).step op).isOk = true) :
    ∃ reply, (after ops).step op = .ok (reply, after (ops ++ [op])) := by
  obtain ⟨replies, kernel, hrun⟩ := exists_run step fresh ops hops
  have hkernel : after ops = kernel := by rw [after, hrun]
  rw [hkernel] at hop ⊢
  cases hstep : kernel.step op with
  | error reason =>
      rw [hstep] at hop
      cases hop
  | ok outcome =>
      obtain ⟨reply, next⟩ := outcome
      have hlast : run step kernel [op] = .ok ([reply], next) := run_cons_ok hstep
      refine ⟨reply, ?_⟩
      rw [after, run_append_ok hrun hlast]

/-- The formula runs a second time, because its value has changed. -/
theorem worth_runs_again : ∃ reply, Happens step (Disturbs worthId)
    (after (worthCalls ++ [.getNodeValue worthId]))
    [(.setNodeValue stockId (Double.ofNat 4), reply)] := by
  obtain ⟨_, hfirst⟩ := step_after worthCalls (.getNodeValue worthId) (by decide +kernel)
    (by decide +kernel)
  obtain ⟨reply, hset⟩ := step_after (worthCalls ++ [.getNodeValue worthId])
    (.setNodeValue stockId (Double.ofNat 4)) (by decide +kernel) (by decide +kernel)
  obtain ⟨_, hsecond⟩ := step_after (worthCalls ++ [.getNodeValue worthId] ++
    [.setNodeValue stockId (Double.ofNat 4)]) (.getNodeValue worthId) (by decide +kernel)
    (by decide +kernel)
  refine ⟨reply, ?_⟩
  exact reevaluated_only_after_a_change (reachable_after _) hfirst (ran_singleton.mpr hset) hsecond
    (by decide +kernel) (by decide +kernel)

/-- A new node does not disturb the formula. -/
theorem new_node_does_not_disturb : ∃ (value : NanRat) (next : StatKernel NanRat),
    next.step (.getNodeValue worthId) = .ok (.value (.ok value), next) ∧
      next.callInvocations (.getNodeValue worthId) = [] := by
  obtain ⟨reply, hread⟩ := step_after worthCalls (.getNodeValue worthId) (by decide +kernel)
    (by decide +kernel)
  obtain ⟨_, hcreate⟩ := step_after (worthCalls ++ [.getNodeValue worthId])
    (.createValueNode limitId (Double.ofNat 9)) (by decide +kernel) (by decide +kernel)
  have hmem : worthId ∈ (after worthCalls).graph.nodes := by decide +kernel
  have hlimit : limitId ∉ (after (worthCalls ++ [.getNodeValue worthId])).graph.nodes := by
    decide +kernel
  have hreach := reachable_after (D := NanRat) (worthCalls ++ [.getNodeValue worthId])
  obtain ⟨-, node, -, rfl⟩ := evaluated_of_read (reachable_after _).consistent hmem hread
  refine ⟨node.value, _, undisturbed_read_repeats (reachable_after _) hread
    (ran_singleton.mpr hcreate) ?_⟩
  rw [happens_singleton]
  rintro ⟨next, -, -, hreset | ⟨m, htarget, hpath⟩⟩
  · cases hreset
  · obtain rfl := Option.some.inj htarget
    rcases hpath.cases_tail with heq | ⟨n, -, hdependency⟩
    · exact absurd heq (by decide)
    · exact hlimit (hreach.consistent.sound.linked.dependency_mem hdependency)

end Instances

end StatForge.StatKernel
