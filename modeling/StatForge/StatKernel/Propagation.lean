import StatForge.StatKernel.ReachableStates

/-!
# Exact propagation of the dirty flags

Which flags a successful mutation changes, and that it changes no other record.

* `SetsFlags` — the flags after a call, and the frame of the call.
* `dirty_propagation_exact` — a mutation sets the flags of the transitive dependents of its node and
  no others; and the marking always ends.
-/

namespace StatForge.StatKernel

open Relation Successors ExceptBind Dsl StatForge.StatKernel.Graph

variable {D : Type} [Double D]

namespace Graph

variable {g g' g'' : Graph D} {id n d : NodeId} {node : Node D}

theorem Sound.hasFormula_of_transGen (h : g.Sound) (hpath : TransGen g.DependsOn n d) :
    g.HasFormula n := by
  obtain ⟨_, hstep, -⟩ := TransGen.head'_iff.mp hpath
  exact h.hasFormula_of_dependency hstep

/-- What a path to a node with a formula starts from has a formula. -/
theorem Sound.hasFormula_of_reflTransGen (h : g.Sound) (hd : g.HasFormula d)
    (hpath : ReflTransGen g.DependsOn n d) : g.HasFormula n := by
  rcases reflTransGen_iff_eq_or_transGen.mp hpath with rfl | hpath
  · exact hd
  · exact h.hasFormula_of_transGen hpath

/-! ### The frame -/

/-- A node is in both graphs or in neither, and its records differ in the flag at most. -/
def SameButFlag (g g' : Graph D) (n : NodeId) : Prop :=
  (g'.nodes.lookup n).map (fun node => { node with dirty := false }) =
    (g.nodes.lookup n).map fun node => { node with dirty := false }

theorem SameButFlag.of_lookup (h : g'.nodes.lookup n = g.nodes.lookup n) : g.SameButFlag g' n := by
  rw [SameButFlag, h]

theorem SameButFlag.trans (h : g.SameButFlag g' n) (h' : g'.SameButFlag g'' n) :
    g.SameButFlag g'' n :=
  Eq.trans h' h

theorem SameButFlag.marks (h : Updates Marks g g') (n : NodeId) : g.SameButFlag g' n := by
  rcases h.node n with hsame | ⟨node, _, hnode, ⟨-, -, rfl⟩, hnode'⟩
  · exact .of_lookup hsame
  · rw [SameButFlag, hnode, hnode', Option.map_some, Option.map_some]

end Graph

/-! ### One mutation -/

/-- After the call exactly the given nodes are dirty, and apart from the flags every other record than
that of `id` is as before. -/
structure SetsFlags (kernel : StatKernel D) (id : NodeId) (dirty : NodeId → Prop)
    (next : StatKernel D) : Prop where
  dirty : ∀ n, next.graph.isDirty n = true ↔ dirty n
  frame : ∀ n, n ≠ id → kernel.graph.SameButFlag next.graph n

section Mutations

variable {kernel next : StatKernel D} {id : NodeId} {node node' : Node D}

/-- A new value: the nodes strictly above it become dirty. -/
theorem setsFlags_changedValue (h : kernel.Consistent) {value : D}
    (hnode : kernel.graph.nodes.lookup id = some node) (htype : node.type = .value)
    (hmarked : (kernel.graph.setNode id { node with value := value }).Marked
      kernel.executor.dirtyLeaves [id] next.graph next.executor.dirtyLeaves) :
    kernel.SetsFlags id
      (fun n => kernel.graph.isDirty n = true ∨ TransGen kernel.graph.DependsOn n id) next := by
  have hsound := h.sound.setValue hnode value
  constructor
  · intro n
    rw [hmarked.dirty, isDirty_setNode_of_eq hnode (by rfl) n]
    simp only [List.mem_singleton, exists_eq_left]
    apply or_congr_right
    constructor
    · rintro ⟨hformula, hpath⟩
      rcases reflTransGen_iff_eq_or_transGen.mp hpath with rfl | hpath
      · -- The node itself is a value node and stays clean.
        obtain ⟨node', hnode', htype'⟩ := hformula
        rw [lookup_setNode_self] at hnode'
        obtain rfl := Option.some.inj hnode'
        exact absurd htype htype'
      · exact hpath
    · intro hpath
      exact ⟨hsound.hasFormula_of_transGen hpath, TransGen.to_reflTransGen hpath⟩
  · intro n hn
    refine SameButFlag.trans (.of_lookup ?_) (.marks hmarked.updates n)
    rw [lookup_setNode, if_neg hn]

/-- A new definition: the node and everything above it become dirty. -/
theorem setsFlags_redefined (h : kernel.Consistent) {op : Op D} {dependencies : List NodeId}
    (hredefines : Redefines op id dependencies node node')
    (hnode : kernel.graph.nodes.lookup id = some node)
    (haccepts : kernel.graph.Accepts id dependencies false)
    (hmarked : ((kernel.graph.rewire id dependencies).setNode id node').Marked
      kernel.executor.dirtyLeaves [id] next.graph next.executor.dirtyLeaves) :
    kernel.SetsFlags id (fun n => kernel.graph.isDirty n = true ∨ n = id ∨
      TransGen kernel.graph.DependsOn n id) next := by
  have hsound := h.sound.redefine haccepts (hredefines.typed (h.sound.typed id node hnode))
  have hformula : ((kernel.graph.rewire id dependencies).setNode id node').HasFormula id :=
    ⟨node', lookup_setNode_self _ _ _, hredefines.type_eq ▸ hredefines.type_ne_value⟩
  -- The edges out of the node have changed; no path to it uses them.
  have hpaths (n : NodeId) :
      ReflTransGen ((kernel.graph.rewire id dependencies).setNode id node').DependsOn n id ↔
        ReflTransGen kernel.graph.DependsOn n id := by
    show ReflTransGen (kernel.graph.rewire id dependencies).DependsOn n id ↔ _
    rw [dependsOn_rewire]
    exact reflTransGen_redirect_to_self
  constructor
  · intro n
    have hflag : ((kernel.graph.rewire id dependencies).setNode id node').isDirty n =
        kernel.graph.isDirty n :=
      isDirty_setNode_of_eq (g := kernel.graph.rewire id dependencies) hnode hredefines.dirty_eq n
    rw [hmarked.dirty, hflag]
    simp only [List.mem_singleton, exists_eq_left]
    apply or_congr_right
    rw [hpaths, ← @eq_comm _ id n, ← reflTransGen_iff_eq_or_transGen]
    constructor
    · rintro ⟨-, hpath⟩
      exact hpath
    · intro hpath
      exact ⟨hsound.hasFormula_of_reflTransGen hformula ((hpaths n).mpr hpath), hpath⟩
  · intro n hn
    refine SameButFlag.trans (.of_lookup ?_) (.marks hmarked.updates n)
    rw [lookup_setNode, if_neg hn, lookup_rewire]

/-- A removal: the former dependents and everything above them become dirty. -/
theorem setsFlags_removed (h : kernel.Consistent) {g : Graph D}
    (hremoved : kernel.graph.Removed id g)
    (hmarked : g.Marked (kernel.executor.dirtyLeaves.erase id) (kernel.graph.dependents id)
      next.graph next.executor.dirtyLeaves) :
    kernel.SetsFlags id (fun n => (n ≠ id ∧ kernel.graph.isDirty n = true) ∨
      ∃ d ∈ kernel.graph.dependents id, n = d ∨ TransGen kernel.graph.DependsOn n d) next := by
  have hlinked := h.sound.linked
  have hlookup (n : NodeId) (hn : n ≠ id) : g.nodes.lookup n = kernel.graph.nodes.lookup n := by
    rw [hremoved.nodes, Finmap.lookup_erase_ne hn]
  have hdependsOn : g.DependsOn = fun x y => x ≠ id ∧ y ≠ id ∧ kernel.graph.DependsOn x y := by
    funext x y
    exact propext (hremoved.mem_dependencies hlinked)
  constructor
  · intro n
    rw [hmarked.dirty]
    apply or_congr
    · by_cases hn : n = id
      · subst hn
        simp [isDirty, hremoved.nodes]
      · rw [isDirty_congr (hlookup n hn)]
        simp [hn]
    · constructor
      · rintro ⟨-, d, hd, hpath⟩
        rw [hdependsOn] at hpath
        have hold : ReflTransGen kernel.graph.DependsOn n d :=
          ReflTransGen.mono (fun _ _ hstep => hstep.2.2) _ _ hpath
        exact ⟨d, hd, (reflTransGen_iff_eq_or_transGen.mp hold).imp_left Eq.symm⟩
      · rintro ⟨d, hd, hpath⟩
        have hold : ReflTransGen kernel.graph.DependsOn n d :=
          reflTransGen_iff_eq_or_transGen.mpr (hpath.imp_left Eq.symm)
        have hdependency : kernel.graph.DependsOn d id := (hlinked.mirror d id).mpr hd
        have habove : TransGen kernel.graph.DependsOn n id := .tail' hold hdependency
        have hn : n ≠ id := by
          rintro rfl
          exact h.sound.acyclic n habove
        obtain ⟨node, hnode, htype⟩ := h.sound.hasFormula_of_transGen habove
        refine ⟨⟨node, (hlookup n hn).trans hnode, htype⟩, d, hd, ?_⟩
        -- The path has not passed through the removed node, so it is still there.
        rw [hdependsOn]
        exact h.sound.acyclic.reflTransGen_avoids hdependency hold
  · intro n hn
    exact SameButFlag.trans (.of_lookup (hlookup n hn)) (.marks hmarked.updates n)

end Mutations

/-! ### All mutations -/

/-- The calls that change an existing node. -/
def Op.isMutation : Op D → Bool
  | .setNodeValue _ _ => true
  | .setNodeFormula _ _ => true
  | .setNodeDependencies _ _ => true
  | .removeNode _ => true
  | _ => false

/-- **Exact dirty propagation.**  In every reachable state a successful mutation sets exactly the flags of
the transitive dependents of its node, together with the node itself if its definition changes, and
changes no other record; an equal value changes nothing at all.  Marking any node ends, and a
mutation does not return only if compiling its text does not. -/
theorem dirty_propagation_exact {kernel : StatKernel D} (hreach : Reachable kernel) :
    (∀ id value next, kernel.step (.setNodeValue id value) = .ok (.result (.ok ()), next) →
      ∃ node, kernel.graph.nodes.lookup id = some node ∧
        (Double.eq node.value value = true → next = kernel) ∧
        (Double.eq node.value value = false → kernel.SetsFlags id (fun n =>
          kernel.graph.isDirty n = true ∨ TransGen kernel.graph.DependsOn n id) next)) ∧
    (∀ id text next, kernel.step (.setNodeFormula id text) = .ok (.result (.ok ()), next) →
      kernel.SetsFlags id (fun n => kernel.graph.isDirty n = true ∨ n = id ∨
        TransGen kernel.graph.DependsOn n id) next) ∧
    (∀ id dependencies next,
      kernel.step (.setNodeDependencies id dependencies) = .ok (.result (.ok ()), next) →
        kernel.SetsFlags id (fun n => kernel.graph.isDirty n = true ∨ n = id ∨
          TransGen kernel.graph.DependsOn n id) next) ∧
    (∀ id next, kernel.step (.removeNode id) = .ok (.result (.ok ()), next) →
      kernel.SetsFlags id (fun n => (n ≠ id ∧ kernel.graph.isDirty n = true) ∨
        ∃ d ∈ kernel.graph.dependents id, n = d ∨ TransGen kernel.graph.DependsOn n d) next) ∧
    (∀ id ∈ kernel.graph.nodes, ∃ executor g,
      kernel.executor.markDirty kernel.graph id = .ok (executor, g)) ∧
    ∀ (op : Op D) (reason : Abort), op.isMutation = true → kernel.step op = .error reason →
      ∃ id text, op = .setNodeFormula id text ∧ compileAst (D := D) id text = .error reason := by
  have h := hreach.consistent
  refine ⟨fun id value next hstep => ?_, fun id text next hstep => ?_,
    fun id dependencies next hstep => ?_, fun id next hstep => ?_, fun id hid => ?_,
    fun op reason hmutation hstep => ?_⟩
  · cases step_transition h hstep with
    | created hcreates => cases hcreates
    | sameValue hnode _ heq => exact ⟨_, hnode, fun _ => rfl, fun hne => by simp [heq] at hne⟩
    | changedValue hnode htype hne _ hmarked =>
        exact ⟨_, hnode, fun heq => by simp [hne] at heq,
          fun _ => setsFlags_changedValue h hnode htype hmarked⟩
    | redefined hredefines => cases hredefines
  · cases step_transition h hstep with
    | created hcreates => cases hcreates
    | redefined hredefines hnode haccepts _ hmarked =>
        cases hredefines with
        | formula htype hcompile =>
            exact setsFlags_redefined h (.formula htype hcompile) hnode haccepts hmarked
  · cases step_transition h hstep with
    | created hcreates => cases hcreates
    | redefined hredefines hnode haccepts _ hmarked =>
        cases hredefines with
        | dependencies htype =>
            exact setsFlags_redefined h (.dependencies htype) hnode haccepts hmarked
  · cases step_transition h hstep with
    | created hcreates => cases hcreates
    | redefined hredefines => cases hredefines
    | removed _ _ hremoved _ hmarked => exact setsFlags_removed h hremoved hmarked
  · have hup : kernel.graph.DirtyUpExcept [id] :=
      fun n d hd hdirty => Or.inl (h.upToDate.dirtyUp n d hd hdirty)
    obtain ⟨executor, g, hrun, -⟩ := markDirty_spec h.sound hid hup kernel.executor
    exact ⟨executor, g, hrun⟩
  · cases step_aborts h hstep with
    | setNodeFormula hcompile => exact ⟨_, _, rfl, hcompile⟩
    | _ => cases hmutation

section Instances

private def lifeId : NodeId := "life".toList
private def totalId : NodeId := "total".toList
private def listId : NodeId := "list".toList

/-- A chain of a value, a formula and a collection, all of them read. -/
private def chainCalls : List (Op NanRat) :=
  [.createValueNode lifeId (Double.ofNat 1), .createFormulaNode totalId "<life> * 2".toList,
    .createCollectionNode listId [totalId] .sum, .getNodeValue listId]

/-- A new value at the bottom of the chain makes its top dirty, and leaves the value that is stored
there alone. -/
theorem sample_propagation : ∃ next,
    (after chainCalls).step (.setNodeValue lifeId (Double.ofNat 5)) = .ok (.result (.ok ()), next) ∧
      next.graph.isDirty listId = true ∧ (after chainCalls).graph.SameButFlag next.graph listId := by
  have hreach := reachable_after chainCalls
  have hsucceeds : (after chainCalls).Succeeds (.setNodeValue lifeId (Double.ofNat 5)) := by
    decide +kernel
  have hvalue : ((after chainCalls).graph.nodes.lookup lifeId).map
      (fun node => Double.eq node.value (Double.ofNat 5)) = some false := by decide +kernel
  have htotal : lifeId ∈ (after chainCalls).graph.dependencies totalId := by decide +kernel
  have hlist : totalId ∈ (after chainCalls).graph.dependencies listId := by decide +kernel
  have hne : listId ≠ lifeId := by decide
  generalize after chainCalls = kernel at *
  obtain ⟨next, hstep⟩ := hsucceeds
  obtain ⟨node, hnode, -, hflags⟩ := (dirty_propagation_exact hreach).1 lifeId _ next hstep
  rw [hnode] at hvalue
  have hset := hflags (Option.some.inj hvalue)
  exact ⟨next, hstep, (hset.dirty listId).mpr (Or.inr (.tail (.single hlist) htotal)),
    hset.frame listId hne⟩

end Instances

end StatForge.StatKernel
