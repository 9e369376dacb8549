import StatForge.StatKernel.Compiling
import StatForge.StatKernel.StatKernel
import StatForge.StatKernel.Traversal

/-!
# The transitions of the kernel

Everything that one call can do to a kernel whose graph is sound and up to date, and that such a
kernel stays one.

* `Transition` — the outcomes of a call, with the marking and evaluation they entail.
* `step_transition` — a call that returns makes one of these transitions.
* `Transition.consistent`, `Reachable.consistent` — every reachable kernel is consistent.
-/

namespace StatForge.StatKernel

open Relation Successors ExceptBind Dsl StatForge.StatKernel.Graph

variable {D : Type} [Double D]

/-! ### The executor -/

namespace Executor

variable {g g' : Graph D} {id : NodeId}

theorem evaluateNode_spec (hsound : g.Sound) (hcurrent : g.UpToDate) (hid : id ∈ g.nodes)
    (executor : Executor) : g.EvaluationResult [id] (executor.evaluateNode g id) := by
  unfold evaluateNode
  cases executor.evaluateImpl with
  | iterative => exact evaluateIterative_spec hsound hcurrent hid
  | recursive =>
      rw [← evaluateIterative_eq_evaluateRecursive hsound hcurrent]
      exact evaluateIterative_spec hsound hcurrent hid

/-- Evaluating a missing node fails the assertion of `Graph::node`. -/
theorem evaluateNode_missing (hid : id ∉ g.nodes) (executor : Executor) :
    executor.evaluateNode g id = .error .missingNode := by
  rw [← Finmap.lookup_eq_none] at hid
  unfold evaluateNode
  cases executor.evaluateImpl <;> simp [evaluateIterative, evaluateRecursive, Graph.node, hid]

theorem mem_of_evaluateNode (executor : Executor) (h : executor.evaluateNode g id = .ok g') :
    id ∈ g.nodes := by
  by_contra hid
  rw [evaluateNode_missing hid] at h
  cases h

theorem evaluated_of_evaluateNode (executor : Executor) (hsound : g.Sound) (hcurrent : g.UpToDate)
    (h : executor.evaluateNode g id = .ok g') : g.Evaluated [id] g' := by
  have hresult := executor.evaluateNode_spec hsound hcurrent (executor.mem_of_evaluateNode h)
  rw [h] at hresult
  exact hresult

/-- An evaluation pass that returns has found and evaluated every node of its list. -/
theorem foldlM_evaluateNode (executor : Executor) {targets : List NodeId} (hsound : g.Sound)
    (hcurrent : g.UpToDate) (hrun : targets.foldlM executor.evaluateNode g = .ok g') :
    (∀ id ∈ targets, id ∈ g.nodes) ∧ g.Evaluated targets g' := by
  induction targets generalizing g with
  | nil =>
      obtain rfl := Except.ok.inj hrun
      exact ⟨by simp, Evaluated.refl hcurrent (by simp)⟩
  | cons id targets ih =>
      rw [List.foldlM_cons, bind_eq_ok] at hrun
      obtain ⟨g₁, hfirst, hrest⟩ := hrun
      have hevaluated := executor.evaluated_of_evaluateNode hsound hcurrent hfirst
      obtain ⟨hexist, htargets⟩ := ih (hevaluated.sound hsound) hevaluated.upToDate hrest
      refine ⟨fun n hn => ?_, hevaluated.trans htargets⟩
      rcases List.mem_cons.mp hn with rfl | hn
      · exact executor.mem_of_evaluateNode hfirst
      · exact hevaluated.updates.mem_iff.mp (hexist n hn)

/-- Reading an existing node evaluates it, whether or not it is dirty. -/
theorem getNodeValue_spec (executor : Executor) (hsound : g.Sound) (hcurrent : g.UpToDate)
    (hid : id ∈ g.nodes) :
    (∃ g' node, g.Evaluated [id] g' ∧ g'.nodes.lookup id = some node ∧
      executor.getNodeValue g id = .ok (.ok node.value, g')) ∨
    (executor.getNodeValue g id = .error .unreachable ∧ g.AbortsAt [id] .unreachable) := by
  obtain ⟨node, hnode⟩ := Finmap.mem_iff.mp hid
  unfold getNodeValue
  rw [if_neg (by simp [hid]), node_of_lookup hnode, ok_bind]
  cases hdirty : node.dirty with
  | false =>
      refine Or.inl ⟨g, node, Evaluated.refl hcurrent fun n hn => ?_, hnode, ?_⟩
      · rw [List.mem_singleton.mp hn, isDirty_of_lookup hnode, hdirty]
      · simp [node_of_lookup hnode]
  | true =>
      rw [if_pos rfl]
      cases hrun : executor.evaluateNode g id with
      | error reason =>
          have hresult := executor.evaluateNode_spec hsound hcurrent hid
          rw [hrun] at hresult
          obtain rfl := hresult.1
          exact Or.inr ⟨rfl, hresult⟩
      | ok g' =>
          have hevaluated := executor.evaluated_of_evaluateNode hsound hcurrent hrun
          obtain ⟨node', hnode'⟩ := Finmap.mem_iff.mp (hevaluated.updates.mem_iff.mpr hid)
          exact Or.inl ⟨g', node', hevaluated, hnode', by simp [node_of_lookup hnode']⟩

theorem getNodeValue_missing (hid : id ∉ g.nodes) (executor : Executor) :
    ∃ info, executor.getNodeValue g id = .ok (.error info, g) :=
  ⟨_, if_pos (by simp [hid])⟩

end Executor

/-- Marking a list of existing nodes, from a graph whose flags are closed under dependents. -/
theorem foldlM_markDirty (kernel : StatKernel D) {sources : List NodeId}
    (hsound : kernel.graph.Sound) (hup : kernel.graph.DirtyUpExcept [])
    (hexist : ∀ id ∈ sources, id ∈ kernel.graph.nodes) :
    ∃ kernel', sources.foldlM (fun kernel id => kernel.markDirty id) kernel = .ok kernel' ∧
      kernel'.executor.evaluateImpl = kernel.executor.evaluateImpl ∧
      kernel.graph.Marked kernel.executor.dirtyLeaves sources kernel'.graph
        kernel'.executor.dirtyLeaves := by
  induction sources generalizing kernel with
  | nil => exact ⟨kernel, rfl, rfl, Marked.refl _ _⟩
  | cons id sources ih =>
      have hupId : kernel.graph.DirtyUpExcept [id] :=
        fun n d hd hdirty => (hup n d hd hdirty).imp_right fun hn => absurd hn List.not_mem_nil
      obtain ⟨executor₁, g₁, hrun, himpl, hmarked⟩ :=
        markDirty_spec hsound (hexist id (by simp)) hupId kernel.executor
      obtain ⟨kernel', hrest, himpl', hmarked'⟩ := ih ⟨g₁, executor₁⟩
        (marks_sound hmarked.updates hsound)
        (fun n d hd hdirty => Or.inl (hmarked.dirtyUp hsound hupId hd hdirty))
        (fun n hn => hmarked.updates.mem_iff.mpr (hexist n (by simp [hn])))
      refine ⟨kernel', ?_, himpl'.trans himpl, hmarked.trans hmarked'⟩
      rw [List.foldlM_cons, markDirty, hrun, ok_bind]
      exact hrest

/-! ### Transitions -/

/-- The calls that create a node with dependencies, with what they insert. -/
inductive Creates : Op D → NodeId → List NodeId → Node D → Prop
  | formula {id : NodeId} {text : StdString} {ast : ExpressionTree D}
      (hcompile : compileAst id text = .ok (.ok ast)) :
      Creates (.createFormulaNode id text) id (extractDependencies ast) (formulaNode ast)
  | collection {id : NodeId} {dependencies : List NodeId} {operation : CollectionOperation}
      (hoperation : ∀ code, operation ≠ .other code) :
      Creates (.createCollectionNode id dependencies operation) id dependencies
        (collectionNode id operation)

/-- The calls that change a definition, with the node before and after. -/
inductive Redefines : Op D → NodeId → List NodeId → Node D → Node D → Prop
  | formula {id : NodeId} {text : StdString} {ast : ExpressionTree D} {node : Node D}
      (htype : node.type = .formula) (hcompile : compileAst id text = .ok (.ok ast)) :
      Redefines (.setNodeFormula id text) id (extractDependencies ast) node
        { node with formula := some (.expression ast) }
  | dependencies {id : NodeId} {dependencies : List NodeId} {node : Node D}
      (htype : node.type = .collection) :
      Redefines (.setNodeDependencies id dependencies) id dependencies node node

/-- The outcomes of a call. -/
inductive Transition (kernel : StatKernel D) : Op D → Reply D → StatKernel D → Prop
  | failed {op : Op D} {info : ErrorInfo} :
      Transition kernel op (.result (.error info)) kernel
  | notFound {id : NodeId} {info : ErrorInfo} (hid : id ∉ kernel.graph.nodes) :
      Transition kernel (.getNodeValue id) (.value (.error info)) kernel
  | createdValue {id : NodeId} {value : D} (hid : id ∉ kernel.graph.nodes) :
      Transition kernel (.createValueNode id value) (.result (.ok ()))
        ⟨kernel.graph.setNode id { value := value }, kernel.executor⟩
  | created {op : Op D} {id : NodeId} {dependencies : List NodeId} {node : Node D}
      (hcreates : Creates op id dependencies node)
      (hcreatable : kernel.graph.Creatable id dependencies) :
      Transition kernel op (.result (.ok ()))
        ⟨(kernel.graph.setNode id node).rewire id dependencies, kernel.executor.markAsDirtyLeaf id⟩
  | sameValue {id : NodeId} {value : D} {node : Node D}
      (hnode : kernel.graph.nodes.lookup id = some node) (htype : node.type = .value)
      (heq : Double.eq node.value value = true) :
      Transition kernel (.setNodeValue id value) (.result (.ok ())) kernel
  | changedValue {id : NodeId} {value : D} {node : Node D} {next : StatKernel D}
      (hnode : kernel.graph.nodes.lookup id = some node) (htype : node.type = .value)
      (hne : Double.eq node.value value = false)
      (himpl : next.executor.evaluateImpl = kernel.executor.evaluateImpl)
      (hmarked : (kernel.graph.setNode id { node with value := value }).Marked
        kernel.executor.dirtyLeaves [id] next.graph next.executor.dirtyLeaves) :
      Transition kernel (.setNodeValue id value) (.result (.ok ())) next
  | redefined {op : Op D} {id : NodeId} {dependencies : List NodeId} {node node' : Node D}
      {next : StatKernel D} (hredefines : Redefines op id dependencies node node')
      (hnode : kernel.graph.nodes.lookup id = some node)
      (haccepts : kernel.graph.Accepts id dependencies false)
      (himpl : next.executor.evaluateImpl = kernel.executor.evaluateImpl)
      (hmarked : ((kernel.graph.rewire id dependencies).setNode id node').Marked
        kernel.executor.dirtyLeaves [id] next.graph next.executor.dirtyLeaves) :
      Transition kernel op (.result (.ok ())) next
  | removed {id : NodeId} {g : Graph D} {next : StatKernel D} (hid : id ∈ kernel.graph.nodes)
      (hdependents : ∀ n ∈ kernel.graph.dependents id, ∀ node,
        kernel.graph.nodes.lookup n = some node → node.type ≠ .formula)
      (hremoved : kernel.graph.Removed id g)
      (himpl : next.executor.evaluateImpl = kernel.executor.evaluateImpl)
      (hmarked : g.Marked (kernel.executor.dirtyLeaves.erase id) (kernel.graph.dependents id)
        next.graph next.executor.dirtyLeaves) :
      Transition kernel (.removeNode id) (.result (.ok ())) next
  | read {id : NodeId} {node : Node D} {g : Graph D} (hid : id ∈ kernel.graph.nodes)
      (hevaluated : kernel.graph.Evaluated [id] g) (hnode : g.nodes.lookup id = some node) :
      Transition kernel (.getNodeValue id) (.value (.ok node.value)) ⟨g, kernel.executor⟩
  | evaluated {g : Graph D} (hleaves : ∀ id ∈ kernel.executor.dirtyLeaves, id ∈ kernel.graph.nodes)
      (hevaluated : kernel.graph.Evaluated kernel.executor.dirtyLeaves g) :
      Transition kernel .evaluate (.result (.ok ())) ⟨g, kernel.executor.reset⟩
  | reset : Transition kernel .reset .void ⟨{}, kernel.executor.reset⟩
  | setEvaluationType {evaluationType : EvaluationType} :
      Transition kernel (.setEvaluationType evaluationType) .void
        ⟨kernel.graph, kernel.executor.setEvaluationType evaluationType⟩

/-- A kernel whose graph is sound and up to date. -/
structure Consistent (kernel : StatKernel D) : Prop where
  sound : kernel.graph.Sound
  upToDate : kernel.graph.UpToDate

theorem Consistent.fresh : (fresh : StatKernel D).Consistent := ⟨.empty, .empty⟩

/-! ### Changes and current values -/

namespace Graph

variable {g g' : Graph D} {id n d : NodeId} {node node' : Node D}

/-- A node stays current if its record, its dependencies and their values stay. -/
theorem Current.of_same (hsound : g.Sound) (h : g.Current n)
    (hlookup : g'.nodes.lookup n = g.nodes.lookup n)
    (hdependencies : g'.dependencies n = g.dependencies n)
    (hvalues : ∀ d ∈ g.dependencies n, g'.valueOf d = g.valueOf d) : g'.Current n := by
  have hdefinition : g'.definition n = g.definition n := by
    simp only [definition, hlookup, hdependencies]
  intro node own hnode hown
  rw [hlookup] at hnode
  rw [hdefinition] at hown
  rw [Definition.eval_congr fun d hd => hvalues d ((hsound.of_definition hown).2 d hd)]
  exact h node own hnode hown

/-- Adding a node on which nothing depends, and which is itself consistent. -/
theorem UpToDate.extend (hsound : g.Sound) (h : g.UpToDate) (hid : id ∉ g.nodes)
    (hlookup : ∀ n, n ≠ id → g'.nodes.lookup n = g.nodes.lookup n)
    (hdependencies : ∀ n, n ≠ id → g'.dependencies n = g.dependencies n)
    (hdirty : g'.dependencies id ≠ [] → g'.isDirty id = true)
    (hcurrent : g'.isDirty id = false → g'.Current id) : g'.UpToDate where
  dirtyUp n d hd hflag := by
    by_cases hn : n = id
    · subst hn
      exact hdirty (List.ne_nil_of_mem hd)
    · rw [hdependencies n hn] at hd
      -- No old node depends on the new one.
      have hne : d ≠ id := by
        rintro rfl
        exact hid (hsound.linked.dependency_mem hd)
      rw [isDirty_congr (hlookup d hne)] at hflag
      rw [isDirty_congr (hlookup n hn)]
      exact h.dirtyUp n d hd hflag
  current n hclean := by
    by_cases hn : n = id
    · subst hn
      exact hcurrent hclean
    · rw [isDirty_congr (hlookup n hn)] at hclean
      apply (h.current n hclean).of_same hsound (hlookup n hn) (hdependencies n hn)
      intro d hd
      refine valueOf_congr (hlookup d ?_)
      rintro rfl
      exact hid (hsound.linked.dependency_mem hd)

theorem Sound.createValue (h : g.Sound) (hid : id ∉ g.nodes) (value : D) :
    (g.setNode id { value := value }).Sound where
  linked := h.linked.setNode id _
  acyclic := h.acyclic
  typed := typed_setNode (.value rfl rfl rfl (h.linked.dependencies_eq_nil hid))
    fun n node' _ hnode' => h.typed n node' hnode'

theorem UpToDate.createValue (hsound : g.Sound) (h : g.UpToDate) (hid : id ∉ g.nodes) (value : D) :
    (g.setNode id { value := value }).UpToDate := by
  refine h.extend hsound hid (fun n hn => ?_) (fun _ _ => rfl) (fun hne => ?_) fun _ => ?_
  · rw [lookup_setNode, if_neg hn]
  · exact absurd (hsound.linked.dependencies_eq_nil hid) hne
  · intro node own hnode hown
    rw [lookup_setNode_self] at hnode
    obtain rfl := Option.some.inj hnode
    rw [definition, lookup_setNode_self] at hown
    obtain rfl := Option.some.inj hown
    rfl

theorem UpToDate.create (hsound : g.Sound) (h : g.UpToDate) {dependencies : List NodeId}
    (hcreatable : g.Creatable id dependencies) (hdirty : node.dirty = true) :
    ((g.setNode id node).rewire id dependencies).UpToDate := by
  have hflag : ((g.setNode id node).rewire id dependencies).isDirty id = true := by
    rw [isDirty_of_lookup ((lookup_rewire _ _ _ _).trans (lookup_setNode_self g id node)), hdirty]
  refine h.extend hsound hcreatable.fresh (fun n hn => ?_) (fun n hn => ?_) (fun _ => hflag)
    fun hclean => ?_
  · rw [lookup_rewire, lookup_setNode, if_neg hn]
  · rw [dependencies_rewire, if_neg hn, dependencies_setNode]
  · rw [hflag] at hclean
    cases hclean

/-- After a new value only the nodes above it may be out of date. -/
theorem UpToDate.setValue (hsound : g.Sound) (h : g.UpToDate)
    (hnode : g.nodes.lookup id = some node) (htype : node.type = .value) (value : D) :
    (g.setNode id { node with value := value }).StaleAbove [id] := by
  have hflags (n : NodeId) : (g.setNode id { node with value := value }).isDirty n = g.isDirty n :=
    isDirty_setNode_of_eq hnode (by rfl) n
  have hsound' := hsound.setValue hnode value
  refine ⟨fun n d hd hdirty => ?_, fun n hclean => ?_⟩
  · rw [hflags] at hdirty ⊢
    exact Or.inl (h.dirtyUp n d hd hdirty)
  · rw [hflags] at hclean
    -- A node that does not read the new value keeps its own.
    by_cases hmem : id ∈ g.dependencies n
    · exact Or.inr ⟨hsound'.hasFormula_of_dependency (d := id) hmem, id, by simp, .single hmem⟩
    · apply Or.inl
      by_cases hn : n = id
      · subst hn
        intro node' own hnode' hown
        rw [lookup_setNode_self] at hnode'
        obtain rfl := Option.some.inj hnode'
        simp only [definition, lookup_setNode_self, htype] at hown
        obtain rfl := Option.some.inj hown
        rfl
      · refine (h.current n hclean).of_same hsound ?_ rfl fun d hd => valueOf_setNode_of_ne g _ ?_
        · rw [lookup_setNode, if_neg hn]
        · rintro rfl
          exact hmem hd

/-- After a new definition only the node itself may be out of date. -/
theorem UpToDate.redefine (hsound : g.Sound) (h : g.UpToDate)
    (hnode : g.nodes.lookup id = some node) (hvalue : node'.value = node.value)
    (hdirty : node'.dirty = node.dirty) (htype : node'.type ≠ .value) (dependencies : List NodeId) :
    ((g.rewire id dependencies).setNode id node').StaleAbove [id] := by
  have hlookup (n : NodeId) (hn : n ≠ id) :
      ((g.rewire id dependencies).setNode id node').nodes.lookup n = g.nodes.lookup n := by
    rw [lookup_setNode, if_neg hn, lookup_rewire]
  have hflags (n : NodeId) :
      ((g.rewire id dependencies).setNode id node').isDirty n = g.isDirty n :=
    isDirty_setNode_of_eq (g := g.rewire id dependencies) hnode hdirty n
  have hdependencies (n : NodeId) (hn : n ≠ id) :
      ((g.rewire id dependencies).setNode id node').dependencies n = g.dependencies n := by
    rw [dependencies_setNode, dependencies_rewire, if_neg hn]
  refine ⟨fun n d hd hflag => ?_, fun n hclean => ?_⟩
  · by_cases hn : n = id
    · exact Or.inr (List.mem_singleton.mpr hn)
    · rw [hflags] at hflag ⊢
      rw [hdependencies n hn] at hd
      exact Or.inl (h.dirtyUp n d hd hflag)
  · by_cases hn : n = id
    · subst hn
      exact Or.inr ⟨⟨node', lookup_setNode_self _ _ _, htype⟩, n, by simp, .refl⟩
    · rw [hflags] at hclean
      refine Or.inl ((h.current n hclean).of_same hsound (hlookup n hn) (hdependencies n hn) ?_)
      intro d hd
      by_cases hd' : d = id
      -- The stored value of the redefined node is still the old one.
      · rw [hd', valueOf_of_lookup (lookup_setNode_self _ id node'), valueOf_of_lookup hnode, hvalue]
      · exact valueOf_congr (hlookup d hd')

/-- After a removal no flag is missing, and only the former dependents may be out of date. -/
theorem UpToDate.removed (hsound : g.Sound) (h : g.UpToDate) (hremoved : g.Removed id g') :
    g'.DirtyUpExcept [] ∧ g'.StaleAbove (g.dependents id) := by
  have hlookup (n : NodeId) (hn : n ≠ id) : g'.nodes.lookup n = g.nodes.lookup n := by
    rw [hremoved.nodes, Finmap.lookup_erase_ne hn]
  have hup (n d : NodeId) (hd : d ∈ g'.dependencies n) (hdirty : g'.isDirty d = true) :
      g'.isDirty n = true := by
    obtain ⟨hn, hne, hd⟩ := (hremoved.mem_dependencies hsound.linked).mp hd
    rw [isDirty_congr (hlookup d hne)] at hdirty
    rw [isDirty_congr (hlookup n hn)]
    exact h.dirtyUp n d hd hdirty
  refine ⟨fun n d hd hdirty => Or.inl (hup n d hd hdirty),
    fun n d hd hdirty => Or.inl (hup n d hd hdirty), fun n hclean => ?_⟩
  by_cases hn : n = id
  · subst hn
    apply Or.inl
    intro node own hnode
    rw [hremoved.nodes, Finmap.lookup_erase] at hnode
    cases hnode
  · by_cases hmem : id ∈ g.dependencies n
    -- A former dependent has lost an argument; it is one of the sources of the marking.
    · obtain ⟨node, hnode, htype⟩ := hsound.hasFormula_of_dependency hmem
      exact Or.inr ⟨⟨node, (hlookup n hn).trans hnode, htype⟩, n,
        (hsound.linked.mirror n id).mp hmem, .refl⟩
    · rw [isDirty_congr (hlookup n hn)] at hclean
      refine Or.inl ((h.current n hclean).of_same hsound (hlookup n hn) ?_ fun d hd => ?_)
      · rw [hremoved.dependencies, if_neg hn, List.erase_of_not_mem hmem]
      · refine valueOf_congr (hlookup d ?_)
        rintro rfl
        exact hmem hd

end Graph

/-! ### Calls make transitions -/

theorem Creates.typed {op : Op D} {id : NodeId} {dependencies : List NodeId} {node : Node D}
    (h : Creates op id dependencies node) : Typed dependencies id node := by
  cases h with
  | formula => exact .formula _ rfl rfl rfl
  | collection hoperation => exact .collection rfl rfl hoperation

theorem Creates.dirty {op : Op D} {id : NodeId} {dependencies : List NodeId} {node : Node D}
    (h : Creates op id dependencies node) : node.dirty = true := by
  cases h <;> rfl

section Redefines

variable {op : Op D} {id : NodeId} {dependencies : List NodeId} {node node' : Node D}

theorem Redefines.typed (h : Redefines op id dependencies node node') {before : List NodeId}
    (hbefore : Typed before id node) : Typed dependencies id node' := by
  cases h with
  | formula htype => exact .formula _ htype rfl rfl
  | dependencies htype =>
      cases hbefore with
      | value htype' => simp [htype'] at htype
      | formula _ htype' => simp [htype'] at htype
      | collection _ hformula hoperation => exact .collection htype hformula hoperation

theorem Redefines.value_eq (h : Redefines op id dependencies node node') :
    node'.value = node.value := by
  cases h <;> rfl

theorem Redefines.dirty_eq (h : Redefines op id dependencies node node') :
    node'.dirty = node.dirty := by
  cases h <;> rfl

theorem Redefines.type_eq (h : Redefines op id dependencies node node') :
    node'.type = node.type := by
  cases h <;> rfl

theorem Redefines.type_ne_value (h : Redefines op id dependencies node node') :
    node.type ≠ .value := by
  cases h with
  | formula htype => simp [htype]
  | dependencies htype => simp [htype]

end Redefines

/-- A compiler call that fails leaves the kernel as it was. -/
theorem andThen_error (kernel : StatKernel D) {change : Except Abort (VoidResult × Graph D)}
    {info : ErrorInfo} (h : change = .ok (.error info, kernel.graph))
    (bookkeeping : StatKernel D → Except Abort (StatKernel D)) :
    kernel.andThen change bookkeeping = .ok (.error info, kernel) := by
  rw [andThen, h]
  rfl

theorem andThen_ok (kernel : StatKernel D) {change : Except Abort (VoidResult × Graph D)}
    {g : Graph D} (h : change = .ok (.ok (), g))
    {bookkeeping : StatKernel D → Except Abort (StatKernel D)} {next : StatKernel D}
    (hbookkeeping : bookkeeping ⟨g, kernel.executor⟩ = .ok next) :
    kernel.andThen change bookkeeping = .ok (.ok (), next) := by
  rw [andThen, h, ok_bind]
  dsimp only
  rw [hbookkeeping]
  rfl

theorem andThen_abort (kernel : StatKernel D) {change : Except Abort (VoidResult × Graph D)}
    {reason : Abort} (h : change = .error reason)
    (bookkeeping : StatKernel D → Except Abort (StatKernel D)) :
    kernel.andThen change bookkeeping = .error reason := by
  rw [andThen, h]
  rfl

/-- A full evaluation evaluates the recorded leaves one after the other and empties the list. -/
theorem evaluate_step (kernel : StatKernel D) : kernel.step .evaluate =
    match kernel.executor.dirtyLeaves.foldlM kernel.executor.evaluateNode kernel.graph with
    | .ok g => .ok (.result (.ok ()), ⟨g, kernel.executor.reset⟩)
    | .error reason => .error reason := by
  simp only [step, evaluate, Executor.evaluate]
  cases kernel.executor.dirtyLeaves.foldlM kernel.executor.evaluateNode kernel.graph <;> rfl

/-- The ways in which a call does not return. -/
inductive Aborts (kernel : StatKernel D) : Op D → Abort → Prop
  | createFormulaNode {id : NodeId} {text : StdString} {reason : Abort}
      (hcompile : compileAst (D := D) id text = .error reason) :
      Aborts kernel (.createFormulaNode id text) reason
  | setNodeFormula {id : NodeId} {text : StdString} {reason : Abort}
      (hcompile : compileAst (D := D) id text = .error reason) :
      Aborts kernel (.setNodeFormula id text) reason
  | getNodeValue {id : NodeId} {reason : Abort} (hid : id ∈ kernel.graph.nodes)
      (habort : kernel.graph.AbortsAt [id] reason) : Aborts kernel (.getNodeValue id) reason
  | evaluate {reason : Abort}
      (habort : (∀ id ∈ kernel.executor.dirtyLeaves, id ∈ kernel.graph.nodes) →
        kernel.graph.AbortsAt kernel.executor.dirtyLeaves reason) : Aborts kernel .evaluate reason

/-- A call makes a transition, or it aborts in one of these ways. -/
def Outcome (kernel : StatKernel D) (op : Op D) : Prop :=
  (∃ reply next, kernel.step op = .ok (reply, next) ∧ kernel.Transition op reply next) ∨
    ∃ reason, kernel.step op = .error reason ∧ kernel.Aborts op reason

section Outcome

variable {kernel : StatKernel D} (h : kernel.Consistent)

theorem createValueNode_outcome (kernel : StatKernel D) (id : NodeId) (value : D) :
    kernel.Outcome (.createValueNode id value) := by
  apply Or.inl
  by_cases hid : id ∈ kernel.graph.nodes
  · obtain ⟨info, hadd⟩ := addNode_existing (g := kernel.graph) hid
      { formula := none, value := value, type := .value, dirty := false }
    refine ⟨.result (.error info), kernel, ?_, .failed⟩
    simp only [step, createValueNode, Compiler.addValueNode, hadd]
    rfl
  · refine ⟨_, _, ?_, .createdValue hid⟩
    simp only [step, createValueNode, Compiler.addValueNode, addNode_new hid]
    rfl

/-- The bookkeeping after a creation. -/
theorem created_step {op : Op D} {id : NodeId} {dependencies : List NodeId} {node : Node D}
    (hcreates : Creates op id dependencies node)
    (hcreatable : kernel.graph.Creatable id dependencies)
    {change : Except Abort (VoidResult × Graph D)}
    (hchange : change = .ok (.ok (), (kernel.graph.setNode id node).rewire id dependencies))
    (hstep : kernel.step op = voidReply <$> kernel.andThen change (markAsDirtyLeaf id)) :
    ∃ next, kernel.step op = .ok (.result (.ok ()), next) ∧
      kernel.Transition op (.result (.ok ())) next := by
  refine ⟨_, ?_, .created hcreates hcreatable⟩
  have hrun : kernel.andThen change (markAsDirtyLeaf id) = .ok (.ok (), _) :=
    kernel.andThen_ok hchange rfl
  rw [hstep, hrun]
  rfl

theorem failed_outcome {op : Op D} {change : Except Abort (VoidResult × Graph D)} {info : ErrorInfo}
    (bookkeeping : StatKernel D → Except Abort (StatKernel D))
    (hchange : change = .ok (.error info, kernel.graph))
    (hstep : kernel.step op = voidReply <$> kernel.andThen change bookkeeping) :
    kernel.Outcome op := by
  refine Or.inl ⟨.result (.error info), kernel, ?_, .failed⟩
  rw [hstep, kernel.andThen_error hchange]
  rfl

include h

theorem createFormulaNode_outcome (id : NodeId) (text : StdString) :
    kernel.Outcome (.createFormulaNode id text) := by
  rcases h.sound.linked.addFormulaNode_cases id text with
    ⟨ast, hcompile, hcreatable, hrun⟩ | ⟨⟨info, hrun⟩, -⟩ | ⟨reason, hcompile, hrun⟩
  · exact Or.inl ⟨_, created_step (.formula hcompile) hcreatable hrun rfl⟩
  · exact failed_outcome _ hrun rfl
  · refine Or.inr ⟨reason, ?_, .createFormulaNode hcompile⟩
    simp only [step, createFormulaNode, kernel.andThen_abort hrun]
    rfl

theorem createCollectionNode_outcome (id : NodeId) (dependencies : List NodeId)
    (operation : CollectionOperation) :
    kernel.Outcome (.createCollectionNode id dependencies operation) := by
  rcases h.sound.linked.addCollectionNode_cases id dependencies operation with
    ⟨hcreatable, hoperation, hrun⟩ | ⟨-, info, hrun⟩
  · exact Or.inl ⟨_, created_step (.collection hoperation) hcreatable hrun rfl⟩
  · exact failed_outcome _ hrun rfl

theorem setNodeValue_outcome (id : NodeId) (value : D) :
    kernel.Outcome (.setNodeValue id value) := by
  apply Or.inl
  rw [show kernel.step (.setNodeValue id value) = voidReply <$> kernel.setNodeValue id value from rfl,
    setNodeValue]
  cases hnode : kernel.graph.nodes.lookup id with
  | none =>
      have hid : id ∉ kernel.graph.nodes := Finmap.lookup_eq_none.mp hnode
      rw [if_pos (by simp [hid])]
      exact ⟨_, _, rfl, .failed⟩
  | some node =>
      have hid := Finmap.mem_of_lookup_eq_some hnode
      rw [if_neg (by simp [hid]), node_of_lookup hnode, ok_bind]
      by_cases htype : node.type = .value
      · rw [if_neg (by simp [htype])]
        cases heq : Double.eq node.value value with
        | true =>
            rw [if_pos rfl]
            exact ⟨_, _, rfl, .sameValue hnode htype heq⟩
        | false =>
            have hstale := h.upToDate.setValue h.sound hnode htype value
            obtain ⟨executor', g', hrun, himpl, hmarked⟩ := markDirty_spec
              (h.sound.setValue hnode value) (by simp) hstale.dirtyUp kernel.executor
            have hmark : markDirty id ⟨kernel.graph.setNode id { node with value := value },
                kernel.executor⟩ = .ok ⟨g', executor'⟩ := by
              rw [markDirty, hrun]
              rfl
            refine ⟨_, ⟨g', executor'⟩, ?_, .changedValue hnode htype heq himpl hmarked⟩
            rw [if_neg (by simp)]
            dsimp only
            rw [hmark]
            rfl
      · rw [if_pos htype]
        exact ⟨_, _, rfl, .failed⟩

/-- The bookkeeping after a change of a definition. -/
theorem redefined_step {op : Op D} {id : NodeId} {dependencies : List NodeId} {node node' : Node D}
    (hredefines : Redefines op id dependencies node node')
    (hnode : kernel.graph.nodes.lookup id = some node)
    (haccepts : kernel.graph.Accepts id dependencies false)
    {change : Except Abort (VoidResult × Graph D)}
    (hchange : change = .ok (.ok (), (kernel.graph.rewire id dependencies).setNode id node'))
    (hstep : kernel.step op = voidReply <$> kernel.andThen change (markDirty id)) :
    ∃ next, kernel.step op = .ok (.result (.ok ()), next) ∧
      kernel.Transition op (.result (.ok ())) next := by
  have hsound := h.sound.redefine haccepts (hredefines.typed (h.sound.typed id node hnode))
  have hstale := h.upToDate.redefine h.sound hnode hredefines.value_eq hredefines.dirty_eq
    (hredefines.type_eq ▸ hredefines.type_ne_value) dependencies
  obtain ⟨executor', g', hrun, himpl, hmarked⟩ :=
    markDirty_spec hsound (by simp) hstale.dirtyUp kernel.executor
  refine ⟨⟨g', executor'⟩, ?_, .redefined hredefines hnode haccepts himpl hmarked⟩
  have hmark : markDirty id ⟨(kernel.graph.rewire id dependencies).setNode id node',
      kernel.executor⟩ = .ok ⟨g', executor'⟩ := by
    rw [markDirty, hrun]
    rfl
  rw [hstep, kernel.andThen_ok hchange hmark]
  rfl

theorem setNodeFormula_outcome (id : NodeId) (text : StdString) :
    kernel.Outcome (.setNodeFormula id text) := by
  rcases setNodeFormula_cases kernel.graph id text with
    ⟨node, ast, hnode, htype, hcompile, haccepts, hrun⟩ | ⟨⟨info, hrun⟩, -⟩ | ⟨reason, hcompile, hrun⟩
  · exact Or.inl ⟨_, redefined_step h (.formula htype hcompile) hnode haccepts hrun rfl⟩
  · exact failed_outcome _ hrun rfl
  · refine Or.inr ⟨reason, ?_, .setNodeFormula hcompile⟩
    simp only [step, setNodeFormula, kernel.andThen_abort hrun]
    rfl

theorem setNodeDependencies_outcome (id : NodeId) (dependencies : List NodeId) :
    kernel.Outcome (.setNodeDependencies id dependencies) := by
  rcases setCollectionNodeDependencies_cases kernel.graph id dependencies with
    ⟨node, hnode, htype, haccepts, hrun⟩ | ⟨⟨info, hrun⟩, -⟩
  · rw [← setNode_eq_self ((lookup_rewire _ id dependencies id).trans hnode)] at hrun
    exact Or.inl ⟨_, redefined_step h (.dependencies htype) hnode haccepts hrun rfl⟩
  · exact failed_outcome _ hrun rfl

theorem removeNode_outcome (id : NodeId) : kernel.Outcome (.removeNode id) := by
  rcases h.sound.linked.removeNode_cases id with
    ⟨hid, hdependents, g, hrun, hremoved⟩ | ⟨info, hrun, -⟩
  · have hsound := h.sound.removed hremoved hdependents
    have hup := (h.upToDate.removed h.sound hremoved).1
    have hexist : ∀ n ∈ kernel.graph.dependents id, n ∈ g.nodes := by
      intro n hn
      rw [hremoved.nodes, Finmap.mem_erase]
      refine ⟨?_, h.sound.linked.dependent_mem hn⟩
      -- A node is not its own dependent, so every dependent outlives the removal.
      rintro rfl
      exact h.sound.acyclic n (.single ((h.sound.linked.mirror n n).mpr hn))
    obtain ⟨next, hmark, himpl, hmarked⟩ :=
      foldlM_markDirty ⟨g, kernel.executor.remove id⟩ hsound hup hexist
    refine Or.inl ⟨_, next, ?_, .removed hid hdependents hremoved himpl hmarked⟩
    simp only [step, removeNode]
    rw [kernel.andThen_ok hrun hmark]
    rfl
  · exact failed_outcome (fun kernel' =>
      (kernel.graph.dependents id).foldlM (fun kernel dependentId => kernel.markDirty dependentId)
        { kernel' with executor := kernel'.executor.remove id }) hrun rfl

theorem getNodeValue_outcome (id : NodeId) : kernel.Outcome (.getNodeValue id) := by
  by_cases hid : id ∈ kernel.graph.nodes
  · rcases kernel.executor.getNodeValue_spec h.sound h.upToDate hid with
      ⟨g, node, hevaluated, hnode, hrun⟩ | ⟨hrun, habort⟩
    · refine Or.inl ⟨_, _, ?_, .read hid hevaluated hnode⟩
      simp only [step, getNodeValue, hrun]
      rfl
    · refine Or.inr ⟨_, ?_, .getNodeValue hid habort⟩
      simp only [step, getNodeValue, hrun]
      rfl
  · obtain ⟨info, hrun⟩ := Executor.getNodeValue_missing hid kernel.executor
    refine Or.inl ⟨.value (.error info), kernel, ?_, .notFound hid⟩
    simp only [step, getNodeValue, hrun]
    rfl

theorem evaluate_outcome : kernel.Outcome .evaluate := by
  cases hrun : kernel.executor.dirtyLeaves.foldlM kernel.executor.evaluateNode kernel.graph with
  | ok g =>
      obtain ⟨hleaves, hevaluated⟩ :=
        kernel.executor.foldlM_evaluateNode h.sound h.upToDate hrun
      exact Or.inl ⟨_, _, by rw [evaluate_step, hrun], .evaluated hleaves hevaluated⟩
  | error reason =>
      refine Or.inr ⟨reason, by rw [evaluate_step, hrun], .evaluate fun hleaves => ?_⟩
      have hresult := foldlM_evaluationResult kernel.executor.dirtyLeaves
        kernel.executor.evaluateNode h.sound h.upToDate
        fun g hsound hcurrent hupdates id hid =>
          kernel.executor.evaluateNode_spec hsound hcurrent
            (hupdates.mem_iff.mpr (hleaves id hid))
      rw [hrun] at hresult
      exact hresult

/-- **Every call** of a consistent kernel makes a transition or aborts in a known way. -/
theorem step_outcome (op : Op D) : kernel.Outcome op := by
  cases op with
  | createValueNode id value => exact createValueNode_outcome kernel id value
  | createFormulaNode id text => exact createFormulaNode_outcome h id text
  | createCollectionNode id dependencies operation =>
      exact createCollectionNode_outcome h id dependencies operation
  | setNodeValue id value => exact setNodeValue_outcome h id value
  | setNodeFormula id text => exact setNodeFormula_outcome h id text
  | setNodeDependencies id dependencies => exact setNodeDependencies_outcome h id dependencies
  | removeNode id => exact removeNode_outcome h id
  | getNodeValue id => exact getNodeValue_outcome h id
  | evaluate => exact evaluate_outcome h
  | reset => exact Or.inl ⟨_, _, rfl, .reset⟩
  | setEvaluationType evaluationType => exact Or.inl ⟨_, _, rfl, .setEvaluationType⟩

/-- A call that returns makes a transition. -/
theorem step_transition {op : Op D} {reply : Reply D} {next : StatKernel D}
    (hstep : kernel.step op = .ok (reply, next)) : kernel.Transition op reply next := by
  rcases step_outcome h op with ⟨reply', next', hstep', htransition⟩ | ⟨reason, hstep', -⟩
  · obtain ⟨rfl, rfl⟩ := pair_unique hstep hstep'
    exact htransition
  · rw [hstep] at hstep'
    cases hstep'

/-- A call that does not return aborts in a known way. -/
theorem step_aborts {op : Op D} {reason : Abort} (hstep : kernel.step op = .error reason) :
    kernel.Aborts op reason := by
  rcases step_outcome h op with ⟨reply', next', hstep', -⟩ | ⟨reason', hstep', haborts⟩
  · rw [hstep] at hstep'
    cases hstep'
  · rw [hstep] at hstep'
    cases hstep'
    exact haborts

end Outcome

/-! ### Reachable kernels -/

/-- **Every transition keeps the kernel consistent.** -/
theorem Transition.consistent {kernel next : StatKernel D} {op : Op D} {reply : Reply D}
    (h : kernel.Consistent) (htransition : kernel.Transition op reply next) : next.Consistent := by
  cases htransition with
  | failed => exact h
  | notFound => exact h
  | createdValue hid => exact ⟨h.sound.createValue hid _, h.upToDate.createValue h.sound hid _⟩
  | created hcreates hcreatable =>
      exact ⟨h.sound.create hcreatable hcreates.typed,
        h.upToDate.create h.sound hcreatable hcreates.dirty⟩
  | sameValue => exact h
  | @changedValue _ value _ _ hnode htype _ _ hmarked =>
      have hsound := h.sound.setValue hnode value
      exact ⟨marks_sound hmarked.updates hsound,
        hmarked.upToDate hsound (h.upToDate.setValue h.sound hnode htype value)⟩
  | redefined hredefines hnode haccepts _ hmarked =>
      have hsound := h.sound.redefine haccepts (hredefines.typed (h.sound.typed _ _ hnode))
      exact ⟨marks_sound hmarked.updates hsound,
        hmarked.upToDate hsound (h.upToDate.redefine h.sound hnode hredefines.value_eq
          hredefines.dirty_eq (hredefines.type_eq ▸ hredefines.type_ne_value) _)⟩
  | removed _ hdependents hremoved _ hmarked =>
      have hsound := h.sound.removed hremoved hdependents
      exact ⟨marks_sound hmarked.updates hsound,
        hmarked.upToDate hsound (h.upToDate.removed h.sound hremoved).2⟩
  | read _ hevaluated => exact ⟨hevaluated.sound h.sound, hevaluated.upToDate⟩
  | evaluated _ hevaluated => exact ⟨hevaluated.sound h.sound, hevaluated.upToDate⟩
  | reset => exact ⟨Sound.empty, UpToDate.empty⟩
  | setEvaluationType => exact ⟨h.sound, h.upToDate⟩

theorem Reachable.consistent {kernel : StatKernel D} (hreach : Reachable kernel) :
    kernel.Consistent := by
  refine StepMachine.Reachable.invariant Consistent .fresh
    (fun kernel op reply next h _ hstep => ?_) hreach
  exact (step_transition h hstep).consistent h

end StatForge.StatKernel
