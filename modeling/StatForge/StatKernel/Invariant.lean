import StatForge.StatKernel.Definitions
import StatForge.StatKernel.EdgeMaps

/-!
# The invariant of the graph

* `Sound` — linked edge maps, no cycle, and every node record in the shape of its type.
* `UpToDate` — dirty flags are closed under dependents, and a clean node stores the value of its
  definition over the stored values of its dependencies.
* `recompute_of_clean` — in such a graph the stored value of a clean node is the recomputed one.
* `Updates` — a change of node records that keeps everything a graph is otherwise made of; marking
  and evaluating are such changes.
-/

namespace StatForge.StatKernel

open Relation Successors ExceptBind Dsl

variable {D : Type} [Double D]

/-- A node record in the shape of its type, for a node `id` with the given dependencies. -/
inductive Typed (dependencies : List NodeId) (id : NodeId) (node : Node D) : Prop
  | value (htype : node.type = .value) (hformula : node.formula = none) (hdirty : node.dirty = false)
      (hdependencies : dependencies = [])
  | formula (ast : ExpressionTree D) (htype : node.type = .formula)
      (hformula : node.formula = some (.expression ast))
      (hdependencies : dependencies = extractDependencies ast)
  | collection (htype : node.type = .collection)
      (hformula : node.formula = some (.collection id node.collectionOperation))
      (hoperation : ∀ code, node.collectionOperation ≠ .other code)

namespace Typed

variable {dependencies : List NodeId} {id : NodeId} {node : Node D}

theorem formula_eq_none_iff (h : Typed dependencies id node) :
    node.formula = none ↔ node.type = .value := by
  cases h with
  | value htype hformula => simp [htype, hformula]
  | formula _ htype hformula => simp [htype, hformula]
  | collection htype hformula => simp [htype, hformula]

theorem type_ne_value_of_dirty (h : Typed dependencies id node) (hdirty : node.dirty = true) :
    node.type ≠ .value := by
  cases h with
  | value _ _ hclean => simp [hclean] at hdirty
  | formula _ htype => simp [htype]
  | collection htype => simp [htype]

theorem dependencies_eq_nil (h : Typed dependencies id node) (htype : node.type = .value) :
    dependencies = [] := by
  cases h with
  | value _ _ _ hdependencies => exact hdependencies
  | formula _ htype' => simp [htype'] at htype
  | collection htype' => simp [htype'] at htype

/-- A record keeps its shape under changes of the value and, if it has a formula, of the flag. -/
theorem update (h : Typed dependencies id node) {value : D} {dirty : Bool}
    (hdirty : node.type = .value → dirty = false) :
    Typed dependencies id { node with value := value, dirty := dirty } := by
  cases h with
  | value htype hformula _ hdependencies =>
      exact .value htype hformula (hdirty htype) hdependencies
  | formula ast htype hformula hdependencies => exact .formula ast htype hformula hdependencies
  | collection htype hformula hoperation => exact .collection htype hformula hoperation

end Typed

namespace Graph

variable {g g' : Graph D} {id n d : NodeId} {node node' : Node D}

/-! ### Reading a graph -/

theorem lookup_setNode (g : Graph D) (id n : NodeId) (node : Node D) :
    (g.setNode id node).nodes.lookup n = if n = id then some node else g.nodes.lookup n := by
  unfold setNode
  split
  · rename_i heq
    subst heq
    exact Finmap.lookup_insert _
  · rename_i hne
    exact Finmap.lookup_insert_of_ne _ hne

@[simp] theorem lookup_setNode_self (g : Graph D) (id : NodeId) (node : Node D) :
    (g.setNode id node).nodes.lookup id = some node := Finmap.lookup_insert _

@[simp] theorem mem_setNode (g : Graph D) (id n : NodeId) (node : Node D) :
    n ∈ (g.setNode id node).nodes ↔ n = id ∨ n ∈ g.nodes := Finmap.mem_insert

@[simp] theorem dependencies_setNode (g : Graph D) (id n : NodeId) (node : Node D) :
    (g.setNode id node).dependencies n = g.dependencies n := rfl

@[simp] theorem dependents_setNode (g : Graph D) (id n : NodeId) (node : Node D) :
    (g.setNode id node).dependents n = g.dependents n := rfl

theorem node_eq_ok_iff : g.node id = .ok node ↔ g.nodes.lookup id = some node := by
  unfold Graph.node
  cases g.nodes.lookup id <;> simp

theorem node_of_lookup (h : g.nodes.lookup id = some node) : g.node id = .ok node :=
  node_eq_ok_iff.mpr h

theorem valueOf_of_lookup (h : g.nodes.lookup id = some node) : g.valueOf id = .ok node.value := by
  simp [valueOf, node_of_lookup h]

def isDirty (g : Graph D) (id : NodeId) : Bool := (g.nodes.lookup id).any Node.dirty

theorem isDirty_of_lookup (h : g.nodes.lookup id = some node) : g.isDirty id = node.dirty := by
  simp [isDirty, h]

theorem isDirty_iff : g.isDirty id = true ↔ ∃ node, g.nodes.lookup id = some node ∧ node.dirty := by
  unfold isDirty
  cases g.nodes.lookup id <;> simp

theorem mem_of_isDirty (h : g.isDirty id = true) : id ∈ g.nodes := by
  obtain ⟨node, hnode, -⟩ := isDirty_iff.mp h
  exact Finmap.mem_of_lookup_eq_some hnode

theorem valueOf_congr (h : g'.nodes.lookup n = g.nodes.lookup n) : g'.valueOf n = g.valueOf n := by
  simp only [valueOf, Graph.node, h]

theorem isDirty_congr (h : g'.nodes.lookup n = g.nodes.lookup n) : g'.isDirty n = g.isDirty n := by
  rw [isDirty, isDirty, h]

theorem isDirty_setNode (g : Graph D) (id n : NodeId) (node : Node D) :
    (g.setNode id node).isDirty n = if n = id then node.dirty else g.isDirty n := by
  unfold isDirty
  rw [lookup_setNode]
  split <;> simp

/-- A new record with the old flag changes no flag. -/
theorem isDirty_setNode_of_eq (hnode : g.nodes.lookup id = some node)
    (hdirty : node'.dirty = node.dirty) (n : NodeId) :
    (g.setNode id node').isDirty n = g.isDirty n := by
  rw [isDirty_setNode]
  split
  · rename_i hn
    rw [hn, isDirty_of_lookup hnode, hdirty]
  · rfl

/-! ### Soundness -/

/-- Linked edge maps, no cycle, and records in the shape of their types. -/
structure Sound (g : Graph D) : Prop where
  linked : g.Linked
  acyclic : Acyclic g.DependsOn
  typed : ∀ id node, g.nodes.lookup id = some node → Typed (g.dependencies id) id node

theorem Sound.empty : ({} : Graph D).Sound where
  linked := .empty
  acyclic := by
    intro a ha
    obtain ⟨b, hb, -⟩ := TransGen.head'_iff.mp ha
    exact absurd hb (by simp [DependsOn, dependencies, entry])
  typed id node hnode := by simp at hnode

/-- Only dependencies of a node with a formula are dependencies at all. -/
theorem Sound.type_ne_value (h : g.Sound) (hnode : g.nodes.lookup n = some node)
    (hd : d ∈ g.dependencies n) : node.type ≠ .value := by
  intro htype
  rw [(h.typed n node hnode).dependencies_eq_nil htype] at hd
  exact List.not_mem_nil hd

theorem Sound.rank_lt (h : g.Sound) (hd : d ∈ g.dependencies n) :
    rank g.nodes.keys g.DependsOn d < rank g.nodes.keys g.DependsOn n :=
  Successors.rank_lt h.acyclic hd (Finmap.mem_keys.mpr (h.linked.dependency_mem hd))

theorem Sound.rank_lt_card (h : g.Sound) (hid : id ∈ g.nodes) :
    rank g.nodes.keys g.DependsOn id < g.nodes.keys.card :=
  Successors.rank_lt_card h.acyclic (Finmap.mem_keys.mpr hid)

/-- Everything that a node transitively depends on exists. -/
theorem Linked.reached_mem (h : g.Linked) (hid : id ∈ g.nodes)
    (hpath : ReflTransGen g.DependsOn id n) : n ∈ g.nodes := by
  induction hpath with
  | refl => exact hid
  | tail _ hstep _ => exact h.dependency_mem hstep

/-- Every node has a valid definition that reads its dependencies only, and its formula, if it has one,
computes that definition. -/
theorem Sound.definition_of_lookup (h : g.Sound) (hnode : g.nodes.lookup id = some node) :
    ∃ definition, g.definition id = some definition ∧ definition.Valid ∧
      (∀ d ∈ definition.reads, d ∈ g.dependencies id) ∧
      ∀ formula, node.formula = some formula → formula.invoke g = definition.eval g.valueOf := by
  cases h.typed id node hnode with
  | value htype hformula =>
      exact ⟨.value node.value, by simp [definition, hnode, htype], trivial,
        by simp [Definition.reads], by simp [hformula]⟩
  | formula ast htype hformula hdependencies =>
      refine ⟨.formula ast, by simp [definition, hnode, htype, hformula], trivial, ?_, ?_⟩
      · intro d hd
        rw [hdependencies, mem_extractDependencies]
        exact hd
      · intro formula heq
        obtain rfl := Option.some.inj (hformula.symm.trans heq)
        rfl
  | collection htype hformula hoperation =>
      refine ⟨.collection node.collectionOperation (g.dependencies id),
        by simp [definition, hnode, htype], hoperation, fun _ hd => hd, ?_⟩
      intro formula heq
      obtain rfl := Option.some.inj (hformula.symm.trans heq)
      rfl

theorem Sound.of_definition (h : g.Sound) {definition : Definition D}
    (hdefinition : g.definition id = some definition) :
    definition.Valid ∧ ∀ d ∈ definition.reads, d ∈ g.dependencies id := by
  cases hnode : g.nodes.lookup id with
  | none => simp [Graph.definition, hnode] at hdefinition
  | some node =>
      obtain ⟨definition', hdefinition', hvalid, hreads, -⟩ := h.definition_of_lookup hnode
      obtain rfl := Option.some.inj (hdefinition.symm.trans hdefinition')
      exact ⟨hvalid, hreads⟩

/-! ### Up-to-date values -/

/-- The stored value is the value of the definition over the stored values. -/
def Current (g : Graph D) (id : NodeId) : Prop :=
  ∀ node definition, g.nodes.lookup id = some node → g.definition id = some definition →
    definition.eval g.valueOf = .ok node.value

/-- Dependents of dirty nodes are dirty, and clean nodes are current. -/
structure UpToDate (g : Graph D) : Prop where
  dirtyUp : ∀ n d, d ∈ g.dependencies n → g.isDirty d = true → g.isDirty n = true
  current : ∀ id, g.isDirty id = false → g.Current id

theorem UpToDate.empty : ({} : Graph D).UpToDate where
  dirtyUp n d hd := by simp [dependencies, entry] at hd
  current id _ node definition hnode := by simp at hnode

theorem UpToDate.clean_dependency (h : g.UpToDate) (hid : g.isDirty id = false)
    (hd : d ∈ g.dependencies id) : g.isDirty d = false := by
  by_contra hdirty
  rw [h.dirtyUp id d hd (by simpa using hdirty)] at hid
  cases hid

/-- Below a clean node everything is clean. -/
theorem UpToDate.clean_of_reached (h : g.UpToDate) (hid : g.isDirty id = false)
    (hpath : ReflTransGen g.DependsOn id n) : g.isDirty n = false := by
  induction hpath with
  | refl => exact hid
  | tail _ hstep ih => exact h.clean_dependency ih hstep

/-- **Stored values are recomputed values.**  With fuel above the rank, recomputing a clean node gives
the value that it stores. -/
theorem recompute_of_clean (hsound : g.Sound) (hcurrent : g.UpToDate)
    (hnode : g.nodes.lookup id = some node) (hclean : g.isDirty id = false) {fuel : Nat}
    (hfuel : rank g.nodes.keys g.DependsOn id < fuel) :
    recompute g.definition fuel id = .ok node.value := by
  induction fuel generalizing id node with
  | zero => omega
  | succ fuel ih =>
      obtain ⟨definition, hdefinition, -, hreads, -⟩ := hsound.definition_of_lookup hnode
      have hvalues : ∀ d ∈ definition.reads, recompute g.definition fuel d = g.valueOf d := by
        intro d hd
        have hdependency := hreads d hd
        obtain ⟨node', hnode'⟩ := Finmap.mem_iff.mp (hsound.linked.dependency_mem hdependency)
        have hlt := hsound.rank_lt hdependency
        rw [valueOf_of_lookup hnode']
        exact ih hnode' (hcurrent.clean_dependency hclean hdependency) (by omega)
      rw [recompute, hdefinition]
      dsimp only
      rw [Definition.eval_congr hvalues]
      exact hcurrent.current id hclean node definition hnode hdefinition

/-- If all dependencies are clean, recomputing a node evaluates its definition over the stored
values. -/
theorem recompute_of_clean_dependencies (hsound : g.Sound) (hcurrent : g.UpToDate)
    (hclean : ∀ d ∈ g.dependencies id, g.isDirty d = false) {definition : Definition D}
    (hdefinition : g.definition id = some definition) {fuel : Nat}
    (hfuel : rank g.nodes.keys g.DependsOn id < fuel) :
    recompute g.definition fuel id = definition.eval g.valueOf := by
  obtain ⟨fuel, rfl⟩ : ∃ fuel', fuel = fuel' + 1 := ⟨fuel - 1, by omega⟩
  rw [recompute, hdefinition]
  dsimp only
  apply Definition.eval_congr
  intro d hd
  have hdependency := (hsound.of_definition hdefinition).2 d hd
  obtain ⟨node', hnode'⟩ := Finmap.mem_iff.mp (hsound.linked.dependency_mem hdependency)
  have hlt := hsound.rank_lt hdependency
  rw [valueOf_of_lookup hnode']
  exact recompute_of_clean hsound hcurrent hnode' (hclean d hdependency) (by omega)

/-! ### Changing records only -/

/-- The edge maps stay, and every record stays or makes one `change`. -/
structure Updates (change : Node D → Node D → Prop) (g g' : Graph D) : Prop where
  dependenciesMap : g'.dependenciesMap = g.dependenciesMap
  dependentsMap : g'.dependentsMap = g.dependentsMap
  node : ∀ n, g'.nodes.lookup n = g.nodes.lookup n ∨ ∃ node node',
    g.nodes.lookup n = some node ∧ change node node' ∧ g'.nodes.lookup n = some node'

namespace Updates

variable {change : Node D → Node D → Prop} {g'' : Graph D}

theorem refl (change : Node D → Node D → Prop) (g : Graph D) : Updates change g g :=
  ⟨rfl, rfl, fun _ => Or.inl rfl⟩

theorem setNode (hnode : g.nodes.lookup id = some node) (hchange : change node node') :
    Updates change g (g.setNode id node') := by
  refine ⟨rfl, rfl, fun n => ?_⟩
  rw [lookup_setNode]
  split
  · rename_i hn
    exact Or.inr ⟨node, node', hn ▸ hnode, hchange, rfl⟩
  · exact Or.inl rfl

theorem trans (h : Updates change g g') (h' : Updates change g' g'')
    (hchange : ∀ a b c, change a b → change b c → change a c) : Updates change g g'' := by
  refine ⟨h'.dependenciesMap.trans h.dependenciesMap, h'.dependentsMap.trans h.dependentsMap,
    fun n => ?_⟩
  rcases h.node n with hsame | ⟨node, node', hnode, hstep, hnode'⟩
  · rcases h'.node n with hsame' | ⟨node, node', hnode, hstep, hnode'⟩
    · exact Or.inl (hsame'.trans hsame)
    · exact Or.inr ⟨node, node', hsame ▸ hnode, hstep, hnode'⟩
  · rcases h'.node n with hsame' | ⟨node₁, node₂, hnode₁, hstep', hnode₂⟩
    · exact Or.inr ⟨node, node', hnode, hstep, hsame'.trans hnode'⟩
    · obtain rfl := Option.some.inj (hnode'.symm.trans hnode₁)
      exact Or.inr ⟨node, node₂, hnode, hchange _ _ _ hstep hstep', hnode₂⟩

theorem dependencies_eq (h : Updates change g g') (n : NodeId) :
    g'.dependencies n = g.dependencies n := by
  rw [dependencies, dependencies, h.dependenciesMap]

theorem dependents_eq (h : Updates change g g') (n : NodeId) :
    g'.dependents n = g.dependents n := by
  rw [dependents, dependents, h.dependentsMap]

theorem dependsOn_eq (h : Updates change g g') : g'.DependsOn = g.DependsOn := by
  funext n d
  rw [DependsOn, DependsOn, h.dependencies_eq]

theorem mem_iff (h : Updates change g g') : n ∈ g'.nodes ↔ n ∈ g.nodes := by
  rcases h.node n with hsame | ⟨node, node', hnode, -, hnode'⟩
  · rw [← Finmap.lookup_isSome, ← Finmap.lookup_isSome, hsame]
  · rw [← Finmap.lookup_isSome, ← Finmap.lookup_isSome, hnode, hnode']
    simp

theorem keys_eq (h : Updates change g g') : g'.nodes.keys = g.nodes.keys := by
  ext n
  rw [Finmap.mem_keys, Finmap.mem_keys, h.mem_iff]

theorem linked (h : Updates change g g') (hlinked : g.Linked) : g'.Linked :=
  hlinked.of_eq (fun _ hid => h.mem_iff.mpr hid) h.dependenciesMap h.dependentsMap

theorem sound (h : Updates change g g') (hsound : g.Sound)
    (htyped : ∀ id node node', Typed (g.dependencies id) id node → change node node' →
      Typed (g.dependencies id) id node') : g'.Sound where
  linked := h.linked hsound.linked
  acyclic := h.dependsOn_eq ▸ hsound.acyclic
  typed id node hnode := by
    rw [h.dependencies_eq]
    rcases h.node id with hsame | ⟨node₁, node₂, hnode₁, hstep, hnode₂⟩
    · exact hsound.typed id node (hsame ▸ hnode)
    · obtain rfl := Option.some.inj (hnode₂.symm.trans hnode)
      exact htyped id node₁ node₂ (hsound.typed id node₁ hnode₁) hstep

end Updates

end Graph

end StatForge.StatKernel
