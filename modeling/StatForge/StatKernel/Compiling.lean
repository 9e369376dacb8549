import StatForge.StatKernel.Compiler
import StatForge.StatKernel.Invariant

/-!
# What the compiler does

Each call of the compiler either leaves the graph exactly as it was, together with an error, or makes
one change of a known form.

* `removeNode_new` — the rollback of a creation restores the graph.
* `addCollectionNode_cases`, `addFormulaNode_cases`, `setNodeFormula_cases`,
  `setCollectionNodeDependencies_cases` — the outcomes of the four calls.
* `Sound.create`, `Sound.redefine`, `Sound.removed` — the changes keep the graph sound.
-/

namespace StatForge.StatKernel

open Relation Successors ExceptBind Dsl

variable {D : Type} [Double D]

theorem isValidCollectionOperation_iff {operation : CollectionOperation} :
    isValidCollectionOperation operation = true ↔ ∀ code, operation ≠ .other code := by
  cases operation <;> simp [isValidCollectionOperation]

/-- The node that `addCollectionNode` leaves. -/
def collectionNode (id : NodeId) (operation : CollectionOperation) : Node D :=
  { formula := some (.collection id operation)
    value := Double.zero
    type := .collection
    collectionOperation := operation
    dirty := true }

/-- The node that `addFormulaNode` leaves. -/
def formulaNode (ast : ExpressionTree D) : Node D :=
  { formula := some (.expression ast), value := Double.zero, type := .formula, dirty := true }

/-- Two maps with the same keys and the same vectors are equal. -/
theorem map_ext {map map' : UnorderedMap (List NodeId)} (hkeys : map.keys = map'.keys)
    (hentries : ∀ n, entry map n = entry map' n) : map = map' := by
  apply Finmap.ext_lookup
  intro n
  by_cases hn : n ∈ map.keys
  · obtain ⟨ids, hids⟩ := Finmap.mem_iff.mp (Finmap.mem_keys.mp hn)
    obtain ⟨ids', hids'⟩ := Finmap.mem_iff.mp (Finmap.mem_keys.mp (hkeys ▸ hn))
    have hentry := hentries n
    rw [entry, entry, hids, hids', Option.getD_some, Option.getD_some] at hentry
    rw [hids, hids', hentry]
  · have hn' : n ∉ map'.keys := hkeys ▸ hn
    rw [Finmap.mem_keys, ← Finmap.lookup_eq_none] at hn hn'
    rw [hn, hn']

/-- Erasing an id that is neither a key nor an entry leaves a map as it is. -/
theorem eq_of_erased {map map' : UnorderedMap (List NodeId)} {id : NodeId}
    (hkeys : map'.keys = map.keys.erase id)
    (hentries : ∀ n, entry map' n = if n = id then [] else (entry map n).erase id)
    (hid : id ∉ map.keys) (hentry : ∀ n, id ∉ entry map n) : map' = map := by
  apply map_ext (hkeys.trans (Finset.erase_eq_self.mpr hid))
  intro n
  rw [hentries]
  split
  · rename_i hn
    rw [hn, entry_eq_nil_of_notMem hid]
  · exact List.erase_of_not_mem (hentry n)

namespace Graph

variable {g g' : Graph D} {id n d : NodeId} {node node' : Node D}

theorem lookup_rewire (g : Graph D) (id : NodeId) (dependencies : List NodeId) (n : NodeId) :
    (g.rewire id dependencies).nodes.lookup n = g.nodes.lookup n := rfl

/-! ### Creations -/

theorem Linked.setNode (h : g.Linked) (id : NodeId) (node : Node D) : (g.setNode id node).Linked :=
  h.of_eq (fun _ hn => (mem_setNode g id _ node).mpr (Or.inr hn)) rfl rfl

theorem addNode_new (hid : id ∉ g.nodes) (node : Node D) :
    g.addNode id node = (.ok (), g.setNode id node) := by
  simp [addNode, hid]

theorem addNode_existing (hid : id ∈ g.nodes) (node : Node D) :
    ∃ info, g.addNode id node = (.error info, g) :=
  ⟨_, by simp [addNode, hid]; rfl⟩

/-- **The rollback of a creation.**  Removing a node that was just inserted and has not been wired
restores the graph. -/
theorem Linked.removeNode_new (h : g.Linked) (hid : id ∉ g.nodes) (node : Node D) :
    (g.setNode id node).removeNode id = .ok (.ok (), g) := by
  have hdependents : (g.setNode id node).dependents id = [] := h.dependents_eq_nil hid
  rcases (h.setNode id node).removeNode_cases id with ⟨-, -, g', hrun, hremoved⟩ | ⟨info, -, hcause⟩
  -- The new node has no edges, so the removal erases its record and nothing else.
  · have hnodes : g'.nodes = g.nodes := by
      rw [hremoved.nodes]
      apply Finmap.ext_lookup
      intro n
      by_cases hn : n = id
      · subst hn
        rw [Finmap.lookup_erase, Finmap.lookup_eq_none.mpr hid]
      · rw [Finmap.lookup_erase_ne hn, lookup_setNode, if_neg hn]
    have hdependenciesMap : g'.dependenciesMap = g.dependenciesMap :=
      eq_of_erased hremoved.dependenciesKeys hremoved.dependencies
        (fun hkey => hid (h.dependenciesKey id (Finmap.mem_keys.mp hkey)))
        fun n hmem => hid (h.dependency_mem hmem)
    have hdependentsMap : g'.dependentsMap = g.dependentsMap :=
      eq_of_erased hremoved.dependentsKeys hremoved.dependents
        (fun hkey => hid (h.dependentsKey id (Finmap.mem_keys.mp hkey)))
        fun n hmem => hid (h.dependent_mem hmem)
    rw [hrun]
    cases g
    cases g'
    simp_all
  · rcases hcause with hmissing | ⟨n, hn, -⟩
    · simp at hmissing
    · rw [hdependents] at hn
      exact absurd hn List.not_mem_nil

/-- The conditions under which a node with given dependencies can be created. -/
structure Creatable (g : Graph D) (id : NodeId) (dependencies : List NodeId) : Prop where
  fresh : id ∉ g.nodes
  exist : ∀ d ∈ dependencies, d ∈ g.nodes
  nodup : dependencies.Nodup

/-- In a graph into which the node has just been inserted, wiring it is accepted exactly when it was
creatable. -/
theorem accepts_setNode_new (hid : id ∉ g.nodes) (node : Node D) (dependencies : List NodeId) :
    (g.setNode id node).Accepts id dependencies true ↔ g.Creatable id dependencies := by
  constructor
  · rintro ⟨-, hexist, hself, hnodup, -⟩
    refine ⟨hid, fun d hd => ?_, hnodup⟩
    rcases (mem_setNode g id d node).mp (hexist d hd) with rfl | hmem
    · exact absurd hd hself
    · exact hmem
  · rintro ⟨-, hexist, hnodup⟩
    exact ⟨by simp, fun d hd => by simp [hexist d hd], fun hself => hid (hexist id hself), hnodup,
      by simp⟩

theorem setNode_rewire_setNode (g : Graph D) (id : NodeId) (node node' : Node D)
    (dependencies : List NodeId) :
    ((g.setNode id node).rewire id dependencies).setNode id node' =
      (g.setNode id node').rewire id dependencies := by
  simp [setNode, rewire, Graph.dependencies, Finmap.insert_insert]

/-- A collection node is created, or nothing changes. -/
theorem Linked.addCollectionNode_cases (h : g.Linked) (id : NodeId) (dependencies : List NodeId)
    (operation : CollectionOperation) :
    (g.Creatable id dependencies ∧ (∀ code, operation ≠ .other code) ∧
      Compiler.addCollectionNode g id dependencies operation =
        .ok (.ok (), (g.setNode id (collectionNode id operation)).rewire id dependencies)) ∨
    (¬ (g.Creatable id dependencies ∧ ∀ code, operation ≠ .other code) ∧
      ∃ info, Compiler.addCollectionNode g id dependencies operation = .ok (.error info, g)) := by
  unfold Compiler.addCollectionNode
  -- The operation is tested first, then the id, then the dependencies.
  by_cases hvalid : isValidCollectionOperation operation = true
  · have hoperation := isValidCollectionOperation_iff.mp hvalid
    simp only [hvalid, Bool.not_true, Bool.false_eq_true, if_false]
    by_cases hid : id ∈ g.nodes
    · obtain ⟨info, hadd⟩ := addNode_existing hid ({} : Node D)
      exact Or.inr ⟨fun hall => hall.1.fresh hid, info, by rw [hadd]⟩
    · rw [addNode_new hid]
      dsimp only
      rcases setNodeDependencies_cases (g.setNode id {}) id dependencies true with
        ⟨haccepts, hrun⟩ | ⟨hrefuses, info, hrun⟩
      · refine Or.inl ⟨(accepts_setNode_new hid _ _).mp haccepts, hoperation, ?_⟩
        rw [hrun, ok_bind]
        dsimp only
        -- The record of the collection overwrites the placeholder of `addNode`.
        rw [compileCollectionFormula, if_pos hvalid, ok_bind, setNode_rewire_setNode]
        rfl
      · refine Or.inr ⟨fun hall => hrefuses ((accepts_setNode_new hid _ _).mpr hall.1), info, ?_⟩
        rw [hrun, ok_bind]
        dsimp only
        rw [h.removeNode_new hid, ok_bind]
  · exact Or.inr ⟨fun hall => hvalid (isValidCollectionOperation_iff.mpr hall.2), _,
      if_pos (by simp [hvalid])⟩

theorem compiler_setNodeDependencies (hnode : g.nodes.lookup id = some node)
    (htype : node.type ≠ .value) (dependencies : List NodeId) (skipCycleCheck : Bool) :
    Compiler.setNodeDependencies g id dependencies skipCycleCheck =
      g.setNodeDependencies id dependencies skipCycleCheck := by
  have hid := Finmap.mem_of_lookup_eq_some hnode
  simp [Compiler.setNodeDependencies, hid, node_of_lookup hnode, htype]

/-- A formula node is created, or nothing changes. -/
theorem Linked.addFormulaNode_cases (h : g.Linked) (id : NodeId) (formula : StdString) :
    (∃ ast : ExpressionTree D, compileAst id formula = .ok (.ok ast) ∧
      g.Creatable id (extractDependencies ast) ∧
      Compiler.addFormulaNode g id formula =
        .ok (.ok (), (g.setNode id (formulaNode ast)).rewire id (extractDependencies ast))) ∨
    ((∃ info, Compiler.addFormulaNode g id formula = .ok (.error info, g)) ∧
      ∀ ast : ExpressionTree D, compileAst id formula = .ok (.ok ast) →
        ¬ g.Creatable id (extractDependencies ast)) ∨
    (∃ reason, compileAst (D := D) id formula = .error reason ∧
      Compiler.addFormulaNode g id formula = .error reason) := by
  unfold Compiler.addFormulaNode
  by_cases hid : id ∈ g.nodes
  · obtain ⟨info, hadd⟩ := addNode_existing hid ({} : Node D)
    exact Or.inr (Or.inl ⟨⟨info, by rw [hadd]⟩, fun _ _ hcreatable => hcreatable.fresh hid⟩)
  · rw [addNode_new hid]
    dsimp only
    -- The record without a closure replaces the placeholder of `addNode`.
    have hinserted (node : Node D) : (g.setNode id {}).setNode id node = g.setNode id node := by
      simp [Graph.setNode, Finmap.insert_insert]
    rw [hinserted]
    generalize hempty :
      ({ formula := none, value := Double.zero, type := .formula, dirty := true } : Node D) = empty
    have htype : empty.type ≠ .value := by simp [← hempty]
    cases hcompile : compileAst (D := D) id formula with
    | error reason => exact Or.inr (Or.inr ⟨reason, rfl, rfl⟩)
    | ok compiled =>
        rw [ok_bind]
        cases compiled with
        | error info =>
            -- A text that does not parse: the creation is undone before anything was wired.
            refine Or.inr (Or.inl ⟨⟨info, ?_⟩, by simp⟩)
            dsimp only
            rw [h.removeNode_new hid, ok_bind]
        | ok ast =>
            dsimp only
            rw [compiler_setNodeDependencies (lookup_setNode_self g id empty) htype]
            rcases setNodeDependencies_cases (g.setNode id empty) id (extractDependencies ast)
              true with ⟨haccepts, hrun⟩ | ⟨hrefuses, info, hrun⟩
            · refine Or.inl ⟨ast, rfl, (accepts_setNode_new hid _ _).mp haccepts, ?_⟩
              rw [hrun, ok_bind]
              dsimp only
              -- The record that receives the closure is still the one that was inserted.
              rw [node_of_lookup ((lookup_rewire _ id _ id).trans (lookup_setNode_self g id empty)),
                ok_bind, setNode_rewire_setNode, ← hempty]
              rfl
            · refine Or.inr (Or.inl ⟨⟨info, ?_⟩, ?_⟩)
              · rw [hrun, ok_bind]
                dsimp only
                rw [h.removeNode_new hid, ok_bind]
              · intro ast' hast' hcreatable
                obtain rfl : ast = ast' := by simpa using hast'
                exact hrefuses ((accepts_setNode_new hid _ _).mpr hcreatable)

/-! ### Changes of a definition -/

/-- The formula of a formula node is replaced, or nothing changes. -/
theorem setNodeFormula_cases (g : Graph D) (id : NodeId) (formula : StdString) :
    (∃ (node : Node D) (ast : ExpressionTree D), g.nodes.lookup id = some node ∧
      node.type = .formula ∧ compileAst id formula = .ok (.ok ast) ∧
      g.Accepts id (extractDependencies ast) false ∧
      Compiler.setNodeFormula g id formula =
        .ok (.ok (), (g.rewire id (extractDependencies ast)).setNode id
          { node with formula := some (.expression ast) })) ∨
    ((∃ info, Compiler.setNodeFormula g id formula = .ok (.error info, g)) ∧
      ∀ (node : Node D) (ast : ExpressionTree D), g.nodes.lookup id = some node →
        node.type = .formula → compileAst id formula = .ok (.ok ast) →
          ¬ g.Accepts id (extractDependencies ast) false) ∨
    (∃ reason, compileAst (D := D) id formula = .error reason ∧
      Compiler.setNodeFormula g id formula = .error reason) := by
  unfold Compiler.setNodeFormula
  cases hlookup : g.nodes.lookup id with
  | none =>
      have hid : id ∉ g.nodes := Finmap.lookup_eq_none.mp hlookup
      exact Or.inr (Or.inl ⟨⟨_, if_pos (by simp [hid])⟩, by simp⟩)
  | some node =>
      have hid := Finmap.mem_of_lookup_eq_some hlookup
      rw [if_neg (by simp [hid]), node_of_lookup hlookup, ok_bind]
      by_cases htype : node.type = .formula
      · rw [if_neg (by simp [htype])]
        cases hcompile : compileAst (D := D) id formula with
        | error reason => exact Or.inr (Or.inr ⟨reason, rfl, rfl⟩)
        | ok compiled =>
            rw [ok_bind]
            cases compiled with
            | error info => exact Or.inr (Or.inl ⟨⟨info, rfl⟩, by simp⟩)
            | ok ast =>
                dsimp only
                rw [compiler_setNodeDependencies hlookup (by simp [htype])]
                rcases setNodeDependencies_cases g id (extractDependencies ast) false with
                  ⟨haccepts, hrun⟩ | ⟨hrefuses, info, hrun⟩
                · refine Or.inl ⟨node, ast, rfl, htype, rfl, haccepts, ?_⟩
                  rw [hrun, ok_bind]
                  dsimp only
                  rw [node_of_lookup ((lookup_rewire g id _ id).trans hlookup), ok_bind]
                  rfl
                · refine Or.inr (Or.inl ⟨⟨info, by rw [hrun, ok_bind]⟩, ?_⟩)
                  intro node' ast' _ _ hast'
                  obtain rfl : ast = ast' := by simpa using hast'
                  exact hrefuses
      · refine Or.inr (Or.inl ⟨⟨_, if_pos (by simp [htype])⟩, ?_⟩)
        intro node' ast hnode' htype'
        obtain rfl := Option.some.inj hnode'
        exact absurd htype' htype

/-- A collection node is rewired, or nothing changes. -/
theorem setCollectionNodeDependencies_cases (g : Graph D) (id : NodeId)
    (dependencies : List NodeId) :
    (∃ node, g.nodes.lookup id = some node ∧ node.type = .collection ∧
      g.Accepts id dependencies false ∧
      Compiler.setCollectionNodeDependencies g id dependencies =
        .ok (.ok (), g.rewire id dependencies)) ∨
    ((∃ info, Compiler.setCollectionNodeDependencies g id dependencies = .ok (.error info, g)) ∧
      ∀ node, g.nodes.lookup id = some node → node.type = .collection →
        ¬ g.Accepts id dependencies false) := by
  unfold Compiler.setCollectionNodeDependencies
  cases hlookup : g.nodes.lookup id with
  | none =>
      have hid : id ∉ g.nodes := Finmap.lookup_eq_none.mp hlookup
      exact Or.inr ⟨⟨_, if_pos (by simp [hid])⟩, by simp⟩
  | some node =>
      dsimp only
      by_cases htype : node.type = .collection
      · rw [if_neg (by simp [htype]), compiler_setNodeDependencies hlookup (by simp [htype])]
        rcases setNodeDependencies_cases g id dependencies false with
          ⟨haccepts, hrun⟩ | ⟨hrefuses, info, hrun⟩
        · exact Or.inl ⟨node, rfl, htype, haccepts, hrun⟩
        · exact Or.inr ⟨⟨info, hrun⟩, fun _ _ _ => hrefuses⟩
      · refine Or.inr ⟨⟨_, if_pos (by simp [htype])⟩, ?_⟩
        intro node' hnode' htype'
        obtain rfl := Option.some.inj hnode'
        exact absurd htype' htype

/-! ### The changes keep the graph sound -/

/-- After writing one record, every record has the shape of its type if that one has. -/
theorem typed_setNode {dependencies : NodeId → List NodeId}
    (hself : Typed (dependencies id) id node)
    (hother : ∀ n node', n ≠ id → g.nodes.lookup n = some node' →
      Typed (dependencies n) n node') :
    ∀ n node', (g.setNode id node).nodes.lookup n = some node' →
      Typed (dependencies n) n node' := by
  intro n node' hnode'
  rw [lookup_setNode] at hnode'
  split at hnode'
  · rename_i hn
    obtain rfl := Option.some.inj hnode'
    rwa [hn]
  · rename_i hn
    exact hother n node' hn hnode'

/-- Creating a node. -/
theorem Sound.create (h : g.Sound) {dependencies : List NodeId}
    (hcreatable : g.Creatable id dependencies) (htyped : Typed dependencies id node) :
    ((g.setNode id node).rewire id dependencies).Sound where
  linked := (h.linked.setNode id node).rewire (by simp) (fun d hd => by simp [hcreatable.exist d hd])
    hcreatable.nodup
  acyclic := by
    rw [dependsOn_rewire]
    apply (acyclic_redirect_iff h.acyclic id _).mpr
    intro d hd hpath
    -- Nothing that exists depends on the new node.
    have hdependsOn : (g.setNode id node).DependsOn = g.DependsOn := rfl
    exact hcreatable.fresh (h.linked.reached_mem (hcreatable.exist d hd) hpath)
  typed := by
    apply typed_setNode (by rwa [dependencies_rewire, if_pos rfl])
    intro n node' hn hnode'
    rw [dependencies_rewire, if_neg hn]
    exact h.typed n node' hnode'

/-- Changing the definition of a node. -/
theorem Sound.redefine (h : g.Sound) {dependencies : List NodeId}
    (haccepts : g.Accepts id dependencies false) (htyped : Typed dependencies id node) :
    ((g.rewire id dependencies).setNode id node).Sound where
  linked := (h.linked.rewire haccepts.node haccepts.exist haccepts.nodup).setNode id node
  acyclic := by
    have hdependsOn : ((g.rewire id dependencies).setNode id node).DependsOn =
        (g.rewire id dependencies).DependsOn := rfl
    rw [hdependsOn, dependsOn_rewire]
    exact (acyclic_redirect_iff h.acyclic id _).mpr (haccepts.noPath rfl)
  typed := by
    refine typed_setNode (by rwa [dependencies_setNode, dependencies_rewire, if_pos rfl])
      fun n node' hn hnode' => ?_
    rw [dependencies_setNode, dependencies_rewire, if_neg hn]
    exact h.typed n node' hnode'

/-- Changing the value of a value node. -/
theorem Sound.setValue (h : g.Sound) (hnode : g.nodes.lookup id = some node) (value : D) :
    (g.setNode id { node with value := value }).Sound where
  linked := h.linked.setNode id _
  acyclic := h.acyclic
  typed := by
    refine typed_setNode ?_ fun n node' _ hnode' => h.typed n node' hnode'
    apply (h.typed id node hnode).update
    intro htype
    by_contra hdirty
    exact (h.typed id node hnode).type_ne_value_of_dirty (by simpa using hdirty) htype

/-- Removing a node that no formula node depends on. -/
theorem Sound.removed (h : g.Sound) (hremoved : g.Removed id g')
    (hdependents : ∀ n ∈ g.dependents id, ∀ node, g.nodes.lookup n = some node →
      node.type ≠ .formula) : g'.Sound where
  linked := h.linked.removed hremoved
  acyclic := h.acyclic.mono fun n d hd => ((hremoved.mem_dependencies h.linked).mp hd).2.2
  typed n node hnode := by
    have hn : n ≠ id := by
      rintro rfl
      rw [hremoved.nodes, Finmap.lookup_erase] at hnode
      cases hnode
    rw [hremoved.nodes, Finmap.lookup_erase_ne hn] at hnode
    rw [hremoved.dependencies, if_neg hn]
    have htyped := h.typed n node hnode
    by_cases hmem : id ∈ g.dependencies n
    · -- Only a collection node loses a dependency.
      have htype := hdependents n ((h.linked.mirror n id).mp hmem) node hnode
      cases htyped with
      | value _ _ _ hnil =>
          rw [hnil] at hmem
          exact absurd hmem List.not_mem_nil
      | formula _ htype' => exact absurd htype' htype
      | collection htype' hformula hoperation => exact .collection htype' hformula hoperation
    · rwa [List.erase_of_not_mem hmem]

end Graph

end StatForge.StatKernel
