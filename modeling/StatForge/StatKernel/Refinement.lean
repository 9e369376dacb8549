import StatForge.Lib.Simulation
import StatForge.StatKernel.Sheet
import StatForge.StatKernel.Transitions

/-!
# The kernel refines the sheet

* `Represents` — the kernel is consistent, and its nodes have the definitions of the sheet.
* `agrees_*` — a call that the compiler refuses, or from which it does not return, has the same fate
  on the sheet.
* `step_returned`, `step_failed` — one call; `kernel_refines_sheet` — every run.
-/

namespace StatForge.StatKernel

open Relation Successors ExceptBind Dsl StatForge.StatKernel.Graph

variable {D : Type} [Double D]

/-! ### Graphs and sheets -/

namespace Graph

variable {g g' : Graph D} {id n d : NodeId} {node node' : Node D} {own : Definition D}

theorem Sound.definition_ne_none (h : g.Sound) : g.definition id ≠ none ↔ id ∈ g.nodes := by
  cases hnode : g.nodes.lookup id with
  | none => simp [definition, hnode, Finmap.lookup_eq_none.mp hnode]
  | some node =>
      obtain ⟨own, hown, -⟩ := h.definition_of_lookup hnode
      simp [hown, Finmap.mem_of_lookup_eq_some hnode]

/-- A definition needs the dependencies that the graph records. -/
theorem Sound.dependencies_of_definition (h : g.Sound) (hown : g.definition id = some own) :
    own.dependencies = g.dependencies id := by
  cases hnode : g.nodes.lookup id with
  | none => simp [definition, hnode] at hown
  | some node =>
      cases h.typed id node hnode with
      | value htype _ _ hdependencies =>
          simp only [definition, hnode, htype, Option.some.injEq] at hown
          rw [← hown, hdependencies]
          rfl
      | formula ast htype hformula hdependencies =>
          simp only [definition, hnode, htype, hformula, Option.some.injEq] at hown
          rw [← hown, hdependencies]
          rfl
      | collection htype =>
          simp only [definition, hnode, htype, Option.some.injEq] at hown
          rw [← hown]
          rfl

theorem Sound.needs_eq (h : g.Sound) : Needs g.definition = g.DependsOn := by
  funext n d
  apply propext
  constructor
  · rintro ⟨own, hown, hd⟩
    rwa [h.dependencies_of_definition hown] at hd
  · intro hd
    obtain ⟨own, hown⟩ :=
      Option.ne_none_iff_exists'.mp (h.definition_ne_none.mpr (h.linked.owner_mem hd))
    exact ⟨own, hown, by rwa [h.dependencies_of_definition hown]⟩

/-- The definitions of a sound graph make a sheet. -/
def sheet (g : Graph D) (h : g.Sound) : Sheet D where
  definition := g.definition
  finite := by
    refine g.nodes.keys.finite_toSet.subset fun n hn => ?_
    exact Finmap.mem_keys.mpr (h.definition_ne_none.mp hn)
  exist n d hneeds := by
    rw [h.needs_eq] at hneeds
    exact h.definition_ne_none.mpr (h.linked.dependency_mem hneeds)
  acyclic := by
    rw [h.needs_eq]
    exact h.acyclic
  nodup n own hown := by
    rw [h.dependencies_of_definition hown]
    exact h.linked.dependenciesNodup n

/-! ### Definitions after a change -/

theorem definition_of_value (hnode : g.nodes.lookup id = some node) (htype : node.type = .value) :
    g.definition id = some (.value node.value) := by
  simp only [definition, hnode, htype]

/-- The definition that a record has over given dependencies. -/
def definitionOf (node : Node D) (dependencies : List NodeId) : Option (Definition D) :=
  match node.type, node.formula with
  | .value, _ => some (.value node.value)
  | .formula, some (.expression ast) => some (.formula ast)
  | .formula, _ => none
  | .collection, _ => some (.collection node.collectionOperation dependencies)

theorem definition_eq_definitionOf (hnode : g.nodes.lookup id = some node) :
    g.definition id = definitionOf node (g.dependencies id) := by
  cases htype : node.type with
  | value => simp only [definition, definitionOf, hnode, htype]
  | collection => simp only [definition, definitionOf, hnode, htype]
  | formula =>
      cases hformula : node.formula with
      | none => simp only [definition, definitionOf, hnode, htype, hformula]
      | some formula =>
          cases formula <;> simp only [definition, definitionOf, hnode, htype, hformula]

/-- A graph in which one record and its dependencies are written, and nothing else. -/
theorem definition_written (hlookup : ∀ n, g'.nodes.lookup n =
      if n = id then some node else g.nodes.lookup n)
    (hdependencies : ∀ n, n ≠ id → g'.dependencies n = g.dependencies n)
    (hown : definitionOf node (g'.dependencies id) = some own) :
    g'.definition = Function.update g.definition id (some own) := by
  funext n
  by_cases hn : n = id
  · subst hn
    rw [Function.update_self, definition_eq_definitionOf (by rw [hlookup, if_pos rfl]), hown]
  · rw [Function.update_of_ne hn]
    simp only [definition, hlookup, if_neg hn, hdependencies n hn]

/-- Removing a node takes its definition away, and the node out of the collections. -/
theorem Removed.definition_eq (h : g.Sound) (hremoved : g.Removed id g')
    (hdependents : ∀ n ∈ g.dependents id, ∀ node, g.nodes.lookup n = some node →
      node.type ≠ .formula) : g'.definition = Sheet.dropDefinition g.definition id := by
  have hsound := h.removed hremoved hdependents
  funext n
  unfold Sheet.dropDefinition
  split
  · rename_i hn
    rw [hn, definition, hremoved.nodes, Finmap.lookup_erase]
  · rename_i hn
    have hlookup : g'.nodes.lookup n = g.nodes.lookup n := by
      rw [hremoved.nodes, Finmap.lookup_erase_ne hn]
    cases hnode : g.nodes.lookup n with
    | none => simp [definition, hlookup, hnode]
    | some node =>
        cases h.typed n node hnode with
        | value htype => simp [definition, hlookup, hnode, htype, Definition.without]
        | formula ast htype hformula =>
            simp [definition, hlookup, hnode, htype, hformula, Definition.without]
        | collection htype =>
            simp [definition, hlookup, hnode, htype, Definition.without, hremoved.dependencies, hn]

end Graph

/-- The kernel is consistent, and its nodes have the definitions of the sheet. -/
structure Represents (kernel : StatKernel D) (sheet : Sheet D) : Prop where
  consistent : kernel.Consistent
  definition : kernel.graph.definition = sheet.definition

theorem Consistent.represents {kernel : StatKernel D} (h : kernel.Consistent) :
    kernel.Represents (kernel.graph.sheet h.sound) := ⟨h, rfl⟩

theorem Represents.fresh : (fresh : StatKernel D).Represents Sheet.empty := by
  refine ⟨.fresh, ?_⟩
  funext id
  simp [StatKernel.fresh, Graph.definition, Sheet.empty]

section Represents

variable {kernel : StatKernel D} {sheet : Sheet D} {id n d : NodeId}

theorem Represents.has_iff (h : kernel.Represents sheet) :
    sheet.Has id ↔ id ∈ kernel.graph.nodes := by
  rw [Sheet.Has, ← h.definition]
  exact h.consistent.sound.definition_ne_none

theorem Represents.needs_eq (h : kernel.Represents sheet) :
    sheet.Needs = kernel.graph.DependsOn := by
  rw [Sheet.Needs, ← h.definition]
  exact h.consistent.sound.needs_eq

end Represents

/-! ### Refusals -/

/-- The error code of a result. -/
def refusal : VoidResult → Option ErrorCode
  | .ok () => none
  | .error info => some info.errorCode

/-- The graph in which dependencies of `id` are checked: it has the nodes of the sheet, and `id`, and
the path search answers for the needs of the sheet or may be skipped. -/
structure Judges (sheet : Sheet D) (g : Graph D) (id : NodeId) (skipCycleCheck : Bool) : Prop where
  node : id ∈ g.nodes
  exist : ∀ d, d ≠ id → (d ∈ g.nodes ↔ sheet.Has d)
  path : ∀ d, d ≠ id → sheet.Has d →
    (skipCycleCheck = false ∧ ReflTransGen g.DependsOn d id ↔ ReflTransGen sheet.Needs d id)

section Judges

variable {sheet : Sheet D} {g : Graph D} {id : NodeId} {skipCycleCheck : Bool}

/-- The first loop raises the first objection. -/
theorem refusal_checkDependencies (h : Judges sheet g id skipCycleCheck)
    (newDeps : List NodeId) :
    ∃ result, g.checkDependencies id skipCycleCheck newDeps = .ok result ∧
      refusal result = newDeps.findSome? (sheet.objectionTo id) := by
  induction newDeps with
  | nil => exact ⟨_, rfl, rfl⟩
  | cons d newDeps ih =>
      obtain ⟨result, hrun, hresult⟩ := ih
      by_cases hself : d = id
      · subst hself
        exact ⟨_, by simp [checkDependencies, h.node]; rfl,
          by simp [refusal, buildErrorInfo, Sheet.objectionTo]⟩
      · by_cases hexists : d ∈ g.nodes
        · have hhas := (h.exist d hself).mp hexists
          have hpath := h.path d hself hhas
          cases skipCycleCheck with
          | true =>
              have hnone : sheet.objectionTo id d = none :=
                Sheet.objectionTo_eq_none.mpr
                  ⟨hself, hhas, fun hneeds => by simpa using hpath.mpr hneeds⟩
              exact ⟨result, by simp [checkDependencies, hexists, hself, hrun],
                by rw [hresult, List.findSome?_cons, hnone]⟩
          | false =>
              obtain ⟨found, hsearch, hfound⟩ := hasPath_spec d id g.dependenciesMap
              change found = true ↔ ReflTransGen g.DependsOn d id at hfound
              rw [eq_self_iff_true, true_and, ← hfound] at hpath
              cases found with
              | true =>
                  refine ⟨_, by simp [checkDependencies, hexists, hself, hsearch]; rfl, ?_⟩
                  have hloop : sheet.objectionTo id d = some .dependencyLoop := by
                    rw [Sheet.objectionTo, if_neg hself, if_neg (not_not.mpr hhas),
                      if_pos (hpath.mp rfl)]
                  rw [List.findSome?_cons, hloop]
                  rfl
              | false =>
                  have hnone : sheet.objectionTo id d = none := Sheet.objectionTo_eq_none.mpr
                    ⟨hself, hhas, fun hneeds => by simpa using hpath.mpr hneeds⟩
                  exact ⟨result, by simp [checkDependencies, hexists, hself, hsearch, hrun],
                    by rw [hresult, List.findSome?_cons, hnone]⟩
        · refine ⟨_, by simp [checkDependencies, hexists]; rfl, ?_⟩
          have hmissing : sheet.objectionTo id d = some .dependencyDoesntExist := by
            rw [Sheet.objectionTo, if_neg hself,
              if_pos fun hhas => hexists ((h.exist d hself).mpr hhas)]
          rw [List.findSome?_cons, hmissing]
          rfl

/-- The second loop objects to duplicates only. -/
theorem refusal_checkDuplicates (id : NodeId) (seen : Finset NodeId) (newDeps : List NodeId) :
    refusal (checkDuplicates id seen newDeps) = none ∨
      refusal (checkDuplicates id seen newDeps) = some .duplicateDependency := by
  induction newDeps generalizing seen with
  | nil => exact Or.inl rfl
  | cons d newDeps ih =>
      rw [checkDuplicates]
      split
      · exact Or.inr rfl
      · exact ih _

/-- **The dependencies are judged as the sheet judges them.** -/
theorem setNodeDependencies_judged (h : Judges sheet g id skipCycleCheck)
    (newDeps : List NodeId) :
    (sheet.objection id newDeps = none ∧
      g.setNodeDependencies id newDeps skipCycleCheck = .ok (.ok (), g.rewire id newDeps)) ∨
    ∃ info, sheet.objection id newDeps = some info.errorCode ∧
      g.setNodeDependencies id newDeps skipCycleCheck = .ok (.error info, g) := by
  obtain ⟨result, hrun, hresult⟩ := refusal_checkDependencies h newDeps
  have hnode := h.node
  cases result with
  | error info =>
      refine Or.inr ⟨info, ?_, by simp [Graph.setNodeDependencies, hnode, hrun]⟩
      rw [Sheet.objection, ← hresult]
      rfl
  | ok done =>
      have hnodup := checkDuplicates_eq_ok_iff id ∅ newDeps
      have hcode := refusal_checkDuplicates id ∅ newDeps
      rw [Sheet.objection, ← hresult]
      cases hdistinct : checkDuplicates id ∅ newDeps with
      | ok done =>
          rw [hdistinct] at hnodup
          refine Or.inl ⟨?_, by simp [Graph.setNodeDependencies, hnode, hrun, hdistinct]⟩
          rw [if_pos (hnodup.mp rfl).1]
          rfl
      | error info =>
          rw [hdistinct] at hnodup hcode
          have hduplicate : ¬ newDeps.Nodup := fun hall => by
            simpa using hnodup.mpr ⟨hall, by simp⟩
          refine Or.inr ⟨info, ?_, by simp [Graph.setNodeDependencies, hnode, hrun, hdistinct]⟩
          rw [if_neg hduplicate]
          exact (hcode.resolve_left (by simp [refusal])).symm

end Judges

section Compiler

variable {kernel : StatKernel D} {sheet : Sheet D} {id : NodeId}

/-- Nothing that exists needs a node that does not. -/
theorem Represents.not_needed (h : kernel.Represents sheet) (hid : ¬ sheet.Has id) {d : NodeId}
    (hd : sheet.Has d) : ¬ ReflTransGen sheet.Needs d id := by
  rw [h.needs_eq]
  rw [h.has_iff] at hid hd
  exact fun hpath => hid (h.consistent.sound.linked.reached_mem hd hpath)

/-- A creation inserts its node first and skips the path search. -/
theorem Represents.judges_new (h : kernel.Represents sheet) (hid : ¬ sheet.Has id) (node : Node D) :
    Judges sheet (kernel.graph.setNode id node) id true where
  node := by simp
  exist d hd := by simp [hd, h.has_iff]
  path d _ hd := by simp [h.not_needed hid hd]

theorem Represents.judges_old (h : kernel.Represents sheet) (hid : sheet.Has id) :
    Judges sheet kernel.graph id false where
  node := h.has_iff.mp hid
  exist d _ := h.has_iff.symm
  path d _ _ := by rw [h.needs_eq, eq_self_iff_true, true_and]

/-- What the sheet says of a compiler call that is refused or does not return. -/
def Agrees (verdict : Except Abort (Except ErrorCode (Sheet D))) :
    Except Abort (VoidResult × Graph D) → Prop
  | .error reason => verdict = .error reason
  | .ok (.error info, _) => verdict = .ok (.error info.errorCode)
  | .ok (.ok (), _) => True

theorem agrees_addValueNode (h : kernel.Represents sheet) (id : NodeId) (value : D) :
    Agrees (sheet.change (.createValueNode id value))
      (.ok (Compiler.addValueNode kernel.graph id value)) := by
  by_cases hid : sheet.Has id
  · have hmem := h.has_iff.mp hid
    simp [Agrees, Compiler.addValueNode, Graph.addNode, hmem, buildErrorInfo, Sheet.change,
      Sheet.create, hid]
  · rw [Compiler.addValueNode, addNode_new fun hmem => hid (h.has_iff.mpr hmem)]
    trivial

theorem agrees_addCollectionNode (h : kernel.Represents sheet) (id : NodeId)
    (dependencies : List NodeId) (operation : CollectionOperation) :
    Agrees (sheet.change (.createCollectionNode id dependencies operation))
      (Compiler.addCollectionNode kernel.graph id dependencies operation) := by
  unfold Compiler.addCollectionNode Sheet.change
  by_cases hvalid : isValidCollectionOperation operation = true
  · simp only [hvalid, Bool.not_true, Bool.false_eq_true, if_false, if_true]
    by_cases hid : sheet.Has id
    · have hmem := h.has_iff.mp hid
      simp [Agrees, Graph.addNode, hmem, buildErrorInfo, Sheet.create, hid]
    · have hmem : id ∉ kernel.graph.nodes := fun hmem => hid (h.has_iff.mpr hmem)
      rw [addNode_new hmem, Sheet.create, if_neg hid]
      dsimp only
      rcases setNodeDependencies_judged (h.judges_new hid {}) dependencies with
        ⟨-, hrun⟩ | ⟨info, hobjection, hrun⟩
      · rw [hrun, ok_bind]
        dsimp only
        rw [compileCollectionFormula, if_pos hvalid]
        trivial
      · rw [hrun, ok_bind]
        dsimp only
        rw [h.consistent.sound.linked.removeNode_new hmem, ok_bind]
        exact congrArg Except.ok (Sheet.tryDefine_of_objection _ hobjection)
  · simp [Agrees, hvalid, buildErrorInfo]

theorem agrees_addFormulaNode (h : kernel.Represents sheet) (id : NodeId) (text : StdString) :
    Agrees (sheet.change (.createFormulaNode id text))
      (Compiler.addFormulaNode kernel.graph id text) := by
  unfold Compiler.addFormulaNode Sheet.change
  by_cases hid : sheet.Has id
  · have hmem := h.has_iff.mp hid
    simp [Agrees, Graph.addNode, hmem, buildErrorInfo, hid]
  · have hmem : id ∉ kernel.graph.nodes := fun hmem => hid (h.has_iff.mpr hmem)
    rw [addNode_new hmem]
    simp only [hid, if_false]
    -- The record without a closure replaces the placeholder of `addNode`.
    have hinserted (node : Node D) : (kernel.graph.setNode id {}).setNode id node =
        kernel.graph.setNode id node := by
      simp [Graph.setNode, Finmap.insert_insert]
    rw [hinserted, Sheet.withTree]
    cases compileAst (D := D) id text with
    | error reason => rfl
    | ok compiled =>
        rw [ok_bind, ok_bind]
        cases compiled with
        | error info =>
            dsimp only
            rw [h.consistent.sound.linked.removeNode_new hmem]
            rfl
        | ok ast =>
            dsimp only
            rw [compiler_setNodeDependencies (lookup_setNode_self _ id _) (by simp)]
            rcases setNodeDependencies_judged (h.judges_new hid _) (extractDependencies ast) with
              ⟨-, hrun⟩ | ⟨info, hobjection, hrun⟩
            · rw [hrun, ok_bind]
              dsimp only
              rw [node_of_lookup ((lookup_rewire _ id _ id).trans (lookup_setNode_self _ id _))]
              trivial
            · rw [hrun, ok_bind]
              dsimp only
              rw [h.consistent.sound.linked.removeNode_new hmem, ok_bind]
              exact congrArg Except.ok
                (Sheet.tryDefine_of_objection (.formula ast) hobjection)

theorem agrees_setNodeFormula (h : kernel.Represents sheet) (id : NodeId) (text : StdString) :
    Agrees (sheet.change (.setNodeFormula id text))
      (Compiler.setNodeFormula kernel.graph id text) := by
  unfold Compiler.setNodeFormula Sheet.change
  rw [← h.definition]
  dsimp only
  cases hnode : kernel.graph.nodes.lookup id with
  | none =>
      have hmem : id ∉ kernel.graph.nodes := Finmap.lookup_eq_none.mp hnode
      simp [Agrees, hmem, buildErrorInfo, Graph.definition, hnode]
  | some node =>
      have hmem := Finmap.mem_of_lookup_eq_some hnode
      have hid : sheet.Has id := h.has_iff.mpr hmem
      rw [if_neg (by simp [hmem]), node_of_lookup hnode, ok_bind]
      cases h.consistent.sound.typed id node hnode with
      | value htype => simp [Agrees, htype, buildErrorInfo, Graph.definition, hnode]
      | collection htype => simp [Agrees, htype, buildErrorInfo, Graph.definition, hnode]
      | formula old htype hformula =>
          have hold : kernel.graph.definition id = some (.formula old) := by
            simp [Graph.definition, hnode, htype, hformula]
          rw [if_neg (by simp [htype]), hold, Sheet.withTree]
          cases compileAst (D := D) id text with
          | error reason => rfl
          | ok compiled =>
              rw [ok_bind, ok_bind]
              cases compiled with
              | error info => rfl
              | ok ast =>
                  dsimp only
                  rw [compiler_setNodeDependencies hnode (by simp [htype])]
                  rcases setNodeDependencies_judged (h.judges_old hid) (extractDependencies ast)
                    with ⟨-, hrun⟩ | ⟨info, hobjection, hrun⟩
                  · rw [hrun, ok_bind]
                    dsimp only
                    rw [node_of_lookup ((lookup_rewire _ id _ id).trans hnode)]
                    trivial
                  · rw [hrun, ok_bind]
                    exact congrArg Except.ok
                      (Sheet.tryDefine_of_objection (.formula ast) hobjection)

theorem agrees_setCollectionNodeDependencies (h : kernel.Represents sheet) (id : NodeId)
    (dependencies : List NodeId) :
    Agrees (sheet.change (.setNodeDependencies id dependencies))
      (Compiler.setCollectionNodeDependencies kernel.graph id dependencies) := by
  unfold Compiler.setCollectionNodeDependencies Sheet.change
  rw [← h.definition]
  cases hnode : kernel.graph.nodes.lookup id with
  | none =>
      have hmem : id ∉ kernel.graph.nodes := Finmap.lookup_eq_none.mp hnode
      simp [Agrees, Compiler.setNodeDependencies, hmem, buildErrorInfo, Graph.definition, hnode]
  | some node =>
      have hid : sheet.Has id := h.has_iff.mpr (Finmap.mem_of_lookup_eq_some hnode)
      cases h.consistent.sound.typed id node hnode with
      | value htype => simp [Agrees, htype, buildErrorInfo, Graph.definition, hnode]
      | formula ast htype hformula =>
          simp [Agrees, htype, hformula, buildErrorInfo, Graph.definition, hnode]
      | collection htype =>
          have hold : kernel.graph.definition id = some (.collection node.collectionOperation
              (kernel.graph.dependencies id)) := by
            simp [Graph.definition, hnode, htype]
          dsimp only
          rw [hold, if_neg (by simp [htype]), compiler_setNodeDependencies hnode (by simp [htype])]
          rcases setNodeDependencies_judged (h.judges_old hid) dependencies with
            ⟨-, hrun⟩ | ⟨info, hobjection, hrun⟩
          · rw [hrun]
            trivial
          · rw [hrun]
            exact congrArg Except.ok (Sheet.tryDefine_of_objection
              (.collection node.collectionOperation dependencies) hobjection)

/-- The node may be removed exactly if none of its dependents is a formula node. -/
theorem Represents.removable_iff (h : kernel.Represents sheet) :
    sheet.Removable id ↔ ∀ n ∈ kernel.graph.dependents id, ∀ node,
      kernel.graph.nodes.lookup n = some node → node.type ≠ .formula := by
  have hsound := h.consistent.sound
  unfold Sheet.Removable
  rw [← h.definition]
  constructor
  · intro hremovable n hn node hnode htype
    rw [← hsound.linked.mirror n id] at hn
    cases hsound.typed n node hnode with
    | value htype' => simp [htype'] at htype
    | collection htype' => simp [htype'] at htype
    | formula ast _ hformula hdependencies =>
        exact hremovable n ast (by simp [Graph.definition, hnode, htype, hformula])
          (hdependencies ▸ hn)
  · intro hdependents n ast hdefinition hmem
    have hdependency : id ∈ kernel.graph.dependencies n := by
      rw [← hsound.dependencies_of_definition hdefinition]
      exact hmem
    obtain ⟨node, hnode⟩ := Finmap.mem_iff.mp (hsound.linked.owner_mem hdependency)
    have htype := hdependents n ((hsound.linked.mirror n id).mp hdependency) node hnode
    cases hsound.typed n node hnode with
    | value htype' => simp [Graph.definition, hnode, htype'] at hdefinition
    | collection htype' => simp [Graph.definition, hnode, htype'] at hdefinition
    | formula _ htype' => exact htype htype'

theorem checkDependents_code {g : Graph D} {dependents : List NodeId} {info : ErrorInfo}
    (h : g.checkDependents id dependents = .ok (.error info)) :
    info.errorCode = .dependentFormulaNode := by
  induction dependents with
  | nil => cases h
  | cons n dependents ih =>
      rw [Graph.checkDependents, bind_eq_ok] at h
      obtain ⟨node, -, h⟩ := h
      split at h
      · rw [← Except.error.inj (Except.ok.inj h)]
        rfl
      · exact ih h

theorem agrees_removeNode (h : kernel.Represents sheet) (id : NodeId) :
    Agrees (sheet.change (.removeNode id)) (kernel.graph.removeNode id) := by
  have hlinked := h.consistent.sound.linked
  unfold Sheet.change
  by_cases hid : sheet.Has id
  · have hmem := h.has_iff.mp hid
    rcases hlinked.removeNode_cases id with ⟨-, -, g, hrun, -⟩ | ⟨info, hrun, hcause⟩
    · rw [hrun]
      trivial
    · obtain ⟨n, hn, node, hnode, htype⟩ := hcause.resolve_left (not_not.mpr hmem)
      have hblocked : ¬ sheet.Removable id := fun hremovable =>
        h.removable_iff.mp hremovable n hn node hnode htype
      rw [hrun]
      simp only [hid, not_true, if_false, hblocked, dif_neg, not_false_eq_true]
      obtain ⟨result, hcheck, -⟩ :=
        checkDependents_spec kernel.graph id fun n hn => hlinked.dependent_mem (d := id) hn
      cases result with
      | ok done =>
          obtain ⟨g₁, g₂, hrun₁, hrun₂, -⟩ := hlinked.unlink id
          simp [Graph.removeNode, hmem, hcheck, hrun₁, hrun₂] at hrun
      | error info' =>
          have hsame : info' = info := by
            simpa [Graph.removeNode, hmem, hcheck] using hrun
          rw [hsame] at hcheck
          rw [Agrees, checkDependents_code hcheck]
  · have hmem : id ∉ kernel.graph.nodes := fun hmem => hid (h.has_iff.mpr hmem)
    simp [Agrees, Graph.removeNode, hmem, hid, buildErrorInfo]

end Compiler

/-! ### Reads -/

section Reads

variable {g : Graph D} {sheet : Sheet D} {id : NodeId} {node : Node D} {value : D}

/-- In a graph that is up to date, a clean node stores the value that the sheet yields. -/
theorem yields_of_clean (hsound : g.Sound) (hcurrent : g.UpToDate)
    (hdefinition : sheet.definition = g.definition) (hnode : g.nodes.lookup id = some node)
    (hclean : g.isDirty id = false) : sheet.Yields id node.value := by
  induction hrank : rank g.nodes.keys g.DependsOn id using Nat.strong_induction_on
    generalizing id node with
  | _ r ih =>
      obtain ⟨own, hown, -, hreads, -⟩ := hsound.definition_of_lookup hnode
      have hdependencies := hsound.dependencies_of_definition hown
      let values : NodeId → D := fun d => ((g.nodes.lookup d).map Node.value).getD Double.zero
      have hstored : ∀ d ∈ g.dependencies id, ∃ node', g.nodes.lookup d = some node' ∧
          values d = node'.value := by
        intro d hd
        obtain ⟨node', hnode'⟩ := Finmap.mem_iff.mp (hsound.linked.dependency_mem hd)
        exact ⟨node', hnode', by simp [values, hnode']⟩
      refine .intro values (hdefinition ▸ hown) (fun d hd => ?_) ?_
      · rw [hdependencies] at hd
        obtain ⟨node', hnode', hvalue⟩ := hstored d hd
        rw [hvalue]
        exact ih _ (hrank ▸ hsound.rank_lt hd) hnode' (hcurrent.clean_dependency hclean hd) rfl
      · rw [← hcurrent.current id hclean node own hnode hown]
        apply Definition.eval_congr
        intro d hd
        obtain ⟨node', hnode', hvalue⟩ := hstored d (hreads d hd)
        rw [hvalue, valueOf_of_lookup hnode']

/-- A value that the sheet yields is the recomputed one. -/
theorem recompute_of_yields (hsound : g.Sound) (hdefinition : sheet.definition = g.definition)
    (hyields : sheet.Yields id value) {fuel : Nat}
    (hfuel : rank g.nodes.keys g.DependsOn id < fuel) :
    recompute g.definition fuel id = .ok value := by
  induction hyields generalizing fuel with
  | @intro id own value values hown _ heval ih =>
      obtain ⟨fuel, rfl⟩ : ∃ fuel', fuel = fuel' + 1 := ⟨fuel - 1, by omega⟩
      rw [hdefinition] at hown
      rw [recompute, hown]
      dsimp only
      rw [← heval]
      apply Definition.eval_congr
      intro d hd
      have hneeds := Definition.reads_subset hd
      have hlt := hsound.rank_lt (hsound.dependencies_of_definition hown ▸ hneeds)
      exact ih d hneeds (by omega)

/-- A node below which something is unreachable yields no value. -/
theorem read_of_aborts (hsound : g.Sound) (hdefinition : sheet.definition = g.definition)
    (hid : id ∈ g.nodes) {reason : Abort} (habort : g.AbortsAt [id] reason) :
    sheet.read id = .error reason := by
  obtain ⟨rfl, id', hid', n, hpath, hn⟩ := habort
  obtain rfl := List.mem_singleton.mp hid'
  have hhas : sheet.Has id' := by
    rw [Sheet.Has, hdefinition]
    exact hsound.definition_ne_none.mpr hid
  have hneeds : sheet.Needs = g.DependsOn := by
    rw [Sheet.Needs, hdefinition, hsound.needs_eq]
  rw [Sheet.read, if_neg (not_not.mpr hhas), dif_neg]
  rintro ⟨value, hvalue⟩
  obtain ⟨value', hvalue'⟩ := hvalue.reached (hneeds ▸ hpath)
  have hlt := hsound.rank_lt_card (hsound.linked.reached_mem hid hpath)
  have hrecompute := recompute_of_yields hsound hdefinition hvalue' hlt
  rw [hn _ le_rfl] at hrecompute
  cases hrecompute

end Reads

/-! ### One call -/

/-- What a caller sees of a reply. -/
def Reply.answer : Reply D → Sheet.Answer D
  | .void => .done
  | .result (.ok ()) => .done
  | .result (.error info) => .failed info.errorCode
  | .value (.ok found) => .value found
  | .value (.error info) => .failed info.errorCode

theorem Sheet.step_of_change {sheet : Sheet D} {op : Op D} {verdict : Except ErrorCode (Sheet D)}
    (hop : ∀ id, op ≠ .getNodeValue id) (h : sheet.change op = .ok verdict) :
    sheet.step op = .ok (sheet.conclude verdict) := by
  cases op with
  | getNodeValue id => exact absurd rfl (hop id)
  | _ =>
      simp only [Sheet.step, h]
      rfl

section Step

variable {kernel next : StatKernel D} {sheet : Sheet D} {op : Op D} {reply : Reply D}

/-- A refusal of the compiler is what the call reports. -/
theorem refused_of_andThen {change : Except Abort (VoidResult × Graph D)}
    {bookkeeping : StatKernel D → Except Abort (StatKernel D)} {info : ErrorInfo}
    (h : voidReply <$> kernel.andThen change bookkeeping = .ok (.result (.error info), next)) :
    ∃ g, change = .ok (.error info, g) := by
  unfold andThen at h
  cases change with
  | error reason => cases h
  | ok outcome =>
      obtain ⟨result, g⟩ := outcome
      cases result with
      | error info' =>
          simp only [ok_bind] at h
          cases h
          exact ⟨g, rfl⟩
      | ok done =>
          simp only [ok_bind] at h
          cases hrun : bookkeeping { kernel with graph := g } with
          | error reason => rw [hrun] at h; cases h
          | ok next' => rw [hrun] at h; cases h

/-- **A refused call** is refused by the sheet, with the same code. -/
theorem step_refused (h : kernel.Represents sheet) {info : ErrorInfo}
    (hstep : kernel.step op = .ok (.result (.error info), next)) :
    sheet.step op = .ok (.failed info.errorCode, sheet) := by
  cases op with
  | createValueNode id value =>
      have hagrees := agrees_addValueNode h id value
      simp only [step, createValueNode] at hstep
      cases hadd : Compiler.addValueNode kernel.graph id value with
      | mk result g =>
          rw [hadd] at hagrees hstep
          cases hstep
          exact Sheet.step_of_change (by simp) hagrees
  | createFormulaNode id text =>
      obtain ⟨g, hrun⟩ := refused_of_andThen hstep
      have hagrees := agrees_addFormulaNode h id text
      rw [hrun] at hagrees
      exact Sheet.step_of_change (by simp) hagrees
  | createCollectionNode id dependencies operation =>
      obtain ⟨g, hrun⟩ := refused_of_andThen hstep
      have hagrees := agrees_addCollectionNode h id dependencies operation
      rw [hrun] at hagrees
      exact Sheet.step_of_change (by simp) hagrees
  | setNodeFormula id text =>
      obtain ⟨g, hrun⟩ := refused_of_andThen hstep
      have hagrees := agrees_setNodeFormula h id text
      rw [hrun] at hagrees
      exact Sheet.step_of_change (by simp) hagrees
  | setNodeDependencies id dependencies =>
      obtain ⟨g, hrun⟩ := refused_of_andThen hstep
      have hagrees := agrees_setCollectionNodeDependencies h id dependencies
      rw [hrun] at hagrees
      exact Sheet.step_of_change (by simp) hagrees
  | removeNode id =>
      simp only [step, removeNode] at hstep
      obtain ⟨g, hrun⟩ := refused_of_andThen hstep
      have hagrees := agrees_removeNode h id
      rw [hrun] at hagrees
      exact Sheet.step_of_change (by simp) hagrees
  | setNodeValue id value =>
      suffices hchange : sheet.change (.setNodeValue id value) = .ok (.error info.errorCode) from
        Sheet.step_of_change (by simp) hchange
      rw [Sheet.change, ← h.definition]
      simp only [step, setNodeValue] at hstep
      cases hnode : kernel.graph.nodes.lookup id with
      | none =>
          have hmem : id ∉ kernel.graph.nodes := Finmap.lookup_eq_none.mp hnode
          rw [if_pos (by simp [hmem])] at hstep
          cases hstep
          simp [Graph.definition, hnode, buildErrorInfo]
      | some node =>
          have hmem := Finmap.mem_of_lookup_eq_some hnode
          rw [if_neg (by simp [hmem]), node_of_lookup hnode, ok_bind] at hstep
          cases h.consistent.sound.typed id node hnode with
          | value htype =>
              rw [if_neg (by simp [htype])] at hstep
              split at hstep
              · cases hstep
              · cases hmark : markDirty id ⟨kernel.graph.setNode id { node with value := value },
                    kernel.executor⟩ with
                | error reason => rw [hmark] at hstep; cases hstep
                | ok next' => rw [hmark] at hstep; cases hstep
          | formula ast htype hformula =>
              rw [if_pos (by simp [htype])] at hstep
              cases hstep
              simp [Graph.definition, hnode, htype, hformula, buildErrorInfo]
          | collection htype =>
              rw [if_pos (by simp [htype])] at hstep
              cases hstep
              simp [Graph.definition, hnode, htype, buildErrorInfo]
  | getNodeValue id =>
      simp only [step] at hstep
      cases hrun : kernel.getNodeValue id with
      | error reason => rw [hrun] at hstep; cases hstep
      | ok outcome => rw [hrun] at hstep; cases hstep
  | evaluate =>
      rw [evaluate_step] at hstep
      split at hstep <;> cases hstep
  | reset => cases hstep
  | setEvaluationType => cases hstep

theorem Represents.acceptable_new (h : kernel.Represents sheet) {id : NodeId}
    {dependencies : List NodeId} (hcreatable : kernel.graph.Creatable id dependencies) :
    sheet.Acceptable id dependencies := by
  have hid : ¬ sheet.Has id := fun hid => hcreatable.fresh (h.has_iff.mp hid)
  have hexist : ∀ d ∈ dependencies, sheet.Has d :=
    fun d hd => h.has_iff.mpr (hcreatable.exist d hd)
  exact ⟨hexist, fun hself => hid (hexist id hself),
    fun d hd => h.not_needed hid (hexist d hd), hcreatable.nodup⟩

theorem Represents.acceptable_old (h : kernel.Represents sheet) {id : NodeId}
    {dependencies : List NodeId} (haccepts : kernel.graph.Accepts id dependencies false) :
    sheet.Acceptable id dependencies := by
  refine ⟨fun d hd => h.has_iff.mpr (haccepts.exist d hd), haccepts.self, fun d hd => ?_,
    haccepts.nodup⟩
  rw [h.needs_eq]
  exact haccepts.noPath rfl d hd

theorem Sheet.withTree_of_ok {id : NodeId} {text : StdString} {ast : ExpressionTree D}
    (h : compileAst id text = .ok (.ok ast))
    (next : ExpressionTree D → Except ErrorCode (Sheet D)) :
    Sheet.withTree id text next = .ok (next ast) := by
  rw [Sheet.withTree, h]
  rfl

/-- The sheet answers the call with this reply, and the kernel represents the sheet after it. -/
def Answered (sheet : Sheet D) (op : Op D) (reply : Reply D) (next : StatKernel D) : Prop :=
  ∃ sheet', sheet.step op = .ok (reply.answer, sheet') ∧ next.Represents sheet'

theorem answered_change {sheet' : Sheet D} (hop : ∀ id, op ≠ .getNodeValue id)
    (hchange : sheet.change op = .ok (.ok sheet')) (hreply : reply.answer = .done)
    (hnext : next.Represents sheet') : Answered sheet op reply next := by
  refine ⟨sheet', ?_, hnext⟩
  rw [hreply]
  exact Sheet.step_of_change hop hchange

/-- A call that writes one definition, and a sheet that accepts it. -/
theorem answered_define (h : kernel.Represents sheet) (hnext : next.Consistent) {id : NodeId}
    {dependencies : List NodeId} (own : Definition D) (hown : own.dependencies = dependencies)
    (hacceptable : sheet.Acceptable id dependencies) (hop : ∀ id, op ≠ .getNodeValue id)
    (hchange : sheet.change op = .ok (sheet.tryDefine id own))
    (hdefinition : next.graph.definition = Function.update kernel.graph.definition id (some own)) :
    Answered sheet op (.result (.ok ())) next := by
  subst hown
  rw [Sheet.tryDefine_of_acceptable hacceptable] at hchange
  refine answered_change hop hchange rfl ⟨hnext, ?_⟩
  rw [hdefinition, h.definition]
  rfl

theorem answered_created (h : kernel.Represents sheet) {id : NodeId} {dependencies : List NodeId}
    {node : Node D} (hcreates : Creates op id dependencies node)
    (hcreatable : kernel.graph.Creatable id dependencies)
    (hgraph : next.graph = (kernel.graph.setNode id node).rewire id dependencies)
    (hnext : next.Consistent) : Answered sheet op (.result (.ok ())) next := by
  have hhas : ¬ sheet.Has id := fun hhas => hcreatable.fresh (h.has_iff.mp hhas)
  have hacceptable := h.acceptable_new hcreatable
  have hwritten {own : Definition D} (hown : definitionOf node dependencies = some own) :
      next.graph.definition = Function.update kernel.graph.definition id (some own) := by
    rw [hgraph]
    have hlookup (n : NodeId) : ((kernel.graph.setNode id node).rewire id dependencies).nodes.lookup
        n = if n = id then some node else kernel.graph.nodes.lookup n := by
      rw [lookup_rewire, lookup_setNode]
    refine definition_written hlookup (fun n hn => ?_) ?_
    · rw [dependencies_rewire, if_neg hn, dependencies_setNode]
    · rw [dependencies_rewire, if_pos rfl, hown]
  cases hcreates with
  | @formula _ text ast hcompile =>
      refine answered_define h hnext (.formula ast) rfl hacceptable (by simp) ?_ (hwritten rfl)
      simp only [Sheet.change, hhas, if_false, Sheet.withTree_of_ok hcompile]
  | @collection _ _ operation hoperation =>
      refine answered_define h hnext (.collection operation dependencies) rfl hacceptable (by simp)
        ?_ (hwritten rfl)
      simp only [Sheet.change, isValidCollectionOperation_iff.mpr hoperation, if_true,
        Sheet.create, hhas, if_false]

theorem answered_redefined (h : kernel.Represents sheet) {id : NodeId} {dependencies : List NodeId}
    {node node' : Node D} (hredefines : Redefines op id dependencies node node')
    (hnode : kernel.graph.nodes.lookup id = some node)
    (haccepts : kernel.graph.Accepts id dependencies false)
    (hgraph : next.graph.definition =
      ((kernel.graph.rewire id dependencies).setNode id node').definition)
    (hnext : next.Consistent) : Answered sheet op (.result (.ok ())) next := by
  have hacceptable := h.acceptable_old haccepts
  have hwritten {own : Definition D} (hown : definitionOf node' dependencies = some own) :
      next.graph.definition = Function.update kernel.graph.definition id (some own) := by
    rw [hgraph]
    have hlookup (n : NodeId) : ((kernel.graph.rewire id dependencies).setNode id node').nodes.lookup
        n = if n = id then some node' else kernel.graph.nodes.lookup n := by
      rw [lookup_setNode, lookup_rewire]
    refine definition_written hlookup (fun n hn => ?_) ?_
    · rw [dependencies_setNode, dependencies_rewire, if_neg hn]
    · rw [dependencies_setNode, dependencies_rewire, if_pos rfl, hown]
  have htyped := h.consistent.sound.typed id node hnode
  cases hredefines with
  | @formula _ text ast _ htype hcompile =>
      refine answered_define h hnext (.formula ast) rfl hacceptable (by simp) ?_
        (hwritten (by simp [definitionOf, htype]))
      cases htyped with
      | value htype' => simp [htype'] at htype
      | collection htype' => simp [htype'] at htype
      | formula old _ hformula =>
          simp only [Sheet.change, ← h.definition, definition_eq_definitionOf hnode, definitionOf,
            htype, hformula, Sheet.withTree_of_ok hcompile]
  | dependencies htype =>
      refine answered_define h hnext (.collection node.collectionOperation dependencies) rfl
        hacceptable (by simp) ?_ (hwritten (by simp [definitionOf, htype]))
      simp only [Sheet.change, ← h.definition, definition_eq_definitionOf hnode, definitionOf, htype]

/-- **A call that returns** is answered by the sheet in the same way, and leads to a kernel that
represents the sheet after the call. -/
theorem step_returned (h : kernel.Represents sheet) (hstep : kernel.step op = .ok (reply, next)) :
    Answered sheet op reply next := by
  have hsound := h.consistent.sound
  have htransition := step_transition h.consistent hstep
  have hnext := htransition.consistent h.consistent
  cases htransition with
  | failed => exact ⟨sheet, step_refused h hstep, h⟩
  | @notFound id info hid =>
      refine ⟨sheet, ?_, h⟩
      have hcode : info.errorCode = .nodeNotFound := by
        simp only [step, getNodeValue, Executor.getNodeValue, contains_eq_false_iff.mpr hid,
          Bool.not_false, if_true, ok_bind] at hstep
        cases hstep
        rfl
      rw [Reply.answer, hcode, Sheet.step, Sheet.read, if_pos fun hhas => hid (h.has_iff.mp hhas)]
      rfl
  | @createdValue id value hid =>
      have hhas : ¬ sheet.Has id := fun hhas => hid (h.has_iff.mp hhas)
      refine answered_define h hnext (.value value) rfl (.nil sheet id) (by simp) ?_ ?_
      · simp only [Sheet.change, Sheet.create, hhas, if_false]
      · exact definition_written (lookup_setNode _ _ · _) (fun _ _ => rfl) rfl
  | created hcreates hcreatable => exact answered_created h hcreates hcreatable rfl hnext
  | @sameValue id value node hnode htype heq =>
      refine answered_change (by simp) ?_ rfl h
      simp only [Sheet.change, ← h.definition, definition_of_value hnode htype, heq, if_true]
  | @changedValue id value node _ hnode htype hne _ hmarked =>
      refine answered_define h hnext (.value value) rfl (.nil sheet id) (by simp) ?_ ?_
      · simp only [Sheet.change, ← h.definition, definition_of_value hnode htype, hne,
          Bool.false_eq_true, if_false]
      · rw [marks_definition hmarked.updates]
        refine definition_written (lookup_setNode _ _ · _) (fun _ _ => rfl) ?_
        simp [definitionOf, htype]
  | redefined hredefines hnode haccepts _ hmarked =>
      exact answered_redefined h hredefines hnode haccepts (marks_definition hmarked.updates) hnext
  | @removed id g _ hid hdependents hremoved _ hmarked =>
      have hremovable := h.removable_iff.mpr hdependents
      have hchange : sheet.change (.removeNode id) = .ok (.ok (sheet.remove id hremovable)) := by
        simp only [Sheet.change, h.has_iff.mpr hid, not_true, if_false, hremovable, dif_pos]
      refine answered_change (by simp) hchange rfl ⟨hnext, ?_⟩
      rw [marks_definition hmarked.updates, hremoved.definition_eq hsound hdependents, h.definition]
      rfl
  | @read id node g hid hevaluated hnode =>
      have hdefinition := refreshes_definition hevaluated.updates hsound
      have hyields := yields_of_clean (hevaluated.sound hsound) hevaluated.upToDate
        (h.definition.symm.trans hdefinition.symm) hnode (hevaluated.clean id (by simp))
      refine ⟨sheet, ?_, hnext, hdefinition.trans h.definition⟩
      rw [Sheet.step, Sheet.read_of_yields hyields]
      rfl
  | evaluated hleaves hevaluated =>
      have hdefinition := refreshes_definition hevaluated.updates hsound
      exact answered_change (by simp) rfl rfl ⟨hnext, hdefinition.trans h.definition⟩
  | reset => exact answered_change (by simp) rfl rfl ⟨hnext, Represents.fresh.definition⟩
  | setEvaluationType => exact answered_change (by simp) rfl rfl ⟨hnext, h.definition⟩

/-- A verdict that is an abort is the answer to the call. -/
theorem Sheet.step_of_abort {reason : Abort} (hop : ∀ id, op ≠ .getNodeValue id)
    (h : sheet.change op = .error reason) : sheet.step op = .error reason := by
  cases op with
  | getNodeValue id => exact absurd rfl (hop id)
  | _ =>
      simp only [Sheet.step, h]
      rfl

/-- **A call that does not return** aborts on the sheet for the same reason, except an evaluation
pass. -/
theorem step_failed (h : kernel.Represents sheet) (hop : op ≠ .evaluate) {reason : Abort}
    (hstep : kernel.step op = .error reason) : sheet.step op = .error reason := by
  have hsound := h.consistent.sound
  cases step_aborts h.consistent hstep with
  | @createFormulaNode id text _ hcompile =>
      have hagrees := agrees_addFormulaNode h id text
      rcases hsound.linked.addFormulaNode_cases id text with
        ⟨ast, hast, -, -⟩ | ⟨⟨info, hrun⟩, -⟩ | ⟨reason', hreason, hrun⟩
      · rw [hcompile] at hast
        cases hast
      · simp only [step, createFormulaNode, kernel.andThen_error hrun] at hstep
        cases hstep
      · rw [hrun] at hagrees
        rw [hcompile] at hreason
        cases hreason
        exact Sheet.step_of_abort (by simp) hagrees
  | @setNodeFormula id text _ hcompile =>
      have hagrees := agrees_setNodeFormula h id text
      rcases setNodeFormula_cases kernel.graph id text with
        ⟨_, ast, -, -, hast, -, -⟩ | ⟨⟨info, hrun⟩, -⟩ | ⟨reason', hreason, hrun⟩
      · rw [hcompile] at hast
        cases hast
      · simp only [step, setNodeFormula, kernel.andThen_error hrun] at hstep
        cases hstep
      · rw [hrun] at hagrees
        rw [hcompile] at hreason
        cases hreason
        exact Sheet.step_of_abort (by simp) hagrees
  | getNodeValue hid habort =>
      rw [Sheet.step, read_of_aborts hsound h.definition.symm hid habort]
      rfl
  | evaluate => exact absurd rfl hop

end Step

/-! ### Runs -/

/-- **The kernel simulates the sheet**, but for evaluation passes that abort. -/
theorem simulation : StepMachine.Simulation (step : StatKernel D → Op D → _) Sheet.step Represents
    Reply.answer (· = .evaluate) where
  returned h hstep := step_returned h hstep
  failed h hop hstep := step_failed h hop hstep

/-- **Every run of the kernel is a run of the sheet.**  If all calls of a run return, the sheet gives
the same values and error codes and ends with the same definitions.  If a call aborts, the sheet
aborts for the same reason, or the call was an evaluation pass. -/
theorem kernel_refines_sheet (ops : List (Op D)) :
    (∃ replies kernel sheet, StepMachine.run step fresh ops = .ok (replies, kernel) ∧
      StepMachine.run Sheet.step Sheet.empty ops = .ok (replies.map Reply.answer, sheet) ∧
      kernel.graph.definition = sheet.definition) ∨
    ∃ reason, StepMachine.run step fresh ops = .error reason ∧
      (StepMachine.run Sheet.step Sheet.empty ops = .error reason ∨
        ∃ before after replies kernel, ops = before ++ .evaluate :: after ∧
          StepMachine.run step fresh before = .ok (replies, kernel) ∧
          kernel.step .evaluate = .error reason) := by
  cases hrun : StepMachine.run step fresh ops with
  | ok outcome =>
      obtain ⟨replies, kernel⟩ := outcome
      obtain ⟨sheet, hsheet, hrepresents⟩ := simulation.run_returned Represents.fresh hrun
      exact Or.inl ⟨replies, kernel, sheet, rfl, hsheet, hrepresents.definition⟩
  | error reason =>
      refine Or.inr ⟨reason, rfl, ?_⟩
      rcases simulation.run_failed Represents.fresh hrun with
        hsheet | ⟨before, _, after, replies, kernel, hops, rfl, hbefore, hlast⟩
      · exact Or.inl hsheet
      · exact Or.inr ⟨before, after, replies, kernel, hops, hbefore, hlast⟩

end StatForge.StatKernel
