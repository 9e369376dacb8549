import StatForge.Dsl.Folding
import StatForge.StatKernel.ReachableStates

/-!
# Formula texts, compiled trees and recorded dependencies

* `formulas_read_their_dependencies` — the dependencies of a formula node are the references of its
  compiled tree, and no formula looks up a missing node.
* `createFormulaNode_succeeds_iff`, `setNodeFormula_succeeds_iff` — what the compiler requires of the
  compiled tree.
* `formula_accepted_iff` — what that means for the text: the references outside the branches that a
  constant condition excludes are validated, the others are not.
-/

namespace StatForge.StatKernel

open Relation Successors ExceptBind Dsl Dsl.ExpressionTree StatForge.StatKernel.Graph

variable {D : Type} [Double D] {kernel : StatKernel D}

/-! ### Recorded dependencies -/

/-- A formula whose node has clean or dirty, but existing dependencies finds every value it reads. -/
theorem Graph.Sound.invoke_ne_missingNode {g : Graph D} (h : g.Sound) {id : NodeId} {node : Node D}
    (hnode : g.nodes.lookup id = some node) {formula : NodeFormula D}
    (hformula : node.formula = some formula) : formula.invoke g ≠ .error .missingNode := by
  obtain ⟨definition, -, hvalid, hreads, hinvoke⟩ := h.definition_of_lookup hnode
  rw [hinvoke formula hformula]
  intro habort
  have hvalues : ∀ d ∈ definition.reads, ∃ value, g.valueOf d = .ok value := by
    intro d hd
    obtain ⟨dependency, hdependency⟩ :=
      Finmap.mem_iff.mp (h.linked.dependency_mem (hreads d hd))
    exact ⟨dependency.value, valueOf_of_lookup hdependency⟩
  cases Definition.eval_error hvalid hvalues habort

/-- **A formula's dependencies are what it reads.**  In every reachable state every formula node has a
compiled tree, its recorded dependencies are the references of that tree, each once, and they all
exist; running the formula of any node looks up no missing node, and neither does reading a node or
evaluating recorded leaves that exist. -/
theorem formulas_read_their_dependencies (hreach : Reachable kernel) :
    (∀ id node, kernel.graph.nodes.lookup id = some node → node.type = .formula →
      ∃ ast, node.formula = some (.expression ast) ∧
        (∀ d, d ∈ kernel.graph.dependencies id ↔ d ∈ ast.refs) ∧
        (kernel.graph.dependencies id).Nodup ∧
        ∀ d ∈ kernel.graph.dependencies id, d ∈ kernel.graph.nodes) ∧
    (∀ id node formula, kernel.graph.nodes.lookup id = some node → node.formula = some formula →
      formula.invoke kernel.graph ≠ .error .missingNode) ∧
    (∀ id, kernel.getNodeValue id ≠ .error .missingNode) ∧
    ((∀ leaf ∈ kernel.executor.dirtyLeaves, leaf ∈ kernel.graph.nodes) →
      kernel.evaluate ≠ .error .missingNode) := by
  have h := hreach.consistent
  refine ⟨fun id node hnode htype => ?_, fun id node formula hnode hformula =>
    h.sound.invoke_ne_missingNode hnode hformula, fun id habort => ?_, fun hleaves habort => ?_⟩
  · cases h.sound.typed id node hnode with
    | formula ast _ hformula hdependencies =>
        refine ⟨ast, hformula, fun d => ?_, h.sound.linked.dependenciesNodup id,
          fun d hd => h.sound.linked.dependency_mem hd⟩
        rw [hdependencies]
        exact mem_extractDependencies
    | value htype' => simp [htype'] at htype
    | collection htype' => simp [htype'] at htype
  · have hstep : kernel.step (.getNodeValue id) = .error .missingNode := by
      simp only [step, habort]
      rfl
    cases step_aborts h hstep with
    | getNodeValue _ haborts => cases haborts.1
  · have hstep : kernel.step .evaluate = .error .missingNode := by
      simp only [step, habort]
      rfl
    cases step_aborts h hstep with
    | evaluate haborts => cases (haborts hleaves).1

/-! ### What the compiler requires of a formula -/

section Accepted

variable {text : StdString} {ast : ExpressionTree D}

theorem createFormulaNode_succeeds_iff (h : kernel.Consistent) {x : NodeId}
    (hcompile : compileAst x text = .ok (.ok ast)) :
    kernel.Succeeds (.createFormulaNode x text) ↔
      kernel.graph.Creatable x (extractDependencies ast) := by
  constructor
  · rintro ⟨next, hstep⟩
    cases step_transition h hstep with
    | created hcreates hcreatable =>
        cases hcreates with
        | formula hcompile' =>
            obtain rfl := Except.ok.inj (Except.ok.inj (hcompile'.symm.trans hcompile))
            exact hcreatable
    | redefined hredefines => cases hredefines
  · intro hcreatable
    rcases h.sound.linked.addFormulaNode_cases x text with
      ⟨ast', hcompile', -, hrun⟩ | ⟨-, hrefused⟩ | ⟨reason, hcompile', -⟩
    · obtain rfl := Except.ok.inj (Except.ok.inj (hcompile'.symm.trans hcompile))
      obtain ⟨next, hstep, -⟩ := created_step (.formula hcompile) hcreatable hrun rfl
      exact ⟨next, hstep⟩
    · exact absurd hcreatable (hrefused ast hcompile)
    · rw [hcompile] at hcompile'
      cases hcompile'

theorem setNodeFormula_succeeds_iff (h : kernel.Consistent) {f : NodeId} {node : Node D}
    (hnode : kernel.graph.nodes.lookup f = some node) (htype : node.type = .formula)
    (hcompile : compileAst f text = .ok (.ok ast)) :
    kernel.Succeeds (.setNodeFormula f text) ↔
      kernel.graph.Accepts f (extractDependencies ast) false := by
  constructor
  · rintro ⟨next, hstep⟩
    cases step_transition h hstep with
    | created hcreates => cases hcreates
    | redefined hredefines _ haccepts =>
        cases hredefines with
        | formula _ hcompile' =>
            obtain rfl := Except.ok.inj (Except.ok.inj (hcompile'.symm.trans hcompile))
            exact haccepts
  · intro haccepts
    rcases setNodeFormula_cases kernel.graph f text with
      ⟨node', ast', hnode', htype', hcompile', -, hrun⟩ | ⟨-, hrefused⟩ | ⟨reason, hcompile', -⟩
    · obtain rfl := Except.ok.inj (Except.ok.inj (hcompile'.symm.trans hcompile))
      obtain ⟨next, hstep, -⟩ :=
        redefined_step h (.formula htype' hcompile) hnode' haccepts hrun rfl
      exact ⟨next, hstep⟩
    · exact absurd haccepts (hrefused node ast hnode htype hcompile)
    · rw [hcompile] at hcompile'
      cases hcompile'

end Accepted

/-! ### What that means for the text -/

/-- A text whose unfolded parse and whose folding succeed is compiled to the folded tree. -/
theorem compileAst_of_parse {id : NodeId} {text : StdString} {tokens : List (Token D)}
    {e ast : ExpressionTree D} (htokens : tokenize text = .ok tokens)
    (hparse : Parser.parse tokens false = .ok e) (hfold : Parser.foldConstants e = .ok ast) :
    compileAst id text = .ok (.ok ast) := by
  have hfolded : Parser.parse tokens = .ok ast := Parser.parse_folded.mpr ⟨e, hparse, hfold⟩
  simp only [compileAst, htokens, hfolded]

/-- The names that are written outside the branches that a constant condition excludes. -/
def writtenReferences (e : ExpressionTree D) : List NodeId := e.survivors.flatMap refName

theorem mem_extractDependencies_folded {e ast : ExpressionTree D}
    (hfold : Parser.foldConstants e = .ok ast) {name : NodeId} :
    name ∈ extractDependencies ast ↔ name ∈ writtenReferences e := by
  rw [mem_extractDependencies, mem_refs_foldConstants_iff hfold, writtenReferences, List.mem_flatMap]

/-- **Which references are validated.**  For a text whose unfolded parse and whose folding succeed, the
creation of a new formula node succeeds exactly if every reference outside excluded branches names an
existing node; and a new formula for a formula node is accepted exactly if every such reference exists,
is not the node itself and does not transitively depend on it. -/
theorem formula_accepted_iff (hreach : Reachable kernel) {text : StdString}
    {tokens : List (Token D)} {e ast : ExpressionTree D} (htokens : tokenize text = .ok tokens)
    (hparse : Parser.parse tokens false = .ok e) (hfold : Parser.foldConstants e = .ok ast) :
    (∀ x, x ∉ kernel.graph.nodes → (kernel.Succeeds (.createFormulaNode x text) ↔
      ∀ name ∈ writtenReferences e, name ∈ kernel.graph.nodes ∧ name ≠ x)) ∧
    ∀ f node, kernel.graph.nodes.lookup f = some node → node.type = .formula →
      (kernel.Succeeds (.setNodeFormula f text) ↔
        ∀ name ∈ writtenReferences e, name ∈ kernel.graph.nodes ∧ name ≠ f ∧
          ¬ TransGen kernel.graph.DependsOn name f) := by
  have h := hreach.consistent
  have hnodup : (extractDependencies ast).Nodup :=
    (pairwise_extractDependencies ast).imp ne_of_lt
  have hmem (name : NodeId) : name ∈ extractDependencies ast ↔ name ∈ writtenReferences e :=
    mem_extractDependencies_folded hfold
  constructor
  · intro x hx
    rw [createFormulaNode_succeeds_iff h (compileAst_of_parse htokens hparse hfold)]
    constructor
    · intro hcreatable name hname
      have hexists := hcreatable.exist name ((hmem name).mpr hname)
      exact ⟨hexists, fun heq => hx (heq ▸ hexists)⟩
    · intro hwritten
      exact ⟨hx, fun d hd => (hwritten d ((hmem d).mp hd)).1, hnodup⟩
  · intro f node hnode htype
    rw [setNodeFormula_succeeds_iff h hnode htype (compileAst_of_parse htokens hparse hfold)]
    constructor
    · intro haccepts name hname
      have hpath := haccepts.noPath rfl name ((hmem name).mpr hname)
      refine ⟨haccepts.exist name ((hmem name).mpr hname), ?_, fun htrans =>
        hpath htrans.to_reflTransGen⟩
      rintro rfl
      exact hpath .refl
    · intro hwritten
      refine ⟨Finmap.mem_of_lookup_eq_some hnode, fun d hd => (hwritten d ((hmem d).mp hd)).1,
        fun hself => (hwritten f ((hmem f).mp hself)).2.1 rfl, hnodup, fun _ d hd hpath => ?_⟩
      obtain ⟨-, hne, htrans⟩ := hwritten d ((hmem d).mp hd)
      -- A path from a reference to the node is empty or a dependency of the reference.
      rcases reflTransGen_iff_eq_or_transGen.mp hpath with heq | hpath
      · exact hne heq.symm
      · exact htrans hpath

section Instances

private def baseId : NodeId := "a".toList
private def missingId : NodeId := "m".toList
private def choiceId : NodeId := "x".toList

/-- A value and a formula that reads it twice, one of them in a folded choice. -/
private def choiceCalls : List (Op NanRat) :=
  [.createValueNode baseId (Double.ofNat 1),
    .createFormulaNode choiceId "<a> + (1 ? 2 * <a> : <m>)".toList]

/-- The formula node reads `a`, and records it. -/
theorem sample_dependencies : ∃ node ast,
    (after choiceCalls).graph.nodes.lookup choiceId = some node ∧
      node.formula = some (.expression ast) ∧ baseId ∈ ast.refs ∧ missingId ∉ ast.refs := by
  have hreach := reachable_after choiceCalls
  have htype : ((after choiceCalls).graph.nodes.lookup choiceId).map Node.type = some .formula := by
    decide +kernel
  have hbase : baseId ∈ (after choiceCalls).graph.dependencies choiceId := by decide +kernel
  have hmissing : missingId ∉ (after choiceCalls).graph.dependencies choiceId := by decide +kernel
  generalize after choiceCalls = kernel at *
  obtain ⟨node, hnode, htype⟩ := Option.map_eq_some_iff.mp htype
  obtain ⟨ast, hformula, hreferences, -⟩ :=
    (formulas_read_their_dependencies hreach).1 choiceId node hnode htype
  exact ⟨node, ast, hnode, hformula, (hreferences baseId).mp hbase,
    fun hname => hmissing ((hreferences missingId).mpr hname)⟩

/-- The text `1 ? 2 : <m>` names a missing node, and a node is created from it: folding has dropped
the reference before the dependencies are extracted. -/
theorem excluded_reference_is_accepted : ∃ (tokens : List (Token NanRat)) (e : ExpressionTree NanRat),
    tokenize "1 ? 2 : <m>".toList = .ok tokens ∧ Parser.parse tokens false = .ok e ∧
      (Parser.foldConstants e).isOk = true ∧ missingId ∈ e.refs ∧
      missingId ∉ (fresh : StatKernel NanRat).graph.nodes ∧
      (fresh : StatKernel NanRat).Succeeds (.createFormulaNode choiceId "1 ? 2 : <m>".toList) :=
  ⟨_, _, rfl, rfl, by decide +kernel, by decide +kernel, by decide +kernel, by decide +kernel⟩

/-- The text `1 ? <a> : <m>` is accepted over a node `a`. -/
theorem chosen_reference_is_validated :
    (after [.createValueNode baseId (Double.ofNat 1)] : StatKernel NanRat).Succeeds
      (.createFormulaNode choiceId "1 ? <a> : <m>".toList) := by
  obtain ⟨tokens, e, htokens, hparse, hfold, hwritten⟩ :
      ∃ (tokens : List (Token NanRat)) (e : ExpressionTree NanRat),
        tokenize "1 ? <a> : <m>".toList = .ok tokens ∧ Parser.parse tokens false = .ok e ∧
          (Parser.foldConstants e).isOk = true ∧ writtenReferences e = [baseId] :=
    ⟨_, _, rfl, rfl, by decide +kernel, by decide +kernel⟩
  cases hast : Parser.foldConstants e with
  | error info =>
      rw [hast] at hfold
      cases hfold
  | ok ast =>
      refine ((formula_accepted_iff (reachable_after _) htokens hparse hast).1 choiceId
        (by decide +kernel)).mpr ?_
      rw [hwritten]
      decide +kernel

end Instances

end StatForge.StatKernel
