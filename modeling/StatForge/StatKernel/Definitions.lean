import StatForge.Dsl.References
import StatForge.StatKernel.Graph

/-!
# Definitions and recomputation

What the cache is for: a node's value is determined by its current definition and by the values of the
nodes that the definition reads.

* `Graph.definition` — the current definition of a node, without cached value and dirty flag.
* `recompute` — the value of a node by recursion over the definitions alone.
* `Definition.eval_congr`, `Definition.eval_error` — evaluating a definition depends only on the
  values it reads, and where these exist it ends in a value or in `unreachable()`.
-/

namespace StatForge.StatKernel

open Dsl ExceptBind

variable {D : Type} [Double D]

/-! ### Reducing a list of values -/

theorem mapM_congr {α : Type} {f f' : NodeId → Except Abort α} {ids : List NodeId}
    (h : ∀ id ∈ ids, f id = f' id) : ids.mapM f = ids.mapM f' := by
  induction ids with
  | nil => rfl
  | cons id ids ih =>
      rw [List.mapM_cons, List.mapM_cons, h id (by simp), ih fun id' hid' => h id' (by simp [hid'])]

theorem mapM_eq_ok {α : Type} {f : NodeId → Except Abort α} {ids : List NodeId}
    (h : ∀ id ∈ ids, ∃ value, f id = .ok value) :
    ∃ values, ids.mapM f = .ok values ∧ values.length = ids.length := by
  induction ids with
  | nil => exact ⟨[], rfl, rfl⟩
  | cons id ids ih =>
      obtain ⟨value, hvalue⟩ := h id (by simp)
      obtain ⟨values, hvalues, hlength⟩ := ih fun id' hid' => h id' (by simp [hid'])
      exact ⟨value :: values, by rw [List.mapM_cons, hvalue, hvalues]; rfl, by simp [hlength]⟩

theorem reduceNodes_congr {dependencies : List NodeId} {valueOf valueOf' : NodeId → Except Abort D}
    (h : ∀ d ∈ dependencies, valueOf d = valueOf' d) (operation : CollectionOperation) :
    reduceNodes dependencies valueOf operation = reduceNodes dependencies valueOf' operation := by
  cases operation <;> simp only [reduceNodes, mapM_congr h]

/-- Both indices of the median of a non-empty list are in range. -/
theorem median_eq_ok {values : List D} (h : values ≠ []) : ∃ value, median values = .ok value := by
  have hpos : 0 < values.length := List.length_pos_iff.mpr h
  unfold median
  simp only [List.length_insertionSort]
  split
  · rename_i hodd
    rw [List.getElem?_eq_getElem (by rw [List.length_insertionSort]; omega)]
    exact ⟨_, rfl⟩
  · rename_i heven
    rw [List.getElem?_eq_getElem (by rw [List.length_insertionSort]; omega),
      List.getElem?_eq_getElem (by rw [List.length_insertionSort]; omega)]
    exact ⟨_, rfl⟩

theorem reduceNodes_eq_ok (dependencies : List NodeId) {valueOf : NodeId → Except Abort D}
    (h : ∀ d ∈ dependencies, ∃ value, valueOf d = .ok value) {operation : CollectionOperation}
    (hoperation : ∀ code, operation ≠ .other code) :
    ∃ value, reduceNodes dependencies valueOf operation = .ok value := by
  obtain ⟨values, hvalues, hlength⟩ := mapM_eq_ok h
  cases operation with
  | sum => exact ⟨_, by rw [reduceNodes, hvalues]; rfl⟩
  | product => exact ⟨_, by rw [reduceNodes, hvalues]; rfl⟩
  | median =>
      rw [reduceNodes, hvalues]
      split
      · exact ⟨_, rfl⟩
      · rename_i hempty
        refine median_eq_ok fun hnil => hempty ?_
        rw [hnil] at hlength
        rw [List.isEmpty_iff, List.eq_nil_iff_length_eq_zero, ← hlength, List.length_nil]
  | average =>
      rw [reduceNodes, hvalues]
      split <;> exact ⟨_, rfl⟩
  | min =>
      rw [reduceNodes, hvalues]
      cases values <;> exact ⟨_, rfl⟩
  | max =>
      rw [reduceNodes, hvalues]
      cases values <;> exact ⟨_, rfl⟩
  | count => exact ⟨_, rfl⟩
  | other code => exact absurd rfl (hoperation code)

/-! ### Definitions -/

/-- What determines the value of a node. -/
inductive Definition (D : Type)
  | value (stored : D)
  | formula (ast : ExpressionTree D)
  | collection (operation : CollectionOperation) (dependencies : List NodeId)

namespace Definition

/-- The value of a definition over given values of the other nodes. -/
def eval (valueOf : NodeId → Except Abort D) : Definition D → Except Abort D
  | .value stored => .ok stored
  | .formula ast => evaluate ⟨some valueOf⟩ ast
  | .collection operation dependencies => reduceNodes dependencies valueOf operation

/-- The nodes that a definition refers to. -/
def reads : Definition D → List NodeId
  | .value _ => []
  | .formula ast => ast.refs
  | .collection _ dependencies => dependencies

/-- A collection has one of the seven operations. -/
def Valid : Definition D → Prop
  | .collection operation _ => ∀ code, operation ≠ .other code
  | _ => True

variable {valueOf valueOf' : NodeId → Except Abort D} {definition : Definition D}

theorem eval_congr (h : ∀ id ∈ definition.reads, valueOf id = valueOf' id) :
    definition.eval valueOf = definition.eval valueOf' := by
  cases definition with
  | value stored => rfl
  | formula ast => exact evaluate_congr h
  | collection operation dependencies => exact reduceNodes_congr h operation

theorem eval_error (hvalid : definition.Valid)
    (hreads : ∀ id ∈ definition.reads, ∃ value, valueOf id = .ok value) {reason : Abort}
    (h : definition.eval valueOf = .error reason) : reason = .unreachable := by
  cases definition with
  | value stored => cases h
  | formula ast => exact evaluate_error hreads h
  | collection operation dependencies =>
      obtain ⟨value, hvalue⟩ := reduceNodes_eq_ok dependencies hreads hvalid
      rw [eval, hvalue] at h
      cases h

end Definition

/-- The value of a node by recursion over the definitions; the depth is bounded by `fuel`. -/
def recompute (definition : NodeId → Option (Definition D)) : Nat → NodeId → Except Abort D
  | 0, _ => .error .nontermination
  | fuel + 1, id =>
      match definition id with
      | none => .error .missingNode
      | some own => own.eval (recompute definition fuel)

/-- The current definition: the stored value of a value node, the tree of a formula node, the
operation of a collection node and its current dependencies. -/
def Graph.definition (g : Graph D) (id : NodeId) : Option (Definition D) :=
  match g.nodes.lookup id with
  | none => none
  | some node =>
      match node.type, node.formula with
      | .value, _ => some (.value node.value)
      | .formula, some (.expression ast) => some (.formula ast)
      | .formula, _ => none
      | .collection, _ => some (.collection node.collectionOperation (g.dependencies id))

end StatForge.StatKernel
