import Mathlib.Algebra.BigOperators.Group.Finset.Basic
import Mathlib.Data.Finmap
import StatForge.Dsl.Evaluator

/-!
# Nodes and the graph

`stat_kernel/node.hpp` and `stat_kernel/graph.cpp`.  A `std::unordered_map` is a finite map; nothing
that is modelled here iterates over one.  A node's `std::function` is kept as the data that the
compiler closes over, and `NodeFormula.invoke` is the call.

A function that may change the graph returns the graph next to its `VoidResult`, on an error too.
-/

namespace StatForge.StatKernel

open Dsl

variable {D : Type} [Double D]

abbrev UnorderedMap (α : Type) := Finmap (fun _ : NodeId => α)

inductive NodeType
  | value
  | formula
  | collection
  deriving DecidableEq, Repr

/-- The closures that the compiler stores in a node: the reducer of a collection operation over the
dependencies of the node `id`, or the evaluation of a tree. -/
inductive NodeFormula (D : Type)
  | collection (id : NodeId) (operation : CollectionOperation)
  | expression (ast : ExpressionTree D)

structure Node (D : Type) [Double D] where
  formula : Option (NodeFormula D) := none
  value : D := Double.zero
  type : NodeType := .value
  collectionOperation : CollectionOperation := .sum
  dirty : Bool := false

/-- The vector stored under a key; a missing entry counts as empty. -/
def entry (map : UnorderedMap (List NodeId)) (id : NodeId) : List NodeId := (map.lookup id).getD []

/-! ### Path search -/

/-- One round of the loop of `hasPath`: the work stack, its top first, and the visited set.  Both are
function statics that every call clears before it starts. -/
def hasPathStep (target : NodeId) (map : UnorderedMap (List NodeId)) :
    List NodeId × Finset NodeId → Bool ⊕ List NodeId × Finset NodeId
  | ([], _) => .inl false
  | (current :: work, visited) =>
      if current = target then .inl true
      else if current ∈ visited then .inr (work, visited)
      else .inr ((entry map current).reverse ++ work, insert current visited)

/-- The number of edges that a map of vectors stores. -/
def edgeCount (map : UnorderedMap (List NodeId)) : Nat := ∑ id ∈ map.keys, (entry map id).length

def hasPath (src target : NodeId) (map : UnorderedMap (List NodeId)) : Except Abort Bool :=
  match FuelLoop.run (hasPathStep target map) (edgeCount map + 2) ([src], ∅) with
  | some found => .ok found
  | none => .error .nontermination

/-! ### The graph -/

structure Graph (D : Type) [Double D] where
  nodes : UnorderedMap (Node D) := ∅
  dependenciesMap : UnorderedMap (List NodeId) := ∅
  dependentsMap : UnorderedMap (List NodeId) := ∅

namespace Graph

def contains (g : Graph D) (id : NodeId) : Bool := id ∈ g.nodes

/-- `node(id)`, with its assertion that the node exists. -/
def node (g : Graph D) (id : NodeId) : Except Abort (Node D) :=
  match g.nodes.lookup id with
  | some node => .ok node
  | none => .error .missingNode

/-- Writing through the reference that `node(id)` returns. -/
def setNode (g : Graph D) (id : NodeId) (node : Node D) : Graph D :=
  { g with nodes := g.nodes.insert id node }

def dependencies (g : Graph D) (id : NodeId) : List NodeId := entry g.dependenciesMap id

def dependents (g : Graph D) (id : NodeId) : List NodeId := entry g.dependentsMap id

def addNode (g : Graph D) (id : NodeId) (node : Node D) : VoidResult × Graph D :=
  if g.contains id then
    (.error (buildErrorInfo .nodeAlreadyExists
      ("Trying to add already existing node " ++ quoted id)), g)
  else (.ok (), g.setNode id node)

/-- The first loop over the new dependencies: each one exists, is not `id`, and does not reach
`id`. -/
def checkDependencies (g : Graph D) (id : NodeId) (skipCycleCheck : Bool) :
    List NodeId → Except Abort VoidResult
  | [] => .ok (.ok ())
  | dependency :: newDeps =>
      if !g.contains dependency then
        .ok (.error (buildErrorInfo .dependencyDoesntExist
          ("Trying to add non-existing dependency " ++ quoted dependency ++ " to " ++ quoted id)))
      else if dependency = id then
        .ok (.error (buildErrorInfo .selfReference
          (quoted id ++ " is trying to set itself as dependency")))
      else do
        let loop ← if skipCycleCheck then .ok false else hasPath dependency id g.dependenciesMap
        if loop then
          .ok (.error (buildErrorInfo .dependencyLoop
            ("Trying to set dependency of " ++ quoted id ++ " with cyclic dependency")))
        else g.checkDependencies id skipCycleCheck newDeps

/-- The second loop over the new dependencies, with the set `seen`. -/
def checkDuplicates (id : NodeId) : Finset NodeId → List NodeId → VoidResult
  | _, [] => .ok ()
  | seen, dependency :: newDeps =>
      if dependency ∈ seen then
        .error (buildErrorInfo .duplicateDependency
          ("Trying to add duplicate dependency " ++ quoted dependency ++ " to " ++ quoted id))
      else checkDuplicates id (insert dependency seen) newDeps

/-- "handle new dependencies": `id` joins the dependents of each. -/
def addDependents (id : NodeId) (currentDeps : List NodeId) :
    List NodeId → UnorderedMap (List NodeId) → UnorderedMap (List NodeId)
  | [], dependentsMap => dependentsMap
  | dep :: newDeps, dependentsMap =>
      addDependents id currentDeps newDeps
        (if dep ∈ currentDeps then dependentsMap
        else dependentsMap.insert dep (entry dependentsMap dep ++ [id]))

/-- "handle removed dependencies": `id` leaves the dependents of each. -/
def dropDependents (id : NodeId) (newDeps : List NodeId) :
    List NodeId → UnorderedMap (List NodeId) → UnorderedMap (List NodeId)
  | [], dependentsMap => dependentsMap
  | previousDep :: currentDeps, dependentsMap =>
      dropDependents id newDeps currentDeps
        (if previousDep ∈ newDeps then dependentsMap
        else dependentsMap.insert previousDep ((entry dependentsMap previousDep).erase id))

/-- The writing part of `setNodeDependencies`. -/
def rewire (g : Graph D) (id : NodeId) (newDeps : List NodeId) : Graph D :=
  let currentDeps := g.dependencies id
  { g with
    dependenciesMap := g.dependenciesMap.insert id newDeps
    dependentsMap :=
      dropDependents id newDeps currentDeps (addDependents id currentDeps newDeps g.dependentsMap) }

def setNodeDependencies (g : Graph D) (id : NodeId) (newDeps : List NodeId)
    (skipCycleCheck : Bool := false) : Except Abort (VoidResult × Graph D) :=
  if !g.contains id then
    .ok (.error (buildErrorInfo .nodeNotFound
      ("Trying to set dependencies for non-existing node " ++ quoted id)), g)
  else do
    match ← g.checkDependencies id skipCycleCheck newDeps with
    | .error info => .ok (.error info, g)
    | .ok () =>
        match checkDuplicates id ∅ newDeps with
        | .error info => .ok (.error info, g)
        | .ok () => .ok (.ok (), g.rewire id newDeps)

/-- The scan of the dependents in `removeNode`: none of them is a formula node. -/
def checkDependents (g : Graph D) (id : NodeId) : List NodeId → Except Abort VoidResult
  | [] => .ok (.ok ())
  | dependentId :: dependents => do
      let dependent ← g.node dependentId
      if dependent.type = .formula then
        .ok (.error (buildErrorInfo .dependentFormulaNode
          ("Trying to remove node " ++ quoted id ++ " that the formula node " ++
            quoted dependentId ++ " depends on")))
      else g.checkDependents id dependents

/-- Erase the first `id` from the entry of each key; every key must have an entry. -/
def eraseFromEntries (id : NodeId) :
    List NodeId → UnorderedMap (List NodeId) → Except Abort (UnorderedMap (List NodeId))
  | [], map => .ok map
  | key :: keys, map =>
      match map.lookup key with
      | none => .error .missingNode
      | some ids => eraseFromEntries id keys (map.insert key (ids.erase id))

/-- "erase dependency from dependents", after the scan. -/
def unlinkDependents (g : Graph D) (id : NodeId) : Except Abort (Graph D) :=
  match g.dependentsMap.lookup id with
  | none => .ok g
  | some dependents => do
      let dependenciesMap ← eraseFromEntries id dependents g.dependenciesMap
      .ok { g with
        dependenciesMap := dependenciesMap
        dependentsMap := g.dependentsMap.erase id }

/-- "erase dependent from dependencies". -/
def unlinkDependencies (g : Graph D) (id : NodeId) : Except Abort (Graph D) :=
  match g.dependenciesMap.lookup id with
  | none => .ok g
  | some dependencies => do
      let dependentsMap ← eraseFromEntries id dependencies g.dependentsMap
      .ok { g with
        dependenciesMap := g.dependenciesMap.erase id
        dependentsMap := dependentsMap }

def removeNode (g : Graph D) (id : NodeId) : Except Abort (VoidResult × Graph D) :=
  if !g.contains id then
    .ok (.error (buildErrorInfo .nodeNotFound
      ("Trying to remove non-existing node " ++ quoted id)), g)
  else do
    match ← g.checkDependents id (g.dependents id) with
    | .error info => .ok (.error info, g)
    | .ok () =>
        -- The maps are written only after the scan has accepted the removal.
        let g ← g.unlinkDependents id
        let g ← g.unlinkDependencies id
        .ok (.ok (), { g with nodes := g.nodes.erase id })

def clear (_g : Graph D) : Graph D := {}

end Graph

/-! ### Running a node's formula -/

/-- The middle value, or the mean of the two middle values, after `std::ranges::sort`.  For a list with
a NaN, which `<` does not order, the standard leaves the sort undefined; there the order of the model
is that of an insertion sort, and a library may have another one. -/
def median (values : List D) : Except Abort D :=
  let values := values.insertionSort fun a b => !Double.lt b a
  let middle := values.length / 2
  if values.length % 2 = 1 then
    match values[middle]? with
    | some value => .ok value
    | none => .error .undefined
  else
    match values[middle - 1]?, values[middle]? with
    | some lower, some upper => .ok (Double.div (Double.add lower upper) (Double.ofNat 2))
    | _, _ => .error .undefined

/-- The closure of a collection operation: it reads the values of the dependencies in their order,
except for the count, which reads none. -/
def reduceNodes (dependencies : List NodeId) (valueOf : NodeId → Except Abort D) :
    CollectionOperation → Except Abort D
  | .sum => do
      let values ← dependencies.mapM valueOf
      .ok (values.foldl Double.add Double.zero)
  | .product => do
      let values ← dependencies.mapM valueOf
      .ok (values.foldl Double.mul Double.one)
  | .median =>
      if dependencies.isEmpty then .ok Double.zero
      else do
        let values ← dependencies.mapM valueOf
        median values
  | .average =>
      if dependencies.isEmpty then .ok Double.zero
      else do
        let values ← dependencies.mapM valueOf
        .ok (Double.div (values.foldl Double.add Double.zero) (Double.ofNat dependencies.length))
  | .min => do
      match ← dependencies.mapM valueOf with
      | [] => .ok Double.zero
      | first :: rest => .ok (rest.foldl stdMin first)
  | .max => do
      match ← dependencies.mapM valueOf with
      | [] => .ok Double.zero
      | first :: rest => .ok (rest.foldl stdMax first)
  | .count => .ok (Double.ofNat dependencies.length)
  | .other _ => .error .undefined

/-- `node(id).value`. -/
def Graph.valueOf (g : Graph D) (id : NodeId) : Except Abort D := do
  let node ← g.node id
  .ok node.value

/-- Calling a node's formula on the graph that the closure refers to. -/
def NodeFormula.invoke (g : Graph D) : NodeFormula D → Except Abort D
  | .collection id operation => reduceNodes (g.dependencies id) g.valueOf operation
  | .expression ast => evaluate ⟨some g.valueOf⟩ ast

end StatForge.StatKernel
