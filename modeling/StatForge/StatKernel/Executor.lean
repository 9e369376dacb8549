import StatForge.StatKernel.Graph

/-!
# The executor

`stat_kernel/executor.cpp`: the dirty flags, the list of dirty leaves, and the two ways to bring a
node up to date.  A stack is a list with its top first; pushing the elements of a vector one after
the other puts their reversal in front.
-/

namespace StatForge.StatKernel

variable {D : Type} [Double D]

inductive EvaluationType
  | iterative
  | recursive
  deriving DecidableEq, Repr

structure Executor where
  evaluateImpl : EvaluationType := .iterative
  dirtyLeaves : List NodeId := []
  deriving DecidableEq, Repr

/-! ### Marking -/

/-- One round of the loop of `markDirty`: the work stack, the graph and the dirty leaves. -/
def markDirtyStep : List NodeId × Graph D × List NodeId →
    Except Abort (Graph D × List NodeId) ⊕ List NodeId × Graph D × List NodeId
  | ([], g, dirtyLeaves) => .inl (.ok (g, dirtyLeaves))
  | (currentId :: work, g, dirtyLeaves) =>
      match g.node currentId with
      | .error reason => .inl (.error reason)
      | .ok currentNode =>
          let hasFormula : Bool := currentNode.type ≠ .value
          if currentNode.dirty then .inr (work, g, dirtyLeaves)
          else
            -- A value node stays clean, and its dependents are pushed whenever it is met.
            let dependents := g.dependents currentId
            .inr (dependents.reverse ++ work,
              g.setNode currentId { currentNode with dirty := hasFormula },
              if dependents.isEmpty ∧ hasFormula then dirtyLeaves ++ [currentId] else dirtyLeaves)

namespace Executor

def setEvaluationType (executor : Executor) (type : EvaluationType) : Executor :=
  if type = .recursive then { executor with evaluateImpl := .recursive }
  else { executor with evaluateImpl := .iterative }

def reset (executor : Executor) : Executor := { executor with dirtyLeaves := [] }

/-- A node is marked once, except the one that marking starts from, which may be a value node. -/
def markDirty (executor : Executor) (g : Graph D) (id : NodeId) : Except Abort (Executor × Graph D) :=
  match FuelLoop.run markDirtyStep (edgeCount g.dependentsMap + (g.dependents id).length + 2)
      ([id], g, executor.dirtyLeaves) with
  | none => .error .nontermination
  | some (.error reason) => .error reason
  | some (.ok (g, dirtyLeaves)) => .ok ({ executor with dirtyLeaves := dirtyLeaves }, g)

def markAsDirtyLeaf (executor : Executor) (id : NodeId) : Executor :=
  { executor with dirtyLeaves := executor.dirtyLeaves ++ [id] }

/-- Erases the first occurrence. -/
def remove (executor : Executor) (id : NodeId) : Executor :=
  { executor with dirtyLeaves := executor.dirtyLeaves.erase id }

end Executor

/-! ### Evaluation -/

/-- `node.value = node.formula(); node.dirty = false`.  The reference `node` was taken before the
dependencies were evaluated; it still refers to the entry of the map. -/
def evaluateRecursive : Nat → Graph D → NodeId → Except Abort (Graph D)
  | 0, _, _ => .error .nontermination
  | fuel + 1, g, id => do
      let node ← g.node id
      if !node.dirty then .ok g
      else
        let g ← (g.dependencies id).foldlM (evaluateRecursive fuel) g
        -- The recursion has written to the graph, so the record is looked up again.
        let node ← g.node id
        if node.type ≠ .value then
          match node.formula with
          | none => .error .badFunctionCall
          | some formula => do
              let value ← formula.invoke g
              .ok (g.setNode id { node with value := value, dirty := false })
        else .ok (g.setNode id { node with dirty := false })

inductive VisitState
  | unvisited
  | visiting
  | visited
  deriving DecidableEq, Repr

/-- The locals of `evaluateIterative` and the graph.  `visitState` is total: looking up a missing key
inserts `unvisited`. -/
structure Traversal (D : Type) [Double D] where
  stack : List NodeId
  visitState : NodeId → VisitState
  graph : Graph D

/-- One round of the loop of `evaluateIterative`. -/
def evaluateIterativeStep (t : Traversal D) : Except Abort (Graph D) ⊕ Traversal D :=
  match t.stack with
  | [] => .inl (.ok t.graph)
  | currentId :: rest =>
      if t.visitState currentId = .visited then .inr { t with stack := rest }
      else
        match t.graph.node currentId with
        | .error reason => .inl (.error reason)
        | .ok node =>
            if t.visitState currentId = .unvisited then
              -- First encounter: the node is done, or waits below its dependencies.
              if !node.dirty then
                .inr { t with
                  stack := rest
                  visitState := Function.update t.visitState currentId .visited }
              else
                let visitState := Function.update t.visitState currentId .visiting
                let pushed := (t.graph.dependencies currentId).filter (visitState · ≠ .visited)
                .inr { t with stack := pushed.reverse ++ t.stack, visitState := visitState }
            else
              -- Second encounter: every dependency has been visited.
              let visitState := Function.update t.visitState currentId .visited
              match node.formula with
              | none =>
                  .inr ⟨rest, visitState, t.graph.setNode currentId { node with dirty := false }⟩
              | some formula =>
                  match formula.invoke t.graph with
                  | .error reason => .inl (.error reason)
                  | .ok value =>
                      .inr ⟨rest, visitState,
                        t.graph.setNode currentId { node with value := value, dirty := false }⟩

/-- Enough rounds for every node to be expanded once and every pushed id to be popped. -/
def Graph.traversalBound (g : Graph D) : Nat :=
  ∑ id ∈ g.nodes.keys, ((g.dependencies id).length + 1) + 2

def evaluateIterative (g : Graph D) (id : NodeId) : Except Abort (Graph D) := do
  let node ← g.node id
  if !node.dirty then .ok g
  else
    match FuelLoop.run evaluateIterativeStep g.traversalBound ⟨[id], fun _ => .unvisited, g⟩ with
    | some result => result
    | none => .error .nontermination

namespace Executor

/-- The private `evaluate(id)`, through the member pointer `evaluateImpl`.  A recursion without
repetition is at most as deep as the graph has nodes. -/
def evaluateNode (executor : Executor) (g : Graph D) (id : NodeId) : Except Abort (Graph D) :=
  match executor.evaluateImpl with
  | .iterative => evaluateIterative g id
  | .recursive => evaluateRecursive (g.nodes.keys.card + 1) g id

def getNodeValue (executor : Executor) (g : Graph D) (id : NodeId) :
    Except Abort (Result D × Graph D) :=
  if !g.contains id then
    .ok (.error (buildErrorInfo .nodeNotFound
      ("Trying to set value of non-existing node " ++ quoted id)), g)
  else do
    let node ← g.node id
    let g ← if node.dirty then executor.evaluateNode g id else .ok g
    let node ← g.node id
    .ok (.ok node.value, g)

def evaluate (executor : Executor) (g : Graph D) :
    Except Abort (VoidResult × Executor × Graph D) := do
  let g ← executor.dirtyLeaves.foldlM executor.evaluateNode g
  .ok (.ok (), { executor with dirtyLeaves := [] }, g)

end Executor

end StatForge.StatKernel
