import StatForge.Lib.StepMachine
import StatForge.StatKernel.Compiler
import StatForge.StatKernel.Executor

/-!
# The stat kernel

`stat_kernel/stat_kernel.cpp`: the operations of the public class on one graph, one compiler and one
executor, and the machine whose inputs are calls of these operations.
-/

namespace StatForge

open StatKernel

structure StatKernel (D : Type) [Double D] where
  graph : Graph D := {}
  executor : Executor := {}

namespace StatKernel

variable {D : Type} [Double D]

/-- What a call returns. -/
inductive Reply (D : Type)
  | void
  | result (result : VoidResult)
  | value (result : Result D)

/-- A mutation that the compiler made, followed by the executor's bookkeeping if it succeeded. -/
def andThen (kernel : StatKernel D) (change : Except Abort (VoidResult × Graph D))
    (bookkeeping : StatKernel D → Except Abort (StatKernel D)) :
    Except Abort (VoidResult × StatKernel D) := do
  let (result, graph) ← change
  match result with
  | .error info => .ok (.error info, { kernel with graph := graph })
  | .ok () => do
      let kernel ← bookkeeping { kernel with graph := graph }
      .ok (.ok (), kernel)

def markAsDirtyLeaf (id : NodeId) (kernel : StatKernel D) : Except Abort (StatKernel D) :=
  .ok { kernel with executor := kernel.executor.markAsDirtyLeaf id }

def markDirty (id : NodeId) (kernel : StatKernel D) : Except Abort (StatKernel D) := do
  let (executor, graph) ← kernel.executor.markDirty kernel.graph id
  .ok ⟨graph, executor⟩

def createCollectionNode (kernel : StatKernel D) (id : NodeId) (dependencies : List NodeId)
    (operation : CollectionOperation := .sum) : Except Abort (VoidResult × StatKernel D) :=
  kernel.andThen (Compiler.addCollectionNode kernel.graph id dependencies operation)
    (markAsDirtyLeaf id)

def createFormulaNode (kernel : StatKernel D) (id : NodeId) (formula : StdString) :
    Except Abort (VoidResult × StatKernel D) :=
  kernel.andThen (Compiler.addFormulaNode kernel.graph id formula) (markAsDirtyLeaf id)

def createValueNode (kernel : StatKernel D) (id : NodeId) (value : D) :
    VoidResult × StatKernel D :=
  let (result, graph) := Compiler.addValueNode kernel.graph id value
  (result, { kernel with graph := graph })

def removeNode (kernel : StatKernel D) (id : NodeId) : Except Abort (VoidResult × StatKernel D) :=
  -- The dependents are copied before the removal erases them.
  let dependents := kernel.graph.dependents id
  kernel.andThen (kernel.graph.removeNode id) fun kernel =>
    dependents.foldlM (fun kernel dependentId => kernel.markDirty dependentId)
      { kernel with executor := kernel.executor.remove id }

def setNodeValue (kernel : StatKernel D) (id : NodeId) (value : D) :
    Except Abort (VoidResult × StatKernel D) :=
  if !kernel.graph.contains id then
    .ok (.error (buildErrorInfo .nodeNotFound
      ("Trying to set value of non-existing node " ++ quoted id)), kernel)
  else do
    let node ← kernel.graph.node id
    if node.type ≠ .value then
      .ok (.error (buildErrorInfo .nodeTypeMismatch
        ("Trying to change value of non value node " ++ quoted id)), kernel)
    else if Double.eq node.value value then .ok (.ok (), kernel)
    else do
      -- The flag of a value node stays as it is; only the nodes above it are marked.
      let graph := kernel.graph.setNode id { node with value := value }
      let kernel ← markDirty id { kernel with graph := graph }
      .ok (.ok (), kernel)

def setNodeFormula (kernel : StatKernel D) (id : NodeId) (formula : StdString) :
    Except Abort (VoidResult × StatKernel D) :=
  kernel.andThen (Compiler.setNodeFormula kernel.graph id formula) (markDirty id)

def setNodeDependencies (kernel : StatKernel D) (id : NodeId) (dependencies : List NodeId) :
    Except Abort (VoidResult × StatKernel D) :=
  kernel.andThen (Compiler.setCollectionNodeDependencies kernel.graph id dependencies)
    (markDirty id)

def getNodeValue (kernel : StatKernel D) (id : NodeId) : Except Abort (Result D × StatKernel D) := do
  let (result, graph) ← kernel.executor.getNodeValue kernel.graph id
  .ok (result, { kernel with graph := graph })

def evaluate (kernel : StatKernel D) : Except Abort (VoidResult × StatKernel D) := do
  let (result, executor, graph) ← kernel.executor.evaluate kernel.graph
  .ok (result, ⟨graph, executor⟩)

def reset (kernel : StatKernel D) : StatKernel D :=
  ⟨kernel.graph.clear, kernel.executor.reset⟩

def setEvaluationType (kernel : StatKernel D) (evaluationType : EvaluationType) : StatKernel D :=
  { kernel with executor := kernel.executor.setEvaluationType evaluationType }

/-! ### Runs -/

/-- A call of one of the operations. -/
inductive Op (D : Type)
  | createValueNode (id : NodeId) (value : D)
  | createFormulaNode (id : NodeId) (formula : StdString)
  | createCollectionNode (id : NodeId) (dependencies : List NodeId) (operation : CollectionOperation)
  | setNodeValue (id : NodeId) (value : D)
  | setNodeFormula (id : NodeId) (formula : StdString)
  | setNodeDependencies (id : NodeId) (dependencies : List NodeId)
  | removeNode (id : NodeId)
  | getNodeValue (id : NodeId)
  | evaluate
  | reset
  | setEvaluationType (evaluationType : EvaluationType)

/-- The reply of a call that returns a `VoidResult`. -/
def voidReply : VoidResult × StatKernel D → Reply D × StatKernel D
  | (result, kernel) => (.result result, kernel)

def step (kernel : StatKernel D) : Op D → Except Abort (Reply D × StatKernel D)
  | .createValueNode id value => .ok (voidReply (kernel.createValueNode id value))
  | .createFormulaNode id formula => voidReply <$> kernel.createFormulaNode id formula
  | .createCollectionNode id dependencies operation =>
      voidReply <$> kernel.createCollectionNode id dependencies operation
  | .setNodeValue id value => voidReply <$> kernel.setNodeValue id value
  | .setNodeFormula id formula => voidReply <$> kernel.setNodeFormula id formula
  | .setNodeDependencies id dependencies => voidReply <$> kernel.setNodeDependencies id dependencies
  | .removeNode id => voidReply <$> kernel.removeNode id
  | .getNodeValue id => do
      let (result, kernel) ← kernel.getNodeValue id
      .ok (.value result, kernel)
  | .evaluate => voidReply <$> kernel.evaluate
  | .reset => .ok (.void, kernel.reset)
  | .setEvaluationType evaluationType => .ok (.void, kernel.setEvaluationType evaluationType)

/-- A kernel as its constructor leaves it. -/
def fresh : StatKernel D := {}

/-- The states of all finite runs of a fresh kernel in which no call aborts. -/
abbrev Reachable (kernel : StatKernel D) : Prop :=
  StepMachine.Reachable step StepMachine.anyStep fresh kernel

end StatKernel

end StatForge
