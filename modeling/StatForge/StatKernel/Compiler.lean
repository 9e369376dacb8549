import StatForge.StatKernel.Graph

/-!
# The compiler

`stat_kernel/compiler.cpp`: creating nodes and changing formulas and dependencies.  A creation
inserts the node first and undoes itself with `Graph.removeNode`.  The compiler's only state is its
reference to the graph.
-/

namespace StatForge.StatKernel

open Dsl

variable {D : Type} [Double D]

def isValidCollectionOperation : CollectionOperation → Bool
  | .sum | .product | .median | .average | .min | .max | .count => true
  | .other _ => false

/-- The closure for an operation; past the `switch` stands `std::unreachable()`. -/
def compileCollectionFormula (id : NodeId) (operation : CollectionOperation) :
    Except Abort (NodeFormula D) :=
  if isValidCollectionOperation operation then .ok (.collection id operation)
  else .error .undefined

/-- Tokenize, parse and fold; an error message starts with the node. -/
def compileAst (id : NodeId) (formula : StdString) : Except Abort (Result (ExpressionTree D)) :=
  let atNode (error : ErrorInfo) : ErrorInfo :=
    { error with message := "Node " ++ quoted id ++ ": " ++ error.message }
  match tokenize formula with
  | .error error => .ok (.error (atNode error))
  | .ok tokens =>
      match Parser.parse tokens with
      | .ok ast => .ok (.ok ast)
      | .error (.error error) => .ok (.error (atNode error))
      | .error (.abort reason) => .error reason

def compileNodeFormula (ast : ExpressionTree D) : NodeFormula D := .expression ast

namespace Compiler

/-- The private `setNodeDependencies`, with its assertion on the type. -/
def setNodeDependencies (g : Graph D) (id : NodeId) (dependencies : List NodeId)
    (skipCycleCheck : Bool := false) : Except Abort (VoidResult × Graph D) :=
  if !g.contains id then
    .ok (.error (buildErrorInfo .nodeNotFound
      ("Trying to set dependencies of non-existing node " ++ quoted id)), g)
  else do
    let node ← g.node id
    if node.type = .value then .error .assertion
    else g.setNodeDependencies id dependencies skipCycleCheck

def addCollectionNode (g : Graph D) (id : NodeId) (dependencies : List NodeId)
    (operation : CollectionOperation) : Except Abort (VoidResult × Graph D) :=
  if !isValidCollectionOperation operation then
    .ok (.error (buildErrorInfo .invalidCollectionOperation
      ("Trying to create collection node " ++ quoted id ++ " with invalid operation \"" ++
        toString operation.toInt ++ "\"")), g)
  else
    match g.addNode id {} with
    | (.error info, g) => .ok (.error info, g)
    | (.ok (), g) => do
        -- Nothing depends on the new node yet, so the cycle check is skipped.
        let (result, g) ← g.setNodeDependencies id dependencies true
        match result with
        | .error info => do
            let (_, g) ← g.removeNode id
            .ok (.error info, g)
        | .ok () => do
            let formula ← compileCollectionFormula id operation
            let node : Node D :=
              { formula := some formula
                value := Double.zero
                type := .collection
                collectionOperation := operation
                dirty := true }
            .ok (.ok (), g.setNode id node)

def addFormulaNode (g : Graph D) (id : NodeId) (formula : StdString) :
    Except Abort (VoidResult × Graph D) :=
  match g.addNode id {} with
  | (.error info, g) => .ok (.error info, g)
  | (.ok (), g) => do
      -- The type is set before the formula is compiled; until then the node has no closure.
      let node : Node D := { formula := none, value := Double.zero, type := .formula, dirty := true }
      let g := g.setNode id node
      match ← compileAst id formula with
      | .error info => do
          let (_, g) ← g.removeNode id
          .ok (.error info, g)
      | .ok ast => do
          let (result, g) ← setNodeDependencies g id (extractDependencies ast) true
          match result with
          | .error info => do
              let (_, g) ← g.removeNode id
              .ok (.error info, g)
          | .ok () => do
              let node ← g.node id
              .ok (.ok (), g.setNode id { node with formula := some (compileNodeFormula ast) })

def addValueNode (g : Graph D) (id : NodeId) (value : D) : VoidResult × Graph D :=
  g.addNode id { formula := none, value := value, type := .value, dirty := false }

def setNodeFormula (g : Graph D) (id : NodeId) (formula : StdString) :
    Except Abort (VoidResult × Graph D) :=
  if !g.contains id then
    .ok (.error (buildErrorInfo .nodeNotFound
      ("Trying to set formula of non-existing node " ++ quoted id)), g)
  else do
    let node ← g.node id
    if node.type ≠ .formula then
      .ok (.error (buildErrorInfo .nodeTypeMismatch
        ("Trying to manually change formula of non formula node " ++ quoted id)), g)
    else
      match ← compileAst id formula with
      | .error info => .ok (.error info, g)
      | .ok ast => do
          let (result, g) ← setNodeDependencies g id (extractDependencies ast)
          match result with
          | .error info => .ok (.error info, g)
          | .ok () => do
              let node ← g.node id
              .ok (.ok (), g.setNode id { node with formula := some (compileNodeFormula ast) })

def setCollectionNodeDependencies (g : Graph D) (id : NodeId) (dependencies : List NodeId)
    (skipCycleCheck : Bool := false) : Except Abort (VoidResult × Graph D) :=
  match g.nodes.lookup id with
  | some node =>
      if node.type ≠ .collection then
        .ok (.error (buildErrorInfo .nodeTypeMismatch
          ("Trying to manually change dependencies of non collection node " ++ quoted id)), g)
      else setNodeDependencies g id dependencies skipCycleCheck
  | none => setNodeDependencies g id dependencies skipCycleCheck

end Compiler

end StatForge.StatKernel
