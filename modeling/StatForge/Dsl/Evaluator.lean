import Mathlib.Data.Char
import Mathlib.Data.List.Destutter
import Mathlib.Data.List.Lex
import Mathlib.Data.List.Sort
import StatForge.Dsl.Parser
import StatForge.Lib.FuelLoop

/-!
# The evaluator

`dsl/evaluator.cpp`: the value of an expression tree under a node lookup, and the list of the nodes
that a tree refers to.
-/

namespace StatForge.Dsl

variable {D : Type} [Double D]

/-- The lookup callback; `none` is an empty `std::function`. -/
structure Context (D : Type) where
  nodeLookup : Option (StdString → Except Abort D)

/-- `static_cast<double>(condition)`. -/
def boolValue (condition : Bool) : D := if condition then Double.one else Double.zero

def logicalValue (val : D) : D := boolValue (!Double.eq val Double.zero && !Double.isNan val)

/-- `std::max(a, b)`. -/
def stdMax (a b : D) : D := if Double.lt a b then b else a

/-- `std::min(a, b)`. -/
def stdMin (a b : D) : D := if Double.lt b a then b else a

def logic (lhs rhs : D) : TokenKind → Except Abort D
  | .andAnd => .ok (Double.mul (logicalValue lhs) (logicalValue rhs))
  | .orOr => .ok (stdMax (logicalValue lhs) (logicalValue rhs))
  | .equalEqual => .ok (boolValue (Double.eq lhs rhs))
  | .bangEqual => .ok (boolValue (!Double.eq lhs rhs))
  | .less => .ok (boolValue (Double.lt lhs rhs))
  | .lessEqual => .ok (boolValue (Double.le lhs rhs))
  | .greater => .ok (boolValue (Double.lt rhs lhs))
  | .greaterEqual => .ok (boolValue (Double.le rhs lhs))
  | _ => .error .unreachable

def arithmetic (lhs rhs : D) : TokenKind → Except Abort D
  | .plus => .ok (Double.add lhs rhs)
  | .minus => .ok (Double.sub lhs rhs)
  | .star => .ok (Double.mul lhs rhs)
  | .slash => .ok (Double.div lhs rhs)
  | .caret => .ok (Double.pow lhs rhs)
  | _ => .error .unreachable

/-- The `switch` of the visitor on a unary operator. -/
def evaluateUnary (op : TokenKind) (rhs : D) : Except Abort D :=
  match op with
  | .plus => .ok rhs
  | .minus => .ok (Double.neg rhs)
  | .bang => .ok (boolValue (Double.eq (logicalValue rhs) Double.zero))
  | _ => .error .unreachable

/-- The `switch` of the visitor on a binary operator. -/
def evaluateBinary (op : TokenKind) (lhs rhs : D) : Except Abort D :=
  match op with
  | .plus | .minus | .star | .slash | .caret => arithmetic lhs rhs op
  | .andAnd | .orOr | .equalEqual | .bangEqual | .less | .lessEqual | .greater | .greaterEqual =>
      logic lhs rhs op
  | _ => .error .unreachable

def evaluate (context : Context D) : ExpressionTree D → Except Abort D
  | .literal value _ => .ok value
  | .ref name _ =>
      match context.nodeLookup with
      | none => .error .unreachable
      | some nodeLookup => nodeLookup name
  | .unary op rhs _ => do
      let rhs ← evaluate context rhs
      evaluateUnary op rhs
  | .binary op lhs rhs _ => do
      let lhs ← evaluate context lhs
      let rhs ← evaluate context rhs
      evaluateBinary op lhs rhs
  | .ternary cond thenExpr elseExpr _ => do
      let predicate ← evaluate context cond
      if Double.eq (logicalValue predicate) Double.one then evaluate context thenExpr
      else evaluate context elseExpr
  | .call name args _ =>
      if name = "root".toList then
        match args with
        | [arg0, arg1] => do
            let index ← evaluate context arg0
            let value ← evaluate context arg1
            .ok (Double.pow value (Double.div Double.one index))
        | _ => .error .unreachable
      else .error .unreachable

/-- One round of the queue loop: the node at the cursor adds its name, if it is a reference, and
queues its children. -/
def extractStep :
    List NodeId × List (ExpressionTree D) → List NodeId ⊕ List NodeId × List (ExpressionTree D)
  | (dependencies, []) => .inl dependencies
  | (dependencies, current :: queue) =>
      .inr (dependencies ++ current.refName, queue ++ current.children)

/-- `std::ranges::sort`, `std::ranges::unique` and the erasure of the rest. -/
def sortUnique (names : List NodeId) : List NodeId :=
  (names.insertionSort (· ≤ ·)).destutter (· ≠ ·)

def extractDependencies (expression : ExpressionTree D) : List NodeId :=
  sortUnique ((FuelLoop.run extractStep (expression.size + 1) ([], [expression])).getD [])

end StatForge.Dsl
