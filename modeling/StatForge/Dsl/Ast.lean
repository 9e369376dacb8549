import StatForge.Dsl.Tokenizer

/-!
# The expression tree

The variant of `dsl/ast.hpp`, its induction principle with a hypothesis for every call argument, and
the notions of the tree that the later modules share: the children of a node, the size, the names of
the references, and a test of every node.
-/

namespace StatForge.Dsl

inductive ExpressionTree (D : Type)
  | literal (value : D) (span : Span)
  | ref (name : StdString) (span : Span)
  | unary (op : TokenKind) (rhs : ExpressionTree D) (span : Span)
  | binary (op : TokenKind) (lhs rhs : ExpressionTree D) (span : Span)
  | ternary (cond thenExpr elseExpr : ExpressionTree D) (span : Span)
  | call (name : StdString) (args : List (ExpressionTree D)) (span : Span)

namespace ExpressionTree

variable {D : Type}

/-- Induction over expression trees, with an induction hypothesis for every argument of a call. -/
@[induction_eliminator]
theorem induction {motive : ExpressionTree D → Prop}
    (literal : ∀ value span, motive (.literal value span))
    (ref : ∀ name span, motive (.ref name span))
    (unary : ∀ op rhs span, motive rhs → motive (.unary op rhs span))
    (binary : ∀ op lhs rhs span, motive lhs → motive rhs → motive (.binary op lhs rhs span))
    (ternary : ∀ cond thenExpr elseExpr span, motive cond → motive thenExpr → motive elseExpr →
      motive (.ternary cond thenExpr elseExpr span))
    (call : ∀ name args span, (∀ arg ∈ args, motive arg) → motive (.call name args span))
    (e : ExpressionTree D) : motive e := by
  refine @ExpressionTree.rec _ motive (fun args => ∀ arg ∈ args, motive arg)
    literal ref unary binary ternary call ?_ ?_ e
  · intro arg harg
    exact absurd harg List.not_mem_nil
  · intro head tail hhead htail arg harg
    rcases List.mem_cons.mp harg with rfl | harg
    · exact hhead
    · exact htail arg harg

/-- The direct subtrees, in the order of the variant's fields. -/
def children : ExpressionTree D → List (ExpressionTree D)
  | .literal _ _ => []
  | .ref _ _ => []
  | .unary _ rhs _ => [rhs]
  | .binary _ lhs rhs _ => [lhs, rhs]
  | .ternary cond thenExpr elseExpr _ => [cond, thenExpr, elseExpr]
  | .call _ args _ => args

mutual
/-- The number of nodes. -/
def size : ExpressionTree D → Nat
  | .literal _ _ => 1
  | .ref _ _ => 1
  | .unary _ rhs _ => rhs.size + 1
  | .binary _ lhs rhs _ => lhs.size + rhs.size + 1
  | .ternary cond thenExpr elseExpr _ => cond.size + thenExpr.size + elseExpr.size + 1
  | .call _ args _ => sizeArgs args + 1

def sizeArgs : List (ExpressionTree D) → Nat
  | [] => 0
  | arg :: args => arg.size + sizeArgs args
end

theorem sizeArgs_append (xs ys : List (ExpressionTree D)) :
    sizeArgs (xs ++ ys) = sizeArgs xs + sizeArgs ys := by
  induction xs with
  | nil => simp [sizeArgs]
  | cons x xs ih =>
      simp only [List.cons_append, sizeArgs, ih]
      omega

theorem size_eq (e : ExpressionTree D) : e.size = sizeArgs e.children + 1 := by
  cases e <;> simp only [size, children, sizeArgs] <;> omega

theorem size_lt_of_mem_children {e child : ExpressionTree D} (h : child ∈ e.children) :
    child.size < e.size := by
  rw [size_eq e]
  generalize e.children = args at h
  induction args with
  | nil => exact absurd h List.not_mem_nil
  | cons arg args ih =>
      rw [sizeArgs]
      rcases List.mem_cons.mp h with rfl | h
      · omega
      · have hlt := ih h
        omega

mutual
/-- The names of all references, from left to right. -/
def refs : ExpressionTree D → List NodeId
  | .literal _ _ => []
  | .ref name _ => [name]
  | .unary _ rhs _ => rhs.refs
  | .binary _ lhs rhs _ => lhs.refs ++ rhs.refs
  | .ternary cond thenExpr elseExpr _ => cond.refs ++ thenExpr.refs ++ elseExpr.refs
  | .call _ args _ => refsArgs args

def refsArgs : List (ExpressionTree D) → List NodeId
  | [] => []
  | arg :: args => arg.refs ++ refsArgs args
end

@[simp] theorem mem_refsArgs {name : NodeId} {args : List (ExpressionTree D)} :
    name ∈ refsArgs args ↔ ∃ arg ∈ args, name ∈ arg.refs := by
  induction args with
  | nil => simp [refsArgs]
  | cons arg args ih => simp [refsArgs, ih]

/-- The name of a reference node itself. -/
def refName : ExpressionTree D → List NodeId
  | .ref name _ => [name]
  | _ => []

theorem mem_refs_iff (name : NodeId) (e : ExpressionTree D) :
    name ∈ e.refs ↔ name ∈ e.refName ∨ name ∈ refsArgs e.children := by
  cases e <;> simp [refs, refName, children]

mutual
/-- The test holds at every node of the tree. -/
def all (test : ExpressionTree D → Bool) : ExpressionTree D → Bool
  | .literal value span => test (.literal value span)
  | .ref name span => test (.ref name span)
  | .unary op rhs span => test (.unary op rhs span) && rhs.all test
  | .binary op lhs rhs span => test (.binary op lhs rhs span) && lhs.all test && rhs.all test
  | .ternary cond thenExpr elseExpr span =>
      test (.ternary cond thenExpr elseExpr span) && cond.all test && thenExpr.all test &&
        elseExpr.all test
  | .call name args span => test (.call name args span) && allArgs test args

def allArgs (test : ExpressionTree D → Bool) : List (ExpressionTree D) → Bool
  | [] => true
  | arg :: args => arg.all test && allArgs test args
end

@[simp] theorem allArgs_eq_true {test : ExpressionTree D → Bool} {args : List (ExpressionTree D)} :
    allArgs test args = true ↔ ∀ arg ∈ args, arg.all test = true := by
  induction args with
  | nil => simp [allArgs]
  | cons arg args ih => simp [allArgs, ih]

/-- A test of every node is a test of the root and of every node of the children. -/
theorem all_iff {test : ExpressionTree D → Bool} (e : ExpressionTree D) :
    e.all test = true ↔ test e = true ∧ ∀ child ∈ e.children, child.all test = true := by
  cases e <;> simp [all, children, and_assoc]

end ExpressionTree

end StatForge.Dsl
