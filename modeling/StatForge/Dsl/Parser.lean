import Mathlib.Algebra.Group.Int.Defs
import StatForge.Dsl.Ast

/-!
# The parser and the constant folder

`dsl/parser.cpp`: the Pratt parser over a token list with a position, and the folding of constant
subtrees.

A parse ends in a tree, in an `ErrorInfo`, or in an `Abort`: an index past the token list is
undefined behaviour, and the mutual recursion carries a bound.  `parse` gives it twice the length of
the token list.
-/

namespace StatForge.Dsl

/-- The two ways in which parsing ends without a tree. -/
inductive Stop
  | error (info : ErrorInfo)
  | abort (reason : Abort)
  deriving DecidableEq

structure Parser (D : Type) where
  tokens : List (Token D)
  pos : Nat := 0

def leftBindingPower : TokenKind → Int
  | .caret => 11
  | .star | .slash => 9
  | .plus | .minus => 8
  | .less | .lessEqual | .greater | .greaterEqual | .equalEqual | .bangEqual => 7
  | .andAnd => 6
  | .orOr => 5
  | _ => -1

def rightBindingPower : TokenKind → Int
  | .caret => 11
  | .star | .slash => 10
  | .plus | .minus => 9
  | .less | .lessEqual | .greater | .greaterEqual | .equalEqual | .bangEqual => 8
  | .andAnd => 7
  | .orOr => 6
  | _ => -1

theorem rightBindingPower_nonneg {kind : TokenKind} (h : 0 ≤ leftBindingPower kind) :
    0 ≤ rightBindingPower kind := by
  cases kind <;> simp_all [leftBindingPower, rightBindingPower]

namespace Parser

variable {D : Type}

/-- A `std::size_t` computed from `i`.  A vector has fewer than `2 ^ 64` elements, so only a negative
result wraps around. -/
def wrap (i : Int) : Nat := if i < 0 then (i + 2 ^ 64).toNat else i.toNat

def peek (p : Parser D) (offset : Int := 0) : Except Stop (Token D) :=
  match p.tokens[min (wrap (p.pos + offset)) (wrap (p.tokens.length - 1))]? with
  | some token => .ok token
  | none => .error (.abort .undefined)

/-- `match(kind)`: the answer and the parser afterwards. -/
def matchKind (p : Parser D) (kind : TokenKind) : Except Stop (Bool × Parser D) := do
  let token ← p.peek
  if token.kind ≠ kind then .ok (false, p) else .ok (true, { p with pos := p.pos + 1 })

/-- `_tokens[_pos++]`, without a bounds check. -/
def advance (p : Parser D) : Except Stop (Token D × Parser D) :=
  match p.tokens[p.pos]? with
  | some token => .ok (token, { p with pos := p.pos + 1 })
  | none => .error (.abort .undefined)

/-- An `SF_ERR_INVALID_DSL` error at a span. -/
def invalid {α : Type} (message : String) (span : Span) : Except Stop α :=
  .error (.error (buildErrorInfo .invalidDsl message span))

mutual
def parsePrimary : Nat → Parser D → Except Stop (ExpressionTree D × Parser D)
  | 0, _ => .error (.abort .nontermination)
  | fuel + 1, p => do
      let (token, p) ← p.advance
      match token.kind with
      | .number => .ok (.literal token.number token.span, p)
      | .nodeRef => .ok (.ref token.lexeme token.span, p)
      | .identifier =>
          let (opened, p) ← p.matchKind .leftParen
          if opened then
            let (empty, p) ← p.matchKind .rightParen
            if empty then .ok (.call token.lexeme [] token.span, p)
            else
              let (args, p) ← parseArguments fuel p
              let (closed, p) ← p.matchKind .rightParen
              if closed then .ok (.call token.lexeme args token.span, p)
              else
                let here ← p.peek
                invalid "Missing ')' after arguments" here.span
          else invalid "Bare identifier not allowed, use <id> for node ref" token.span
      | .plus | .minus | .bang =>
          let (rhs, p) ← parseExpression fuel 11 p
          .ok (.unary token.kind rhs token.span, p)
      | .leftParen =>
          let (inner, p) ← parseExpression fuel 0 p
          let (closed, p) ← p.matchKind .rightParen
          if closed then .ok (inner, p)
          else
            let here ← p.peek
            invalid "Expected ')'" here.span
      | _ => invalid "Unexpected token in expression" token.span

/-- The `do … while (match(Comma))` loop over the arguments of a call. -/
def parseArguments : Nat → Parser D → Except Stop (List (ExpressionTree D) × Parser D)
  | 0, _ => .error (.abort .nontermination)
  | fuel + 1, p => do
      let (arg, p) ← parseExpression fuel 0 p
      let (more, p) ← p.matchKind .comma
      if more then
        let (args, p) ← parseArguments fuel p
        .ok (arg :: args, p)
      else .ok ([arg], p)

def parseExpression : Nat → Int → Parser D → Except Stop (ExpressionTree D × Parser D)
  | 0, _, _ => .error (.abort .nontermination)
  | fuel + 1, minBindingPower, p => do
      let (lhs, p) ← parsePrimary fuel p
      parseOperators fuel minBindingPower lhs p

/-- The `while (true)` loop of `parseExpression`, on the tree built so far. -/
def parseOperators : Nat → Int → ExpressionTree D → Parser D →
    Except Stop (ExpressionTree D × Parser D)
  | 0, _, _, _ => .error (.abort .nontermination)
  | fuel + 1, minBindingPower, lhs, p => do
      let (question, p) ← p.matchKind .question
      if question then
        let (thenExpr, p) ← parseExpression fuel 0 p
        let (colon, p) ← p.matchKind .colon
        if colon then
          let (elseExpr, p) ← parseExpression fuel 0 p
          let last ← p.peek (-1)
          parseOperators fuel minBindingPower (.ternary lhs thenExpr elseExpr last.span) p
        else
          let here ← p.peek
          invalid "Missing ':' in ternary" here.span
      else
        let next ← p.peek
        if leftBindingPower next.kind < minBindingPower then .ok (lhs, p)
        else
          let (_, p) ← p.advance
          let (rhs, p) ← parseExpression fuel (rightBindingPower next.kind) p
          let last ← p.peek (-1)
          parseOperators fuel minBindingPower (.binary next.kind lhs rhs last.span) p
end

section Folding

variable [Double D]

/-- The value of a unary operator on a literal; every operator but `-` and `+` counts as `!`. -/
def foldUnary (op : TokenKind) (rhs : D) : D :=
  if op = .minus then Double.neg rhs
  else if op = .plus then rhs
  else if Double.eq rhs Double.zero then Double.one else Double.zero

/-- The value of a binary operator on two literals; logical operators and comparisons are not
folded. -/
def foldBinary (op : TokenKind) (lhs rhs : D) : Option D :=
  match op with
  | .plus => some (Double.add lhs rhs)
  | .minus => some (Double.sub lhs rhs)
  | .star => some (Double.mul lhs rhs)
  | .slash => some (Double.div lhs rhs)
  | .caret => some (Double.pow lhs rhs)
  | _ => none

mutual
def foldConstants : ExpressionTree D → Result (ExpressionTree D)
  | .literal value span => .ok (.literal value span)
  | .ref name span => .ok (.ref name span)
  | .unary op rhs span => do
      let rhs ← foldConstants rhs
      match rhs with
      | .literal value _ => .ok (.literal (foldUnary op value) span)
      | _ => .ok (.unary op rhs span)
  | .binary op lhs rhs span => do
      let lhs ← foldConstants lhs
      let rhs ← foldConstants rhs
      match lhs, rhs with
      | .literal l _, .literal r _ =>
          if op = .slash ∧ Double.eq r Double.zero then
            .error (buildErrorInfo .invalidDsl "Division by zero not allowed" span)
          else
            match foldBinary op l r with
            | some value => .ok (.literal value span)
            | none => .ok (.binary op lhs rhs span)
      | _, _ => .ok (.binary op lhs rhs span)
  | .ternary cond thenExpr elseExpr span => do
      let cond ← foldConstants cond
      let thenExpr ← foldConstants thenExpr
      let elseExpr ← foldConstants elseExpr
      match cond with
      | .literal value _ => if !Double.eq value Double.zero then .ok thenExpr else .ok elseExpr
      | _ => .ok (.ternary cond thenExpr elseExpr span)
  | .call name args span => do
      let args ← foldArguments args
      .ok (.call name args span)

def foldArguments : List (ExpressionTree D) → Result (List (ExpressionTree D))
  | [] => .ok []
  | arg :: args => do
      let arg ← foldConstants arg
      let args ← foldArguments args
      .ok (arg :: args)
end

end Folding

/-- The hook for checks on the finished tree; it accepts every tree. -/
def verify (_ast : ExpressionTree D) : VoidResult := .ok ()

/-- `Parser{tokens}.parse(fold)`. -/
def parse [Double D] (tokens : List (Token D)) (fold : Bool := true) :
    Except Stop (ExpressionTree D) := do
  let (ast, p) ← parseExpression (2 * tokens.length + 2) 0 ⟨tokens, 0⟩
  let (atEnd, p) ← p.matchKind .endOfFile
  if atEnd then
    match (if fold then foldConstants ast else .ok ast) with
    | .error info => .error (.error info)
    | .ok ast =>
        match verify ast with
        | .error info => .error (.error info)
        | .ok () => .ok ast
  else
    let here ← p.peek
    invalid "Unexpected trailing tokens" here.span

end Parser

end StatForge.Dsl
