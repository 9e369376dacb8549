import StatForge.Dsl.ParserCases
import StatForge.Dsl.References

/-!
# Trees that the evaluator can run

The operators and calls that the evaluator knows, and what the parser guarantees of them.

* `evaluateUnary_returns_iff`, `evaluateBinary_returns_iff` — the operators that each `switch` handles.
* `parse_operatorHandled` — the parser builds no other operators.
* `evaluate_returns` — a tree with handled operators and supported calls has a value under every
  lookup that succeeds on its references.
-/

namespace StatForge.Dsl

open ExpressionTree ExceptBind

variable {D : Type}

namespace ExpressionTree

/-- A prefix operator of `parsePrimary`, or an infix operator with a binding power. -/
def operatorHandled : ExpressionTree D → Bool
  | .unary op _ _ => op = .plus || op = .minus || op = .bang
  | .binary op _ _ _ => 0 ≤ leftBindingPower op
  | _ => true

/-- `root` with two arguments, the only call that the evaluator knows. -/
def callSupported : ExpressionTree D → Bool
  | .call name args _ => name = "root".toList && args.length = 2
  | _ => true

end ExpressionTree

/-! ### The parser -/

namespace Parser

/-- The trees that the parsing functions return with some fuel have handled operators. -/
structure HandlesAt (D : Type) (fuel : Nat) : Prop where
  primary : ∀ {p p' : Parser D} {e}, parsePrimary fuel p = .ok (e, p') → e.all operatorHandled
  arguments : ∀ {p p' : Parser D} {args}, parseArguments fuel p = .ok (args, p') →
    allArgs operatorHandled args
  expression : ∀ {minBindingPower} {p p' : Parser D} {e}, 0 ≤ minBindingPower →
    parseExpression fuel minBindingPower p = .ok (e, p') → e.all operatorHandled
  operators : ∀ {minBindingPower} {p p' : Parser D} {lhs e}, 0 ≤ minBindingPower →
    lhs.all operatorHandled → parseOperators fuel minBindingPower lhs p = .ok (e, p') →
      e.all operatorHandled

section HandlesAt

variable {fuel : Nat} (ih : HandlesAt D fuel) {p p' : Parser D} {e : ExpressionTree D}

include ih

theorem HandlesAt.parsePrimary (h : parsePrimary (fuel + 1) p = .ok (e, p')) :
    e.all operatorHandled := by
  cases parsePrimary_cases h with
  | number _ _ => rfl
  | nodeRef _ _ => rfl
  | callEmpty _ _ _ _ => rfl
  | call _ _ _ _ hargs _ => simpa [all, operatorHandled] using ih.arguments hargs
  | unary _ hkind hrhs =>
      simpa [all, operatorHandled, or_assoc] using ⟨hkind, ih.expression (by decide) hrhs⟩
  | paren _ _ hinner _ => exact ih.expression le_rfl hinner

theorem HandlesAt.parseArguments {args : List (ExpressionTree D)}
    (h : parseArguments (fuel + 1) p = .ok (args, p')) : allArgs operatorHandled args := by
  obtain ⟨arg, p₁, harg, hmore⟩ := parseArguments_cases h
  have hfirst := ih.expression le_rfl harg
  rcases hmore with ⟨-, rfl⟩ | ⟨p₂, rest, -, hrest, rfl⟩
  · simpa using hfirst
  · simpa [allArgs] using ⟨hfirst, by simpa using ih.arguments hrest⟩

theorem HandlesAt.parseExpression {minBindingPower : Int} (hpower : 0 ≤ minBindingPower)
    (h : parseExpression (fuel + 1) minBindingPower p = .ok (e, p')) : e.all operatorHandled := by
  obtain ⟨lhs, p₁, hlhs, h⟩ := parseExpression_cases h
  exact ih.operators hpower (ih.primary hlhs) h

theorem HandlesAt.parseOperators {minBindingPower : Int} {lhs : ExpressionTree D}
    (hpower : 0 ≤ minBindingPower) (hlhs : lhs.all operatorHandled)
    (h : parseOperators (fuel + 1) minBindingPower lhs p = .ok (e, p')) :
    e.all operatorHandled := by
  cases parseOperators_cases h with
  | done _ _ _ => exact hlhs
  | ternary _ hthen _ helse _ hrest =>
      refine ih.operators hpower ?_ hrest
      simpa [all, operatorHandled, hlhs] using
        ⟨ih.expression le_rfl hthen, ih.expression le_rfl helse⟩
  | binary _ _ hnext _ hrhs _ hrest =>
      -- The operator binds at least as tightly as the bound, which is not negative.
      have hoperator := hpower.trans hnext
      refine ih.operators hpower ?_ hrest
      simpa [all, operatorHandled, hlhs, hoperator] using
        ih.expression (rightBindingPower_nonneg hoperator) hrhs

end HandlesAt

theorem handlesAt (fuel : Nat) : HandlesAt D fuel := by
  induction fuel with
  | zero =>
      constructor
      · intro p p' e h; simp [parsePrimary] at h
      · intro p p' args h; simp [parseArguments] at h
      · intro _ p p' e _ h; simp [parseExpression] at h
      · intro _ p p' lhs e _ _ h; simp [parseOperators] at h
  | succ fuel ih => exact ⟨ih.parsePrimary, ih.parseArguments, ih.parseExpression, ih.parseOperators⟩

/-- **The parser builds handled operators only**, from any tokens. -/
theorem parse_operatorHandled [Double D] {tokens : List (Token D)} {e : ExpressionTree D}
    (h : parse tokens false = .ok e) : e.all operatorHandled := by
  rw [parse, bind_eq_ok] at h
  obtain ⟨⟨ast, p⟩, hast, h⟩ := h
  rw [bind_eq_ok] at h
  obtain ⟨⟨atEnd, p'⟩, -, h⟩ := h
  cases atEnd with
  | true =>
      cases h
      exact (handlesAt _).expression le_rfl hast
  | false =>
      simp only [Bool.false_eq_true, if_false] at h
      exact absurd h peek_invalid_ne_ok

/-- A parse with folding is one without, and the folding of its tree. -/
theorem parse_folded [Double D] {tokens : List (Token D)} {ast : ExpressionTree D} :
    parse tokens = .ok ast ↔ ∃ e, parse tokens false = .ok e ∧ foldConstants e = .ok ast := by
  unfold parse
  cases hast : parseExpression (2 * tokens.length + 2) 0 ⟨tokens, 0⟩ with
  | error stop => simp
  | ok result =>
      obtain ⟨e, p⟩ := result
      simp only [ok_bind]
      cases hend : p.matchKind .endOfFile with
      | error stop => simp
      | ok result =>
          obtain ⟨atEnd, p'⟩ := result
          cases atEnd with
          | false => simp [bind_eq_ok, invalid]
          | true => cases hfold : foldConstants e <;> simp [verify, hfold]

end Parser

/-! ### The evaluator -/

variable [Double D]

theorem evaluateUnary_returns_iff {op : TokenKind} {rhs : D} :
    (∃ value, evaluateUnary op rhs = .ok value) ↔ op = .plus ∨ op = .minus ∨ op = .bang := by
  cases op <;> simp [evaluateUnary]

theorem evaluateBinary_returns_iff {op : TokenKind} {lhs rhs : D} :
    (∃ value, evaluateBinary op lhs rhs = .ok value) ↔ 0 ≤ leftBindingPower op := by
  cases op <;> simp [evaluateBinary, arithmetic, logic, leftBindingPower]

/-- **Evaluation returns.**  A tree with handled operators and supported calls has a value under every
lookup that succeeds on its references. -/
theorem evaluate_returns {lookup : StdString → Except Abort D} (e : ExpressionTree D)
    (hoperators : e.all operatorHandled) (hcalls : e.all callSupported)
    (hlookup : ∀ name ∈ e.refs, ∃ value, lookup name = .ok value) :
    ∃ value, evaluate ⟨some lookup⟩ e = .ok value := by
  induction e with
  | literal value span => exact ⟨value, rfl⟩
  | ref name span => exact hlookup name (by simp [refs])
  | unary op rhs span ih =>
      simp only [all, operatorHandled, callSupported, Bool.and_eq_true, Bool.or_eq_true,
        decide_eq_true_eq, or_assoc] at hoperators hcalls
      obtain ⟨value, hvalue⟩ := ih hoperators.2 hcalls.2 hlookup
      rw [evaluate, hvalue, ok_bind]
      exact evaluateUnary_returns_iff.mpr hoperators.1
  | binary op lhs rhs span ih ih' =>
      simp only [all, operatorHandled, callSupported, Bool.and_eq_true, decide_eq_true_eq,
        and_assoc] at hoperators hcalls
      obtain ⟨l, hl⟩ := ih hoperators.2.1 hcalls.2.1 fun name hname =>
        hlookup name (by simp [refs, hname])
      obtain ⟨r, hr⟩ := ih' hoperators.2.2 hcalls.2.2 fun name hname =>
        hlookup name (by simp [refs, hname])
      rw [evaluate, hl, ok_bind, hr, ok_bind]
      exact evaluateBinary_returns_iff.mpr hoperators.1
  | ternary cond thenExpr elseExpr span ih ih' ih'' =>
      simp only [all, operatorHandled, callSupported, Bool.and_eq_true, and_assoc] at hoperators hcalls
      obtain ⟨-, hcond, hthen, helse⟩ := hoperators
      obtain ⟨-, hcond', hthen', helse'⟩ := hcalls
      obtain ⟨value, hvalue⟩ := ih hcond hcond' fun name hname =>
        hlookup name (by simp [refs, hname])
      rw [evaluate, hvalue, ok_bind]
      split
      · exact ih' hthen hthen' fun name hname => hlookup name (by simp [refs, hname])
      · exact ih'' helse helse' fun name hname => hlookup name (by simp [refs, hname])
  | call name args span ih =>
      simp only [all, operatorHandled, callSupported, Bool.and_eq_true, decide_eq_true_eq,
        allArgs_eq_true] at hoperators hcalls
      -- A supported call has exactly the two arguments that `root` reads.
      obtain ⟨arg0, arg1, rfl⟩ := List.length_eq_two.mp hcalls.1.2
      have hvalue (arg) (harg : arg ∈ [arg0, arg1]) :
          ∃ value, evaluate ⟨some lookup⟩ arg = .ok value :=
        ih arg harg (hoperators.2 arg harg) (hcalls.2 arg harg) fun name hname => hlookup name
          (by simp only [refs, mem_refsArgs]; exact ⟨arg, harg, hname⟩)
      obtain ⟨index, hindex⟩ := hvalue arg0 (by simp)
      obtain ⟨value, hvalue⟩ := hvalue arg1 (by simp)
      exact ⟨_, by rw [evaluate, if_pos hcalls.1.1, hindex, ok_bind, hvalue, ok_bind]⟩

end StatForge.Dsl
