import StatForge.Dsl.Parser
import StatForge.Lib.ExceptBind

/-!
# Successful calls of the parser

What a call of each parser function did when it returned a tree: one case for each path to a result.
The paths that end in an error message are closed here once, for every proof about what the parser
returns; conversely, a call that can take the steps of a path returns the tree of the path.
-/

namespace StatForge.Dsl.Parser

open ExceptBind

variable {D : Type} {fuel : Nat} {p p' : Parser D} {e : ExpressionTree D}

/-- A path that reports the token it stands in front of has no result. -/
theorem peek_invalid_ne_ok {α : Type} {message : String} {result : α} :
    (p.peek >>= fun here => invalid message here.span) ≠ .ok result := by
  intro h
  obtain ⟨_, -, h⟩ := bind_eq_ok.mp h
  cases h

/-- The paths of `parsePrimary` to a tree. -/
inductive PrimaryCase (fuel : Nat) (p : Parser D) : ExpressionTree D → Parser D → Prop
  | number {token p'} (hfirst : p.advance = .ok (token, p')) (hkind : token.kind = .number) :
      PrimaryCase fuel p (.literal token.number token.span) p'
  | nodeRef {token p'} (hfirst : p.advance = .ok (token, p')) (hkind : token.kind = .nodeRef) :
      PrimaryCase fuel p (.ref token.lexeme token.span) p'
  | callEmpty {token p₁ p₂ p'} (hfirst : p.advance = .ok (token, p₁))
      (hkind : token.kind = .identifier) (hopened : p₁.matchKind .leftParen = .ok (true, p₂))
      (hempty : p₂.matchKind .rightParen = .ok (true, p')) :
      PrimaryCase fuel p (.call token.lexeme [] token.span) p'
  | call {token p₁ p₂ p₃ args p₄ p'} (hfirst : p.advance = .ok (token, p₁))
      (hkind : token.kind = .identifier) (hopened : p₁.matchKind .leftParen = .ok (true, p₂))
      (hempty : p₂.matchKind .rightParen = .ok (false, p₃))
      (hargs : parseArguments fuel p₃ = .ok (args, p₄))
      (hclosed : p₄.matchKind .rightParen = .ok (true, p')) :
      PrimaryCase fuel p (.call token.lexeme args token.span) p'
  | unary {token p₁ rhs p'} (hfirst : p.advance = .ok (token, p₁))
      (hkind : token.kind = .plus ∨ token.kind = .minus ∨ token.kind = .bang)
      (hrhs : parseExpression fuel 11 p₁ = .ok (rhs, p')) :
      PrimaryCase fuel p (.unary token.kind rhs token.span) p'
  | paren {token p₁ e p₂ p'} (hfirst : p.advance = .ok (token, p₁))
      (hkind : token.kind = .leftParen) (hinner : parseExpression fuel 0 p₁ = .ok (e, p₂))
      (hclosed : p₂.matchKind .rightParen = .ok (true, p')) : PrimaryCase fuel p e p'

theorem parsePrimary_cases (h : parsePrimary (fuel + 1) p = .ok (e, p')) :
    PrimaryCase fuel p e p' := by
  rw [parsePrimary, bind_eq_ok] at h
  obtain ⟨⟨token, p₁⟩, hfirst, h⟩ := h
  -- The three prefix operators share one branch of the `switch`.
  have hunary (hkind : token.kind = .plus ∨ token.kind = .minus ∨ token.kind = .bang)
      (h : (parseExpression fuel 11 p₁ >>= fun x =>
        .ok (.unary token.kind x.1 token.span, x.2)) = .ok (e, p')) : PrimaryCase fuel p e p' := by
    obtain ⟨⟨rhs, p₂⟩, hrhs, h⟩ := bind_eq_ok.mp h
    cases h
    exact .unary hfirst hkind hrhs
  cases hkind : token.kind with
  | number =>
      simp only [hkind] at h
      cases h
      exact .number hfirst hkind
  | nodeRef =>
      simp only [hkind] at h
      cases h
      exact .nodeRef hfirst hkind
  | identifier =>
      simp only [hkind, bind_eq_ok] at h
      obtain ⟨⟨opened, p₂⟩, hopened, h⟩ := h
      cases opened with
      | false => cases h
      | true =>
          obtain ⟨⟨empty, p₃⟩, hempty, h⟩ := bind_eq_ok.mp h
          cases empty with
          | true =>
              cases h
              exact .callEmpty hfirst hkind hopened hempty
          | false =>
              obtain ⟨⟨args, p₄⟩, hargs, h⟩ := bind_eq_ok.mp h
              obtain ⟨⟨closed, p₅⟩, hclosed, h⟩ := bind_eq_ok.mp h
              cases closed with
              | false => exact absurd h peek_invalid_ne_ok
              | true =>
                  cases h
                  exact .call hfirst hkind hopened hempty hargs hclosed
  | plus =>
      simp only [hkind] at h
      exact hunary (Or.inl hkind) (hkind ▸ h)
  | minus =>
      simp only [hkind] at h
      exact hunary (Or.inr (Or.inl hkind)) (hkind ▸ h)
  | bang =>
      simp only [hkind] at h
      exact hunary (Or.inr (Or.inr hkind)) (hkind ▸ h)
  | leftParen =>
      simp only [hkind] at h
      obtain ⟨⟨inner, p₂⟩, hinner, h⟩ := bind_eq_ok.mp h
      obtain ⟨⟨closed, p₃⟩, hclosed, h⟩ := bind_eq_ok.mp h
      cases closed with
      | false => exact absurd h peek_invalid_ne_ok
      | true =>
          cases h
          exact .paren hfirst hkind hinner hclosed
  | _ => simp [hkind, invalid] at h

theorem PrimaryCase.parsePrimary (h : PrimaryCase fuel p e p') :
    parsePrimary (fuel + 1) p = .ok (e, p') := by
  rw [Parser.parsePrimary]
  cases h with
  | number hfirst hkind => simp [hfirst, hkind]
  | nodeRef hfirst hkind => simp [hfirst, hkind]
  | callEmpty hfirst hkind hopened hempty => simp [hfirst, hkind, hopened, hempty]
  | call hfirst hkind hopened hempty hargs hclosed =>
      simp [hfirst, hkind, hopened, hempty, hargs, hclosed]
  | unary hfirst hkind hrhs =>
      rcases hkind with hkind | hkind | hkind <;> simp [hfirst, hkind, hrhs]
  | paren hfirst hkind hinner hclosed => simp [hfirst, hkind, hinner, hclosed]

/-- One round of the argument loop: the comma decides whether another one follows. -/
theorem parseArguments_cases {args : List (ExpressionTree D)}
    (h : parseArguments (fuel + 1) p = .ok (args, p')) :
    ∃ arg p₁, parseExpression fuel 0 p = .ok (arg, p₁) ∧
      ((p₁.matchKind .comma = .ok (false, p') ∧ args = [arg]) ∨
        ∃ p₂ rest, p₁.matchKind .comma = .ok (true, p₂) ∧
          parseArguments fuel p₂ = .ok (rest, p') ∧ args = arg :: rest) := by
  rw [parseArguments, bind_eq_ok] at h
  obtain ⟨⟨arg, p₁⟩, harg, h⟩ := h
  obtain ⟨⟨more, p₂⟩, hmore, h⟩ := bind_eq_ok.mp h
  refine ⟨arg, p₁, harg, ?_⟩
  cases more with
  | false =>
      cases h
      exact Or.inl ⟨hmore, rfl⟩
  | true =>
      obtain ⟨⟨rest, p₃⟩, hrest, h⟩ := bind_eq_ok.mp h
      cases h
      exact Or.inr ⟨p₂, rest, hmore, hrest, rfl⟩

theorem parseExpression_cases {minBindingPower : Int}
    (h : parseExpression (fuel + 1) minBindingPower p = .ok (e, p')) :
    ∃ lhs p₁, parsePrimary fuel p = .ok (lhs, p₁) ∧
      parseOperators fuel minBindingPower lhs p₁ = .ok (e, p') := by
  rw [parseExpression, bind_eq_ok] at h
  obtain ⟨⟨lhs, p₁⟩, hlhs, h⟩ := h
  exact ⟨lhs, p₁, hlhs, h⟩

/-- The paths of one round of the operator loop: it ends, or it goes on with a larger tree. -/
inductive OperatorsCase (fuel : Nat) (minBindingPower : Int) (lhs : ExpressionTree D) (p : Parser D) :
    ExpressionTree D → Parser D → Prop
  | done {p' next} (hquestion : p.matchKind .question = .ok (false, p'))
      (hnext : p'.peek = .ok next) (hpower : leftBindingPower next.kind < minBindingPower) :
      OperatorsCase fuel minBindingPower lhs p lhs p'
  | ternary {p₁ thenExpr p₂ p₃ elseExpr p₄ last e p'}
      (hquestion : p.matchKind .question = .ok (true, p₁))
      (hthen : parseExpression fuel 0 p₁ = .ok (thenExpr, p₂))
      (hcolon : p₂.matchKind .colon = .ok (true, p₃))
      (helse : parseExpression fuel 0 p₃ = .ok (elseExpr, p₄)) (hlast : p₄.peek (-1) = .ok last)
      (hrest : parseOperators fuel minBindingPower (.ternary lhs thenExpr elseExpr last.span) p₄ =
        .ok (e, p')) :
      OperatorsCase fuel minBindingPower lhs p e p'
  | binary {p₁ next op p₂ rhs p₃ last e p'}
      (hquestion : p.matchKind .question = .ok (false, p₁)) (hnext : p₁.peek = .ok next)
      (hpower : minBindingPower ≤ leftBindingPower next.kind) (hop : p₁.advance = .ok (op, p₂))
      (hrhs : parseExpression fuel (rightBindingPower next.kind) p₂ = .ok (rhs, p₃))
      (hlast : p₃.peek (-1) = .ok last)
      (hrest : parseOperators fuel minBindingPower (.binary next.kind lhs rhs last.span) p₃ =
        .ok (e, p')) :
      OperatorsCase fuel minBindingPower lhs p e p'

theorem parseOperators_cases {minBindingPower : Int} {lhs : ExpressionTree D}
    (h : parseOperators (fuel + 1) minBindingPower lhs p = .ok (e, p')) :
    OperatorsCase fuel minBindingPower lhs p e p' := by
  rw [parseOperators, bind_eq_ok] at h
  obtain ⟨⟨question, p₁⟩, hquestion, h⟩ := h
  cases question with
  | true =>
      obtain ⟨⟨thenExpr, p₂⟩, hthen, h⟩ := bind_eq_ok.mp h
      obtain ⟨⟨colon, p₃⟩, hcolon, h⟩ := bind_eq_ok.mp h
      cases colon with
      | false => exact absurd h peek_invalid_ne_ok
      | true =>
          obtain ⟨⟨elseExpr, p₄⟩, helse, h⟩ := bind_eq_ok.mp h
          obtain ⟨last, hlast, h⟩ := bind_eq_ok.mp h
          exact .ternary hquestion hthen hcolon helse hlast h
  | false =>
      obtain ⟨next, hnext, h⟩ := bind_eq_ok.mp h
      by_cases hpower : leftBindingPower next.kind < minBindingPower
      · simp only [hpower, if_true] at h
        cases h
        exact .done hquestion hnext hpower
      · simp only [hpower, if_false] at h
        obtain ⟨⟨op, p₂⟩, hop, h⟩ := bind_eq_ok.mp h
        obtain ⟨⟨rhs, p₃⟩, hrhs, h⟩ := bind_eq_ok.mp h
        obtain ⟨last, hlast, h⟩ := bind_eq_ok.mp h
        exact .binary hquestion hnext (Int.not_lt.mp hpower) hop hrhs hlast h

theorem OperatorsCase.parseOperators {minBindingPower : Int} {lhs : ExpressionTree D}
    (h : OperatorsCase fuel minBindingPower lhs p e p') :
    parseOperators (fuel + 1) minBindingPower lhs p = .ok (e, p') := by
  rw [Parser.parseOperators]
  cases h with
  | done hquestion hnext hpower => simp [hquestion, hnext, hpower]
  | ternary hquestion hthen hcolon helse hlast hrest =>
      simp [hquestion, hthen, hcolon, helse, hlast, hrest]
  | binary hquestion hnext hpower hop hrhs hlast hrest =>
      simp [hquestion, hnext, Int.not_lt.mpr hpower, hop, hrhs, hlast, hrest]

end StatForge.Dsl.Parser
