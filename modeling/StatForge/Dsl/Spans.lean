import StatForge.Dsl.References
import StatForge.Lib.ExceptBind

/-!
# Spans are only carried along

No function of the parser or the folder looks at a span: moving the tokens to other positions moves the
nodes of the tree, and the span of an error, in the same way and changes nothing else.

* `mapSpan` — tokens, trees and errors with other spans.
* `relocate` — the outcome of a parse with other spans.
* `RelocatesWith` — the four functions of the parser, by induction on the fuel.
* `parse_mapSpan`, `evaluate_mapSpan`, `extractDependencies_mapSpan` — the parse as a whole, and what
  the spans of its tree do to its value and its references.
-/

namespace StatForge

/-- The error at another position. -/
def ErrorInfo.mapSpan (f : Span → Span) (info : ErrorInfo) : ErrorInfo :=
  { info with span := info.span.map f }

namespace Dsl

open ExceptBind

variable {D : Type} {f : Span → Span}

/-- The token at another position. -/
def Token.mapSpan (f : Span → Span) (token : Token D) : Token D := { token with span := f token.span }

namespace ExpressionTree

mutual
/-- The tree with other spans. -/
def mapSpan (f : Span → Span) : ExpressionTree D → ExpressionTree D
  | .literal value span => .literal value (f span)
  | .ref name span => .ref name (f span)
  | .unary op rhs span => .unary op (rhs.mapSpan f) (f span)
  | .binary op lhs rhs span => .binary op (lhs.mapSpan f) (rhs.mapSpan f) (f span)
  | .ternary cond thenExpr elseExpr span =>
      .ternary (cond.mapSpan f) (thenExpr.mapSpan f) (elseExpr.mapSpan f) (f span)
  | .call name args span => .call name (mapSpanArgs f args) (f span)

def mapSpanArgs (f : Span → Span) : List (ExpressionTree D) → List (ExpressionTree D)
  | [] => []
  | arg :: args => arg.mapSpan f :: mapSpanArgs f args
end

theorem mapSpanArgs_eq_map (args : List (ExpressionTree D)) :
    mapSpanArgs f args = args.map (mapSpan f) := by
  induction args with
  | nil => rfl
  | cons arg args ih => rw [mapSpanArgs, ih, List.map_cons]

theorem refs_mapSpan (e : ExpressionTree D) : (e.mapSpan f).refs = e.refs := by
  induction e with
  | literal value span => rfl
  | ref name span => rfl
  | unary op rhs span ih => simp only [mapSpan, refs, ih]
  | binary op lhs rhs span ihl ihr => simp only [mapSpan, refs, ihl, ihr]
  | ternary cond thenExpr elseExpr span ihc iht ihe => simp only [mapSpan, refs, ihc, iht, ihe]
  | call name args span ih =>
      simp only [mapSpan, refs]
      induction args with
      | nil => rfl
      | cons arg args ihArgs =>
          obtain ⟨harg, hargs⟩ := List.forall_mem_cons.mp ih
          simp only [mapSpanArgs, refsArgs, harg, ihArgs hargs]

end ExpressionTree

open ExpressionTree

namespace Parser

/-! ### Outcomes -/

def Stop.mapSpan (f : Span → Span) : Stop → Stop
  | .error info => .error (info.mapSpan f)
  | .abort reason => .abort reason

/-- An outcome with other spans: of its value by `g`, of its failure by `m`. -/
def relocate {ε α β : Type} (m : ε → ε) (g : α → β) : Except ε α → Except ε β
  | .ok a => .ok (g a)
  | .error failure => .error (m failure)

theorem relocate_bind {ε α β γ δ : Type} {m : ε → ε} {g : α → β} {h : γ → δ} {x : Except ε α}
    {y : Except ε β} {next : α → Except ε γ} {next' : β → Except ε δ}
    (hx : y = relocate m g x) (hnext : ∀ a, next' (g a) = relocate m h (next a)) :
    (y >>= next') = relocate m h (x >>= next) := by
  subst hx
  cases x with
  | ok a => exact hnext a
  | error failure => rfl

/-- The parser on the tokens at other positions. -/
def mapSpan (f : Span → Span) (p : Parser D) : Parser D :=
  { p with tokens := p.tokens.map (Token.mapSpan f) }

/-- A tree or a list of arguments, with the parser behind it. -/
abbrev mapResult {α : Type} (f : Span → Span) (g : α → α) (result : α × Parser D) : α × Parser D :=
  (g result.1, result.2.mapSpan f)

theorem peek_mapSpan (p : Parser D) (offset : Int) :
    (p.mapSpan f).peek offset = relocate (Stop.mapSpan f) (Token.mapSpan f) (p.peek offset) := by
  unfold peek
  simp only [mapSpan, List.length_map, List.getElem?_map]
  cases p.tokens[min (wrap (p.pos + offset)) (wrap (p.tokens.length - 1))]? <;> rfl

theorem advance_mapSpan (p : Parser D) :
    (p.mapSpan f).advance = relocate (Stop.mapSpan f) (mapResult f (Token.mapSpan f)) p.advance := by
  unfold advance
  simp only [mapSpan, List.getElem?_map]
  cases p.tokens[p.pos]? <;> rfl

theorem matchKind_mapSpan (p : Parser D) (kind : TokenKind) :
    (p.mapSpan f).matchKind kind = relocate (Stop.mapSpan f) (mapResult f id) (p.matchKind kind) := by
  refine relocate_bind (peek_mapSpan p 0) fun token => ?_
  show (if token.kind ≠ kind then _ else _) =
    relocate (Stop.mapSpan f) _ (if token.kind ≠ kind then _ else _)
  split <;> rfl

/-- An error at the next token. -/
theorem relocate_report {α β : Type} {g : α → β} (p : Parser D) (message : String) :
    ((p.mapSpan f).peek >>= fun here => (invalid message here.span : Except Stop β)) =
      relocate (Stop.mapSpan f) g
        (p.peek >>= fun here => (invalid message here.span : Except Stop α)) :=
  relocate_bind (peek_mapSpan p 0) fun _ => rfl

/-! ### The parser -/

/-- The four functions with this fuel. -/
structure RelocatesWith (D : Type) (f : Span → Span) (fuel : Nat) : Prop where
  primary : ∀ p : Parser D, parsePrimary fuel (p.mapSpan f) =
    relocate (Stop.mapSpan f) (mapResult f (ExpressionTree.mapSpan f)) (parsePrimary fuel p)
  arguments : ∀ p : Parser D, parseArguments fuel (p.mapSpan f) =
    relocate (Stop.mapSpan f) (mapResult f (mapSpanArgs f)) (parseArguments fuel p)
  expression : ∀ minBindingPower, ∀ p : Parser D,
    parseExpression fuel minBindingPower (p.mapSpan f) =
      relocate (Stop.mapSpan f) (mapResult f (ExpressionTree.mapSpan f))
        (parseExpression fuel minBindingPower p)
  operators : ∀ minBindingPower lhs, ∀ p : Parser D,
    parseOperators fuel minBindingPower (lhs.mapSpan f) (p.mapSpan f) =
      relocate (Stop.mapSpan f) (mapResult f (ExpressionTree.mapSpan f))
        (parseOperators fuel minBindingPower lhs p)

section Step

variable {fuel : Nat} (ih : RelocatesWith D f fuel) (p : Parser D)

include ih

theorem parsePrimary_mapSpan : parsePrimary (fuel + 1) (p.mapSpan f) =
    relocate (Stop.mapSpan f) (mapResult f (ExpressionTree.mapSpan f)) (parsePrimary (fuel + 1) p) := by
  rw [parsePrimary, parsePrimary]
  refine relocate_bind (advance_mapSpan p) fun (token, p₁) => ?_
  have hunary : (parseExpression fuel 11 (p₁.mapSpan f) >>= fun x =>
        .ok (ExpressionTree.unary token.kind x.1 (f token.span), x.2)) =
      relocate (Stop.mapSpan f) (mapResult f (ExpressionTree.mapSpan f))
        (parseExpression fuel 11 p₁ >>= fun x =>
          .ok (ExpressionTree.unary token.kind x.1 token.span, x.2)) :=
    relocate_bind (ih.expression 11 p₁) fun _ => rfl
  dsimp only [mapResult, Token.mapSpan]
  cases hkind : token.kind with
  | number => rfl
  | nodeRef => rfl
  | identifier =>
      refine relocate_bind (matchKind_mapSpan p₁ _) fun (opened, p₂) => ?_
      cases opened with
      | false => rfl
      | true =>
          refine relocate_bind (matchKind_mapSpan p₂ _) fun (empty, p₃) => ?_
          cases empty with
          | true => rfl
          | false =>
              refine relocate_bind (ih.arguments p₃) fun (args, p₄) => ?_
              refine relocate_bind (matchKind_mapSpan p₄ _) fun (closed, p₅) => ?_
              cases closed with
              | true => rfl
              | false => exact relocate_report p₅ _
  | plus =>
      rw [hkind] at hunary
      exact hunary
  | minus =>
      rw [hkind] at hunary
      exact hunary
  | bang =>
      rw [hkind] at hunary
      exact hunary
  | leftParen =>
      refine relocate_bind (ih.expression 0 p₁) fun (inner, p₂) => ?_
      refine relocate_bind (matchKind_mapSpan p₂ _) fun (closed, p₃) => ?_
      cases closed with
      | true => rfl
      | false => exact relocate_report p₃ _
  | _ => rfl

theorem parseArguments_mapSpan : parseArguments (fuel + 1) (p.mapSpan f) =
    relocate (Stop.mapSpan f) (mapResult f (mapSpanArgs f)) (parseArguments (fuel + 1) p) := by
  rw [parseArguments, parseArguments]
  refine relocate_bind (ih.expression 0 p) fun (arg, p₁) => ?_
  refine relocate_bind (matchKind_mapSpan p₁ _) fun (more, p₂) => ?_
  cases more with
  | false => rfl
  | true => exact relocate_bind (ih.arguments p₂) fun _ => rfl

theorem parseExpression_mapSpan (minBindingPower : Int) :
    parseExpression (fuel + 1) minBindingPower (p.mapSpan f) =
      relocate (Stop.mapSpan f) (mapResult f (ExpressionTree.mapSpan f))
        (parseExpression (fuel + 1) minBindingPower p) := by
  rw [parseExpression, parseExpression]
  exact relocate_bind (ih.primary p) fun (lhs, p₁) => ih.operators minBindingPower lhs p₁

theorem parseOperators_mapSpan (minBindingPower : Int) (lhs : ExpressionTree D) :
    parseOperators (fuel + 1) minBindingPower (lhs.mapSpan f) (p.mapSpan f) =
      relocate (Stop.mapSpan f) (mapResult f (ExpressionTree.mapSpan f))
        (parseOperators (fuel + 1) minBindingPower lhs p) := by
  rw [parseOperators, parseOperators]
  refine relocate_bind (matchKind_mapSpan p _) fun (question, p₁) => ?_
  cases question with
  | true =>
      refine relocate_bind (ih.expression 0 p₁) fun (thenExpr, p₂) => ?_
      refine relocate_bind (matchKind_mapSpan p₂ _) fun (colon, p₃) => ?_
      cases colon with
      | false => exact relocate_report p₃ _
      | true =>
          refine relocate_bind (ih.expression 0 p₃) fun (elseExpr, p₄) => ?_
          refine relocate_bind (peek_mapSpan p₄ (-1)) fun last => ?_
          exact ih.operators minBindingPower (.ternary lhs thenExpr elseExpr last.span) p₄
  | false =>
      refine relocate_bind (peek_mapSpan p₁ 0) fun next => ?_
      dsimp only [mapResult, Token.mapSpan]
      split
      · rfl
      · refine relocate_bind (advance_mapSpan p₁) fun (_, p₂) => ?_
        refine relocate_bind (ih.expression _ p₂) fun (rhs, p₃) => ?_
        refine relocate_bind (peek_mapSpan p₃ (-1)) fun last => ?_
        exact ih.operators minBindingPower (.binary next.kind lhs rhs last.span) p₃

end Step

/-- **The parser** carries spans along. -/
theorem relocatesWith (f : Span → Span) (fuel : Nat) : RelocatesWith D f fuel := by
  induction fuel with
  | zero => exact ⟨fun _ => rfl, fun _ => rfl, fun _ _ => rfl, fun _ _ _ => rfl⟩
  | succ fuel ih =>
      exact ⟨parsePrimary_mapSpan ih, parseArguments_mapSpan ih,
        fun minBindingPower p => parseExpression_mapSpan ih p minBindingPower,
        fun minBindingPower lhs p => parseOperators_mapSpan ih p minBindingPower lhs⟩

/-! ### The folder and the whole parse -/

variable [Double D]

/-- The folder carries spans along. -/
theorem foldConstants_mapSpan (e : ExpressionTree D) :
    foldConstants (e.mapSpan f) =
      relocate (ErrorInfo.mapSpan f) (ExpressionTree.mapSpan f) (foldConstants e) := by
  induction e with
  | literal value span => rfl
  | ref name span => rfl
  | unary op rhs span ih =>
      refine relocate_bind ih fun rhs' => ?_
      cases rhs' <;> rfl
  | binary op lhs rhs span ihl ihr =>
      refine relocate_bind ihl fun lhs' => relocate_bind ihr fun rhs' => ?_
      cases lhs' with
      | literal l spanl =>
          cases rhs' with
          | literal r spanr =>
              dsimp only [ExpressionTree.mapSpan]
              split
              · rfl
              · cases foldBinary op l r <;> rfl
          | _ => rfl
      | _ => cases rhs' <;> rfl
  | ternary cond thenExpr elseExpr span ihc iht ihe =>
      refine relocate_bind ihc fun cond' => relocate_bind iht fun then' =>
        relocate_bind ihe fun else' => ?_
      cases cond' with
      | literal value spanc =>
          dsimp only [ExpressionTree.mapSpan]
          split <;> rfl
      | _ => rfl
  | call name args span ih =>
      have hargs : foldArguments (mapSpanArgs f args) =
          relocate (ErrorInfo.mapSpan f) (mapSpanArgs f) (foldArguments args) := by
        induction args with
        | nil => rfl
        | cons arg args ihArgs =>
            obtain ⟨harg, hrest⟩ := List.forall_mem_cons.mp ih
            exact relocate_bind harg fun arg' => relocate_bind (ihArgs hrest) fun _ => rfl
      exact relocate_bind hargs fun _ => rfl

/-- **The parse** of the tokens at other positions. -/
theorem parse_mapSpan (f : Span → Span) (tokens : List (Token D)) (fold : Bool) :
    parse (tokens.map (Token.mapSpan f)) fold =
      relocate (Stop.mapSpan f) (ExpressionTree.mapSpan f) (parse tokens fold) := by
  rw [parse, parse, List.length_map]
  refine relocate_bind ((relocatesWith f _).expression 0 ⟨tokens, 0⟩) fun (ast, p) => ?_
  refine relocate_bind (matchKind_mapSpan p _) fun (atEnd, p₁) => ?_
  cases atEnd with
  | false => exact relocate_report p₁ _
  | true =>
      cases fold with
      | false => rfl
      | true =>
          dsimp only [mapResult]
          rw [foldConstants_mapSpan]
          cases foldConstants ast <;> rfl

end Parser

/-! ### Values and references -/

variable [Double D]

theorem evaluate_mapSpan (context : Context D) (e : ExpressionTree D) :
    evaluate context (e.mapSpan f) = evaluate context e := by
  induction e with
  | literal value span => rfl
  | ref name span => rfl
  | unary op rhs span ih => simp only [ExpressionTree.mapSpan, evaluate, ih]
  | binary op lhs rhs span ihl ihr => simp only [ExpressionTree.mapSpan, evaluate, ihl, ihr]
  | ternary cond thenExpr elseExpr span ihc iht ihe =>
      simp only [ExpressionTree.mapSpan, evaluate, ihc, iht, ihe]
  | call name args span ih =>
      obtain _ | ⟨arg0, _ | ⟨arg1, _ | ⟨arg2, rest⟩⟩⟩ := args
      · rfl
      · rfl
      · simp only [ExpressionTree.mapSpan, mapSpanArgs, evaluate, ih arg0 (by simp),
          ih arg1 (by simp)]
      · rfl

omit [Double D] in
/-- Trees with the same references have the same dependencies. -/
theorem extractDependencies_congr {e e' : ExpressionTree D} (h : e.refs = e'.refs) :
    extractDependencies e = extractDependencies e' := by
  apply (pairwise_extractDependencies e).eq_of_mem_iff (pairwise_extractDependencies e')
  intro name
  rw [mem_extractDependencies, mem_extractDependencies, h]

end Dsl

end StatForge
