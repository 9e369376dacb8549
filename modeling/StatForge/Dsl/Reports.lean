import StatForge.Dsl.Positions
import StatForge.Dsl.Rejection

/-!
# Where a formula is rejected

The tokenizer, the parser and the folder report an error with a span.  The parser and the folder take
it from a token or from a node of the tree, and the nodes take theirs from the tokens; so every span
of a rejected formula is a place in its source.

* `Derives.spansIn` — the nodes of a tree have the spans of its tokens.
* `blames_of_parse` — so have the errors of the parser and the folder.
* `positions_are_places_in_the_formula` — the whole way from the source to the error.
-/

namespace StatForge.Dsl

open ExceptBind

variable {D : Type}

namespace ExpressionTree

mutual
/-- The spans of all nodes. -/
def spans : ExpressionTree D → List Span
  | .literal _ span => [span]
  | .ref _ span => [span]
  | .unary _ rhs span => span :: rhs.spans
  | .binary _ lhs rhs span => span :: (lhs.spans ++ rhs.spans)
  | .ternary cond thenExpr elseExpr span =>
      span :: (cond.spans ++ thenExpr.spans ++ elseExpr.spans)
  | .call _ args span => span :: spansArgs args

def spansArgs : List (ExpressionTree D) → List Span
  | [] => []
  | arg :: args => arg.spans ++ spansArgs args
end

/-- Every node has its span from here. -/
def SpansIn (property : Span → Prop) (e : ExpressionTree D) : Prop :=
  ∀ span ∈ e.spans, property span

theorem mem_spansArgs {span : Span} {args : List (ExpressionTree D)} :
    span ∈ spansArgs args ↔ ∃ arg ∈ args, span ∈ arg.spans := by
  induction args with
  | nil => simp [spansArgs]
  | cons arg args ih => simp [spansArgs, ih]

end ExpressionTree

open ExpressionTree

/-! ### The parser -/

theorem property_lastSpan {property : Span → Prop} {word : List (Token D)} (hword : word ≠ [])
    (h : ∀ token ∈ word, property token.span) : property (lastSpan word) := by
  rw [lastSpan, List.getLast?_eq_some_getLast hword]
  exact h _ (List.getLast_mem hword)

/-- The nodes that a phrase builds have the spans of its tokens. -/
def Phrase.SpansIn (property : Span → Prop) : Phrase D → Prop
  | .primary _ word e => (∀ token ∈ word, property token.span) → e.SpansIn property
  | .arguments _ word args => (∀ token ∈ word, property token.span) →
      ∀ span ∈ spansArgs args, property span
  | .expression _ _ word e => (∀ token ∈ word, property token.span) → e.SpansIn property
  | .operators _ _ lhs word e => (∀ token ∈ word, property token.span) → lhs.SpansIn property →
      e.SpansIn property

/-- **The parser** takes every span from a token.  By induction on the derivation. -/
theorem Derives.spansIn {phrase : Phrase D} (h : Derives phrase) (property : Span → Prop) :
    phrase.SpansIn property := by
  induction h with
  | number token _ => exact fun hword => by simpa [ExpressionTree.SpansIn, spans] using hword
  | nodeRef token _ => exact fun hword => by simpa [ExpressionTree.SpansIn, spans] using hword
  | callEmpty name opening closing _ _ _ =>
      intro hword
      simpa [ExpressionTree.SpansIn, spans, spansArgs] using hword name List.mem_cons_self
  | call name opening closing _ _ _ _ ih =>
      intro hword
      simp only [List.forall_mem_cons, List.forall_mem_append] at hword
      exact List.forall_mem_cons.mpr ⟨hword.1, ih hword.2.2.1⟩
  | unary op _ _ ih =>
      intro hword
      obtain ⟨hop, hrhs⟩ := List.forall_mem_cons.mp hword
      exact List.forall_mem_cons.mpr ⟨hop, ih hrhs⟩
  | paren opening closing _ _ _ ih =>
      intro hword
      simp only [List.forall_mem_cons, List.forall_mem_append] at hword
      exact ih hword.2.1
  | lastArgument _ _ ih =>
      intro hword
      rw [spansArgs, spansArgs, List.append_nil]
      exact ih hword
  | moreArguments comma _ _ _ ih ih' =>
      intro hword
      simp only [List.forall_mem_cons, List.forall_mem_append] at hword
      exact List.forall_mem_append.mpr ⟨ih hword.1, ih' hword.2.2⟩
  | expression _ _ ih ih' =>
      intro hword
      obtain ⟨hprimary, hoperators⟩ := List.forall_mem_append.mp hword
      exact ih' hoperators (ih hprimary)
  | done _ _ => exact fun _ hlhs => hlhs
  | ternary question colon _ _ _ helse _ ih ih' ih'' =>
      intro hword hlhs
      simp only [List.forall_mem_cons, List.forall_mem_append] at hword
      obtain ⟨-, hthen, -, helseWord, hrest⟩ := hword
      refine ih'' hrest (List.forall_mem_cons.mpr ⟨?_, ?_⟩)
      · exact property_lastSpan (helse.word_ne_nil rfl) helseWord
      · simp only [List.forall_mem_append]
        exact ⟨⟨hlhs, ih hthen⟩, ih' helseWord⟩
  | binary op _ _ hrhs _ ih ih' =>
      intro hword hlhs
      simp only [List.forall_mem_cons, List.forall_mem_append] at hword
      obtain ⟨-, hrhsWord, hrest⟩ := hword
      refine ih' hrest (List.forall_mem_cons.mpr ⟨?_, ?_⟩)
      · exact property_lastSpan (hrhs.word_ne_nil rfl) hrhsWord
      · exact List.forall_mem_append.mpr ⟨hlhs, ih hrhsWord⟩

namespace Parser

variable {tokens : List (Token D)} {property : Span → Prop}

/-! ### The folder -/

variable [Double D]

theorem blames_of_foldArguments {args : List (ExpressionTree D)} {info : ErrorInfo}
    (ih : ∀ arg ∈ args, SpansIn property arg → foldConstants arg = .error info →
      Blames property info)
    (hspans : ∀ arg ∈ args, SpansIn property arg) (h : foldArguments args = .error info) :
    Blames property info := by
  induction args with
  | nil => cases h
  | cons arg args ihArgs =>
      obtain ⟨ihArg, ihRest⟩ := List.forall_mem_cons.mp ih
      obtain ⟨harg, hrest⟩ := List.forall_mem_cons.mp hspans
      rw [foldArguments] at h
      rcases bind_eq_error.mp h with h | ⟨arg', -, h⟩
      · exact ihArg harg h
      rcases bind_eq_error.mp h with h | ⟨args', -, h⟩
      · exact ihArgs ihRest hrest h
      · cases h

/-- An error of the folder blames the division that it has found. -/
theorem blames_of_foldConstants {e : ExpressionTree D} {info : ErrorInfo} (hspans : SpansIn property e)
    (h : foldConstants e = .error info) : Blames property info := by
  induction e with
  | literal value span => cases h
  | ref name span => cases h
  | unary op rhs span ih =>
      simp only [SpansIn, spans, List.forall_mem_cons] at hspans
      rw [foldConstants] at h
      rcases bind_eq_error.mp h with h | ⟨rhs', -, h⟩
      · exact ih hspans.2 h
      · split at h <;> cases h
  | binary op lhs rhs span ihl ihr =>
      simp only [SpansIn, spans, List.forall_mem_cons, List.forall_mem_append] at hspans
      obtain ⟨hspan, hl, hr⟩ := hspans
      rw [foldConstants] at h
      rcases bind_eq_error.mp h with h | ⟨lhs', -, h⟩
      · exact ihl hl h
      rcases bind_eq_error.mp h with h | ⟨rhs', -, h⟩
      · exact ihr hr h
      split at h
      · split at h
        · cases h
          exact ⟨rfl, span, rfl, hspan⟩
        · split at h <;> cases h
      · cases h
  | ternary cond thenExpr elseExpr span ihc iht ihe =>
      simp only [SpansIn, spans, List.forall_mem_cons, List.forall_mem_append] at hspans
      obtain ⟨-, ⟨hc, ht⟩, he⟩ := hspans
      rw [foldConstants] at h
      rcases bind_eq_error.mp h with h | ⟨cond', -, h⟩
      · exact ihc hc h
      rcases bind_eq_error.mp h with h | ⟨then', -, h⟩
      · exact iht ht h
      rcases bind_eq_error.mp h with h | ⟨else', -, h⟩
      · exact ihe he h
      split at h
      · split at h <;> cases h
      · cases h
  | call name args span ih =>
      simp only [SpansIn, spans, List.forall_mem_cons, mem_spansArgs] at hspans
      rw [foldConstants] at h
      rcases bind_eq_error.mp h with h | ⟨args', -, h⟩
      · have hargs : ∀ arg ∈ args, SpansIn property arg :=
          fun arg harg span hspan => hspans.2 span ⟨arg, harg, hspan⟩
        exact blames_of_foldArguments ih hargs h
      · cases h

/-- The nodes of a parsed tree have the spans of its tokens. -/
theorem spansIn_of_parse {e : ExpressionTree D} (hterm : Terminated tokens)
    (hspans : ∀ token ∈ tokens, property token.span) (h : parse tokens false = .ok e) :
    SpansIn property e := by
  obtain ⟨p, p', hparse, -⟩ := parse_unfolded_eq_ok.mp h
  have hterm' : Terminated (⟨tokens, 0⟩ : Parser D).rest := hterm
  obtain ⟨word, hword, hderives⟩ :=
    (soundAt _).expression 0 _ _ _ (Int.le_refl 0) hterm' hparse
  have hlist : tokens = word ++ p.rest := hword.rest
  exact hderives.spansIn property fun token htoken =>
    hspans token (hlist ▸ List.mem_append_left _ htoken)

/-- An error of a parse blames the span of a token, or of a node. -/
theorem blames_of_parse {fold : Bool} {info : ErrorInfo} (hterm : Terminated tokens)
    (hspans : ∀ token ∈ tokens, property token.span) (h : parse tokens fold = .error (.error info)) :
    Blames property info := by
  rcases parse_error_cases h with h | ⟨e, he, hfold⟩
  · obtain ⟨word, token, behind, tail, message, rfl, -, rfl⟩ := (parse_eq_error_iff hterm).mp h
    exact ⟨rfl, token.span, rfl, hspans token (by simp)⟩
  · exact blames_of_foldConstants (spansIn_of_parse hterm hspans he) hfold

end Parser

/-- **Positions are places in the formula.**  The tokens of a source are laid out in it, in order and
with nothing but blanks in between, and the span of a token is the line and the column behind its text,
of a reference the position in front.  Whether the tokenizer, the parser or the folder rejects a
source, the error is `SF_ERR_INVALID_DSL` with a span, which is the line and the column behind some
part of the source that starts at its beginning. -/
theorem positions_are_places_in_the_formula (D : Type) [Double D] (source : StdString) :
    (∀ info, (tokenize source : Result (List (Token D))) = .error info →
      Blames (PointsInto source) info) ∧
    ∀ tokens : List (Token D), tokenize source = .ok tokens → Laid [] source tokens ∧
      ∀ fold info, Parser.parse tokens fold = .error (.error info) →
        Blames (PointsInto source) info := by
  refine ⟨fun _ => blames_of_tokenize, fun tokens htokenize => ?_⟩
  have hlaid := laid_of_tokenize htokenize
  obtain ⟨tail, lexemes, front, span, -, -, hfront, -⟩ := lexed_of_tokenize htokenize
  have hterm : Parser.Terminated tokens := ⟨front, _, hfront, rfl⟩
  exact ⟨hlaid, fun fold info hparse => Parser.blames_of_parse hterm hlaid.pointsInto hparse⟩

end StatForge.Dsl
