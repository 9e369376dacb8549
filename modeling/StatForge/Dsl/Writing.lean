import StatForge.Dsl.Grammar
import StatForge.Dsl.Layout

/-!
# Which trees have a formula

Every tree whose leaves and names can be written is the tree of some formula, with parentheses around
every operator; and the trees of formulas are such trees.

* `ExpressionTree.Writable` — the trees that can be written.
* `Written` — the lexemes of a tree, from which the parser builds the tree again.
* `exists_written`, `Derives.buildsWritable` — the two directions on words of tokens.
* `formulas_reach_the_writable_trees` — the same for sources.
-/

namespace StatForge.Dsl

variable {D : Type} [Double D]

namespace ExpressionTree

mutual
/-- Literals have a numeral, names are names of the language, and operators are at places where the
parser knows them. -/
def Writable : ExpressionTree D → Prop
  | .literal value _ => ∃ lexeme : Lexeme, lexeme.kind = .number ∧ lexeme.number = value
  | .ref name _ => ∃ word : ReferenceName, name = word.first :: word.more
  | .unary op rhs _ => (op = .plus ∨ op = .minus ∨ op = .bang) ∧ rhs.Writable
  | .binary op lhs rhs _ => isInfix op = true ∧ lhs.Writable ∧ rhs.Writable
  | .ternary cond thenExpr elseExpr _ => cond.Writable ∧ thenExpr.Writable ∧ elseExpr.Writable
  | .call name args _ => (∃ word : Identifier, name = word.first :: word.more) ∧ WritableArgs args

def WritableArgs : List (ExpressionTree D) → Prop
  | [] => True
  | arg :: args => arg.Writable ∧ WritableArgs args
end

theorem writableArgs_iff {args : List (ExpressionTree D)} :
    WritableArgs args ↔ ∀ arg ∈ args, arg.Writable := by
  induction args with
  | nil => simp [WritableArgs]
  | cons arg args ih => simp [WritableArgs, ih]

/-- Positions do not matter. -/
theorem writable_mapSpan {f : Span → Span} (e : ExpressionTree D) :
    (e.mapSpan f).Writable ↔ e.Writable := by
  induction e with
  | literal value span => rfl
  | ref name span => rfl
  | unary op rhs span ih => simp only [mapSpan, Writable, ih]
  | binary op lhs rhs span ihl ihr => simp only [mapSpan, Writable, ihl, ihr]
  | ternary cond thenExpr elseExpr span ihc iht ihe =>
      simp only [mapSpan, Writable, ihc, iht, ihe]
  | call name args span ih =>
      simp only [mapSpan, Writable, writableArgs_iff, mapSpanArgs_eq_map, List.forall_mem_map]
      exact and_congr_right fun _ => forall₂_congr ih

end ExpressionTree

open ExpressionTree StatForge.Dsl.Parser

/-! ### From a tree to its tokens -/

theorem TokensOf.exists_append {xs ys : List Lexeme} {tokens : List (Token D)}
    (h : TokensOf (xs ++ ys) tokens) :
    ∃ ts us, tokens = ts ++ us ∧ TokensOf xs ts ∧ TokensOf ys us := by
  induction xs generalizing tokens with
  | nil => exact ⟨[], tokens, rfl, .nil, h⟩
  | cons x xs ih =>
      cases h with
      | cons hfirst hrest =>
          obtain ⟨ts, us, rfl, hts, hus⟩ := ih hrest
          exact ⟨_ :: ts, us, rfl, .cons hfirst hts, hus⟩

theorem TokensOf.exists_cons {x : Lexeme} {xs : List Lexeme} {tokens : List (Token D)}
    (h : TokensOf (x :: xs) tokens) :
    ∃ span ts, tokens = x.token span :: ts ∧ TokensOf xs ts := by
  cases h with
  | cons hfirst hrest =>
      obtain ⟨span, rfl⟩ := hfirst
      exact ⟨span, _, rfl, hrest⟩

theorem TokensOf.exists_singleton {x : Lexeme} {tokens : List (Token D)} (h : TokensOf [x] tokens) :
    ∃ span, tokens = [x.token span] := by
  obtain ⟨span, ts, rfl, hts⟩ := h.exists_cons
  cases hts
  exact ⟨span, rfl⟩

omit [Double D] in
/-- A primary is a whole expression in front of a token that ends one. -/
theorem Derives.closed {word : List (Token D)} {e : ExpressionTree D} {follow : TokenKind}
    {minBindingPower : Int} (h : Derives (.primary follow word e)) (hfollow : Closes follow)
    (hpower : 0 ≤ minBindingPower) : Derives (.expression minBindingPower follow word e) := by
  have hdone : Derives (.operators minBindingPower follow e [] e) :=
    .done hfollow.1 (lt_of_lt_of_le hfollow.2 hpower)
  have hword : Derives (.expression minBindingPower follow (word ++ []) e) := .expression h hdone
  rwa [List.append_nil] at hword

/-- The lexemes of a tree, however they are laid out: a closed word. -/
def Written (lexemes : List Lexeme) (e : ExpressionTree D) : Prop :=
  ∀ tokens : List (Token D), TokensOf lexemes tokens →
    ∃ e', e'.mapSpan forget = e.mapSpan forget ∧ ∀ follow, Derives (.primary follow tokens e')

/-- The lexemes of the arguments of a call. -/
def WrittenArgs (lexemes : List Lexeme) (args : List (ExpressionTree D)) : Prop :=
  ∀ tokens : List (Token D), TokensOf lexemes tokens →
    ∃ args', mapSpanArgs forget args' = mapSpanArgs forget args ∧
      Derives (.arguments .rightParen tokens args')

def leftParenLexeme : Lexeme := .symbol .leftParen ['('] (by decide)

def rightParenLexeme : Lexeme := .symbol .rightParen [')'] (by decide)

def commaLexeme : Lexeme := .symbol .comma [','] (by decide)

def questionLexeme : Lexeme := .symbol .question ['?'] (by decide)

def colonLexeme : Lexeme := .symbol .colon [':'] (by decide)

/-- Every infix and every prefix operator has a spelling. -/
theorem exists_spelling {op : TokenKind}
    (h : isInfix op = true ∨ op = .plus ∨ op = .minus ∨ op = .bang) :
    ∃ spelling, (op, spelling) ∈ symbols := by
  cases op <;> simp [isInfix] at h <;> simp [symbols]

/-- Parentheses around an expression. -/
theorem derives_parenthesised {tokens : List (Token D)} {lexemes : List Lexeme}
    (h : TokensOf (leftParenLexeme :: (lexemes ++ [rightParenLexeme])) tokens) :
    ∃ word, TokensOf lexemes word ∧ ∀ e, Derives (.expression 0 .rightParen word e) →
      ∀ follow, Derives (.primary follow tokens e) := by
  obtain ⟨opening, rest, rfl, hrest⟩ := h.exists_cons
  obtain ⟨word, closing, rfl, hword, hclosing⟩ := hrest.exists_append
  obtain ⟨closing, rfl⟩ := hclosing.exists_singleton
  exact ⟨word, hword, fun e he follow => .paren _ _ rfl rfl he⟩

theorem written_unary {op : TokenKind} {rhs : ExpressionTree D} {span : Span} {lexemes : List Lexeme}
    (hop : op = .plus ∨ op = .minus ∨ op = .bang) (hrhs : Written lexemes rhs) :
    ∃ lexemes', Written lexemes' (.unary op rhs span) := by
  obtain ⟨spelling, hspelling⟩ := exists_spelling (Or.inr hop)
  refine ⟨leftParenLexeme :: ((.symbol op spelling hspelling :: lexemes) ++ [rightParenLexeme]), ?_⟩
  intro tokens htokens
  obtain ⟨word, hword, hparen⟩ := derives_parenthesised htokens
  obtain ⟨opSpan, rhsWord, rfl, hrhsWord⟩ := hword.exists_cons
  obtain ⟨rhs', hsame, hderives⟩ := hrhs rhsWord hrhsWord
  refine ⟨.unary op rhs' opSpan, ?_, hparen _ ?_⟩
  · simp only [ExpressionTree.mapSpan, hsame]
    rfl
  · have hrhs' := (hderives .rightParen).closed closes_rightParen (show (0 : Int) ≤ 11 by decide)
    exact (Derives.unary _ hop hrhs').closed closes_rightParen (le_refl 0)

theorem written_binary {op : TokenKind} {lhs rhs : ExpressionTree D} {span : Span}
    {lexemes lexemes' : List Lexeme} (hop : isInfix op = true) (hlhs : Written lexemes lhs)
    (hrhs : Written lexemes' rhs) : ∃ lexemes'', Written lexemes'' (.binary op lhs rhs span) := by
  obtain ⟨spelling, hspelling⟩ := exists_spelling (Or.inl hop)
  refine ⟨leftParenLexeme ::
    ((lexemes ++ .symbol op spelling hspelling :: lexemes') ++ [rightParenLexeme]), ?_⟩
  intro tokens htokens
  obtain ⟨word, hword, hparen⟩ := derives_parenthesised htokens
  obtain ⟨lhsWord, rest, rfl, hlhsWord, hrest⟩ := hword.exists_append
  obtain ⟨opSpan, rhsWord, rfl, hrhsWord⟩ := hrest.exists_cons
  obtain ⟨lhs', hsamel, hderivesl⟩ := hlhs lhsWord hlhsWord
  obtain ⟨rhs', hsamer, hderivesr⟩ := hrhs rhsWord hrhsWord
  refine ⟨.binary op lhs' rhs' (lastSpan rhsWord), ?_, hparen _ ?_⟩
  · simp only [ExpressionTree.mapSpan, hsamel, hsamer]
    rfl
  · have hpower := isInfix_iff.mp hop
    have hrhs' := (hderivesr .rightParen).closed closes_rightParen (rightBindingPower_nonneg hpower)
    have hloop : Derives (.operators 0 .rightParen lhs'
        ((Lexeme.symbol op spelling hspelling).token opSpan :: (rhsWord ++ []))
        (.binary op lhs' rhs' (lastSpan rhsWord))) :=
      .binary _ hpower hpower hrhs' (.done closes_rightParen.1 closes_rightParen.2)
    rw [List.append_nil] at hloop
    exact .expression (hderivesl _) hloop

theorem written_ternary {cond thenExpr elseExpr : ExpressionTree D} {span : Span}
    {lexemes lexemes' lexemes'' : List Lexeme} (hcond : Written lexemes cond)
    (hthen : Written lexemes' thenExpr) (helse : Written lexemes'' elseExpr) :
    ∃ all, Written all (.ternary cond thenExpr elseExpr span) := by
  refine ⟨leftParenLexeme :: ((lexemes ++ questionLexeme ::
    (lexemes' ++ colonLexeme :: lexemes'')) ++ [rightParenLexeme]), ?_⟩
  intro tokens htokens
  obtain ⟨word, hword, hparen⟩ := derives_parenthesised htokens
  obtain ⟨condWord, rest, rfl, hcondWord, hrest⟩ := hword.exists_append
  obtain ⟨questionSpan, rest', rfl, hrest'⟩ := hrest.exists_cons
  obtain ⟨thenWord, rest, rfl, hthenWord, hrest⟩ := hrest'.exists_append
  obtain ⟨colonSpan, elseWord, rfl, helseWord⟩ := hrest.exists_cons
  obtain ⟨cond', hsamec, hderivesc⟩ := hcond condWord hcondWord
  obtain ⟨then', hsamet, hderivest⟩ := hthen thenWord hthenWord
  obtain ⟨else', hsamee, hderivese⟩ := helse elseWord helseWord
  refine ⟨.ternary cond' then' else' (lastSpan elseWord), ?_, hparen _ ?_⟩
  · simp only [ExpressionTree.mapSpan, hsamec, hsamet, hsamee]
    rfl
  · have hthen' := (hderivest .colon).closed closes_colon (le_refl 0)
    have helse' := (hderivese .rightParen).closed closes_rightParen (le_refl 0)
    have hloop : Derives (.operators 0 .rightParen cond' (questionLexeme.token questionSpan ::
        (thenWord ++ colonLexeme.token colonSpan :: (elseWord ++ [])))
        (.ternary cond' then' else' (lastSpan elseWord))) :=
      .ternary _ _ rfl rfl hthen' helse' (.done closes_rightParen.1 closes_rightParen.2)
    rw [List.append_nil] at hloop
    exact .expression (hderivesc _) hloop

/-- The arguments of a call, of which there is one at least. -/
theorem writtenArgs {arg : ExpressionTree D} {args : List (ExpressionTree D)}
    (h : ∀ e ∈ arg :: args, ∃ lexemes, Written lexemes e) :
    ∃ lexemes, WrittenArgs lexemes (arg :: args) := by
  induction args generalizing arg with
  | nil =>
      obtain ⟨lexemes, harg⟩ := h arg List.mem_cons_self
      refine ⟨lexemes, fun tokens htokens => ?_⟩
      obtain ⟨arg', hsame, hderives⟩ := harg tokens htokens
      refine ⟨[arg'], by simp only [mapSpanArgs, hsame], .lastArgument (by simp) ?_⟩
      exact (hderives _).closed closes_rightParen (le_refl 0)
  | cons next args ih =>
      obtain ⟨lexemes, harg⟩ := h arg List.mem_cons_self
      obtain ⟨lexemes', hargs⟩ := ih fun e he => h e (List.mem_cons_of_mem _ he)
      refine ⟨lexemes ++ commaLexeme :: lexemes', fun tokens htokens => ?_⟩
      obtain ⟨word, rest, rfl, hword, hrest⟩ := htokens.exists_append
      obtain ⟨commaSpan, word', rfl, hword'⟩ := hrest.exists_cons
      obtain ⟨arg', hsame, hderives⟩ := harg word hword
      obtain ⟨args', hsame', hderives'⟩ := hargs word' hword'
      refine ⟨arg' :: args', by rw [mapSpanArgs, mapSpanArgs, hsame, hsame'], ?_⟩
      exact .moreArguments _ rfl ((hderives _).closed closes_comma (le_refl 0)) hderives'

/-- A call with these arguments. -/
theorem written_call {name : StdString} {args : List (ExpressionTree D)} {span : Span}
    (hname : ∃ word : Identifier, name = word.first :: word.more)
    (hargs : ∀ e ∈ args, ∃ lexemes, Written lexemes e) :
    ∃ lexemes, Written lexemes (.call name args span) := by
  obtain ⟨word, rfl⟩ := hname
  cases args with
  | nil =>
      refine ⟨[.identifier word, leftParenLexeme, rightParenLexeme], fun tokens htokens => ?_⟩
      obtain ⟨nameSpan, rest, rfl, hrest⟩ := htokens.exists_cons
      obtain ⟨openingSpan, rest', rfl, hrest'⟩ := hrest.exists_cons
      obtain ⟨closingSpan, rfl⟩ := hrest'.exists_singleton
      exact ⟨.call _ [] nameSpan, rfl, fun follow => .callEmpty _ _ _ rfl rfl rfl⟩
  | cons arg args =>
      obtain ⟨lexemes, hwritten⟩ := writtenArgs hargs
      refine ⟨.identifier word :: leftParenLexeme :: (lexemes ++ [rightParenLexeme]), ?_⟩
      intro tokens htokens
      obtain ⟨nameSpan, rest, rfl, hrest⟩ := htokens.exists_cons
      obtain ⟨openingSpan, rest', rfl, hrest'⟩ := hrest.exists_cons
      obtain ⟨argsWord, closing, rfl, hargsWord, hclosing⟩ := hrest'.exists_append
      obtain ⟨closingSpan, rfl⟩ := hclosing.exists_singleton
      obtain ⟨args', hsame, hderives⟩ := hwritten argsWord hargsWord
      refine ⟨.call _ args' nameSpan, ?_, fun follow => .call _ _ _ rfl rfl rfl hderives⟩
      simp only [ExpressionTree.mapSpan, hsame]
      rfl

/-- **Every writable tree is written.**  By induction on the tree. -/
theorem exists_written (e : ExpressionTree D) (h : e.Writable) : ∃ lexemes, Written lexemes e := by
  induction e with
  | literal value span =>
      obtain ⟨lexeme, hkind, rfl⟩ := h
      refine ⟨[lexeme], fun tokens htokens => ?_⟩
      obtain ⟨tokenSpan, rfl⟩ := htokens.exists_singleton
      exact ⟨.literal lexeme.number tokenSpan, rfl, fun follow => .number _ hkind⟩
  | ref name span =>
      obtain ⟨word, rfl⟩ := h
      refine ⟨[.reference word], fun tokens htokens => ?_⟩
      obtain ⟨tokenSpan, rfl⟩ := htokens.exists_singleton
      exact ⟨.ref _ tokenSpan, rfl, fun follow => .nodeRef _ rfl⟩
  | unary op rhs span ih =>
      obtain ⟨lexemes, hrhs⟩ := ih h.2
      exact written_unary h.1 hrhs
  | binary op lhs rhs span ihl ihr =>
      obtain ⟨lexemes, hlhs⟩ := ihl h.2.1
      obtain ⟨lexemes', hrhs⟩ := ihr h.2.2
      exact written_binary h.1 hlhs hrhs
  | ternary cond thenExpr elseExpr span ihc iht ihe =>
      obtain ⟨lexemes, hcond⟩ := ihc h.1
      obtain ⟨lexemes', hthen⟩ := iht h.2.1
      obtain ⟨lexemes'', helse⟩ := ihe h.2.2
      exact written_ternary hcond hthen helse
  | call name args span ih =>
      rw [Writable, writableArgs_iff] at h
      exact written_call h.1 fun e he => ih e he (h.2 e he)

/-! ### From tokens to a tree -/

/-- The token of some lexeme. -/
def OfLexeme (token : Token D) : Prop := ∃ (lexeme : Lexeme) (span : Span), token = lexeme.token span

theorem TokensOf.ofLexeme {lexemes : List Lexeme} {tokens : List (Token D)}
    (h : TokensOf lexemes tokens) : ∀ token ∈ tokens, OfLexeme token := by
  induction h with
  | nil => simp
  | cons hfirst _ ih =>
      obtain ⟨span, rfl⟩ := hfirst
      exact List.forall_mem_cons.mpr ⟨⟨_, span, rfl⟩, ih⟩

theorem OfLexeme.exists_referenceName {token : Token D} (h : OfLexeme token)
    (hkind : token.kind = .nodeRef) :
    ∃ word : ReferenceName, token.lexeme = word.first :: word.more := by
  obtain ⟨lexeme, span, rfl⟩ := h
  have hkind' : lexeme.kind = .nodeRef := hkind
  cases lexeme with
  | reference name => exact ⟨name, rfl⟩
  | symbol kind spelling h =>
      have hkinds : ∀ symbol ∈ symbols, symbol.1 ≠ .nodeRef := by decide
      exact absurd hkind' (hkinds _ h)
  | _ => cases hkind'

theorem OfLexeme.exists_identifier {token : Token D} (h : OfLexeme token)
    (hkind : token.kind = .identifier) :
    ∃ word : Identifier, token.lexeme = word.first :: word.more := by
  obtain ⟨lexeme, span, rfl⟩ := h
  have hkind' : lexeme.kind = .identifier := hkind
  cases lexeme with
  | identifier name => exact ⟨name, rfl⟩
  | symbol kind spelling h =>
      have hkinds : ∀ symbol ∈ symbols, symbol.1 ≠ .identifier := by decide
      exact absurd hkind' (hkinds _ h)
  | _ => cases hkind'

theorem OfLexeme.ne_endOfFile {token : Token D} (h : OfLexeme token) : token.kind ≠ .endOfFile := by
  obtain ⟨lexeme, span, rfl⟩ := h
  show lexeme.kind ≠ .endOfFile
  cases lexeme with
  | symbol kind spelling h =>
      have hkinds : ∀ symbol ∈ symbols, symbol.1 ≠ .endOfFile := by decide
      exact hkinds _ h
  | _ => simp [Lexeme.kind]

theorem TokensOf.ne_endOfFile {lexemes : List Lexeme} {tokens : List (Token D)}
    (h : TokensOf lexemes tokens) : ∀ token ∈ tokens, token.kind ≠ .endOfFile :=
  fun token htoken => (h.ofLexeme token htoken).ne_endOfFile

/-- What a phrase builds from the tokens of lexemes. -/
def Phrase.BuildsWritable : Phrase D → Prop
  | .primary _ word e => (∀ token ∈ word, OfLexeme token) → e.Writable
  | .arguments _ word args => (∀ token ∈ word, OfLexeme token) → WritableArgs args
  | .expression _ _ word e => (∀ token ∈ word, OfLexeme token) → e.Writable
  | .operators _ _ lhs word e => (∀ token ∈ word, OfLexeme token) → lhs.Writable → e.Writable

/-- **The parser builds writable trees.**  By induction on the derivation. -/
theorem Derives.buildsWritable {phrase : Phrase D} (h : Derives phrase) : phrase.BuildsWritable := by
  induction h with
  | number token hkind =>
      intro hword
      obtain ⟨lexeme, span, rfl⟩ := hword token List.mem_cons_self
      exact ⟨lexeme, hkind, rfl⟩
  | nodeRef token hkind =>
      intro hword
      exact (hword token List.mem_cons_self).exists_referenceName hkind
  | callEmpty name opening closing hname _ _ =>
      intro hword
      exact ⟨(hword name List.mem_cons_self).exists_identifier hname, trivial⟩
  | call name opening closing hname _ _ _ ih =>
      intro hword
      simp only [List.forall_mem_cons, List.forall_mem_append] at hword
      exact ⟨hword.1.exists_identifier hname, ih hword.2.2.1⟩
  | unary op hop _ ih =>
      intro hword
      exact ⟨hop, ih (List.forall_mem_cons.mp hword).2⟩
  | paren opening closing _ _ _ ih =>
      intro hword
      simp only [List.forall_mem_cons, List.forall_mem_append] at hword
      exact ih hword.2.1
  | lastArgument _ _ ih => exact fun hword => ⟨ih hword, trivial⟩
  | moreArguments comma _ _ _ ih ih' =>
      intro hword
      simp only [List.forall_mem_cons, List.forall_mem_append] at hword
      exact ⟨ih hword.1, ih' hword.2.2⟩
  | expression _ _ ih ih' =>
      intro hword
      rw [List.forall_mem_append] at hword
      exact ih' hword.2 (ih hword.1)
  | done _ _ => exact fun _ hlhs => hlhs
  | ternary question colon _ _ _ _ _ ih ih' ih'' =>
      intro hword hlhs
      simp only [List.forall_mem_cons, List.forall_mem_append] at hword
      exact ih'' hword.2.2.2.2 ⟨hlhs, ih hword.2.1, ih' hword.2.2.2.1⟩
  | binary op hoperator _ _ _ ih ih' =>
      intro hword hlhs
      simp only [List.forall_mem_cons, List.forall_mem_append] at hword
      exact ih' hword.2.2 ⟨isInfix_iff.mpr hoperator, hlhs, ih hword.2.1⟩

/-! ### Sources -/

/-- A source of lexemes, each followed by a blank. -/
def layOut : List Lexeme → StdString
  | [] => []
  | lexeme :: lexemes => lexeme.text ++ ([' '] ++ layOut lexemes)

theorem separated_layOut (lexemes : List Lexeme) : Separated lexemes (layOut lexemes) := by
  induction lexemes with
  | nil => exact .nil
  | cons lexeme lexemes ih =>
      exact .cons lexeme [' '] (List.forall_mem_singleton.mpr rfl) (fun _ => by simp) ih

/-- Tokens with the kinds and texts of lexemes, and the numbers of their texts, are theirs. -/
theorem tokensOf_of_content {lexemes : List Lexeme} {tokens : List (Token D)}
    (hcontent : tokens.map Token.content = lexemes.map fun lexeme => (lexeme.kind, lexeme.lexeme))
    (hnumbers : ∀ token ∈ tokens, token.number = numberOf token.content) :
    TokensOf lexemes tokens := by
  induction lexemes generalizing tokens with
  | nil =>
      obtain rfl := List.map_eq_nil_iff.mp hcontent
      exact .nil
  | cons lexeme lexemes ih =>
      obtain ⟨token, rest, rfl, htoken, hrest⟩ := List.map_eq_cons_iff.mp hcontent
      obtain ⟨hnumber, hnumbersRest⟩ := List.forall_mem_cons.mp hnumbers
      refine .cons ⟨token.span, ?_⟩ (ih hrest hnumbersRest)
      have hkind : token.kind = lexeme.kind := congrArg Prod.fst htoken
      have hlexeme : token.lexeme = lexeme.lexeme := congrArg Prod.snd htoken
      have hnumber' : token.number = lexeme.number := by
        rw [hnumber, Lexeme.number_eq, ← hkind, ← hlexeme, Token.content]
      rw [Lexeme.token, ← hkind, ← hlexeme, ← hnumber']

/-- The laid out lexemes are tokenized to their tokens. -/
theorem tokenize_layOut (lexemes : List Lexeme) :
    ∃ (front : List (Token D)) (eof : Token D), tokenize (layOut lexemes) = .ok (front ++ [eof]) ∧
      TokensOf lexemes front ∧ eof.kind = .endOfFile := by
  have hstart : ({ source := layOut lexemes } : Tokenizer D).rest = layOut lexemes := rfl
  obtain ⟨t, hscan, hemitted⟩ :=
    Tokenizer.scanAll_separated (separated_layOut lexemes) hstart (le_refl _)
  have htokenize : (tokenize (layOut lexemes) : Result (List (Token D))) =
      .ok (t.tokens ++ [⟨.endOfFile, [], t.here, Double.zero⟩]) := by
    rw [tokenize, hscan]
    rfl
  refine ⟨_, _, htokenize, tokensOf_of_content hemitted fun token htoken => ?_, rfl⟩
  exact number_of_tokenize htokenize token (List.mem_append_left _ htoken)

/-- The parser builds writable trees from the tokens of a source. -/
theorem writable_of_parse {source : StdString} {tokens : List (Token D)} {e : ExpressionTree D}
    (htokenize : tokenize source = .ok tokens) (hparse : parse tokens false = .ok e) :
    e.Writable := by
  obtain ⟨tail, lexemes, front, span, -, -, rfl, hof⟩ := lexed_of_tokenize htokenize
  have hderives := (parse_eq_ok_iff rfl hof.ne_endOfFile).mp hparse
  exact hderives.buildsWritable hof.ofLexeme

/-- **Which trees have a formula.**  A tree is, up to the positions of its nodes, the tree that the
parser builds from some source exactly if its literals have a numeral, its names are names of the
language, and its operators are prefix or infix operators of the language at their places. -/
theorem formulas_reach_the_writable_trees (e : ExpressionTree D) :
    (∃ source tokens e', tokenize source = .ok tokens ∧ parse tokens false = .ok e' ∧
      e'.mapSpan forget = e.mapSpan forget) ↔ e.Writable := by
  constructor
  · rintro ⟨source, tokens, e', htokenize, hparse, hsame⟩
    rw [← writable_mapSpan (f := forget), ← hsame, writable_mapSpan]
    exact writable_of_parse htokenize hparse
  · intro hwritable
    obtain ⟨lexemes, hwritten⟩ := exists_written e hwritable
    obtain ⟨front, eof, htokenize, hof, heof⟩ := tokenize_layOut (D := D) lexemes
    obtain ⟨e', hsame, hderives⟩ := hwritten front hof
    refine ⟨_, _, e', htokenize, ?_, hsame⟩
    have hexpression := (hderives .endOfFile).closed closes_endOfFile (le_refl 0)
    exact (parse_eq_ok_iff heof hof.ne_endOfFile).mpr hexpression

end StatForge.Dsl
