import StatForge.Dsl.Derivation
import StatForge.NanRat

/-!
# The grammar of formulas

The ambiguous grammar behind the parser: operands joined by any infix operators, with no word about
which of them binds tighter.

* `Grammar` — a word of the grammar with one of its derivation trees, parentheses forgotten.
* `Derives.inGrammar` — everything that the parser consumes is such a word with its tree.
* `Chain` — a word of the grammar read from left to right: operands, each followed by an operator, a
  ternary or the end.
* `Chain.reads` — at every minimal binding power the parser reads a chain up to an operator that binds
  less tightly; at `0` there is none, so it reads the whole chain.
* `parse_succeeds_iff_grammar` — `parse(false)` accepts exactly the words of the grammar.
-/

namespace StatForge.Dsl

variable {D : Type}

/-- The infix operators. -/
def isInfix : TokenKind → Bool
  | .caret | .star | .slash | .plus | .minus => true
  | .less | .lessEqual | .greater | .greaterEqual | .equalEqual | .bangEqual => true
  | .andAnd | .orOr => true
  | _ => false

theorem isInfix_iff {kind : TokenKind} : isInfix kind = true ↔ 0 ≤ leftBindingPower kind := by
  cases kind <;> simp [isInfix, leftBindingPower]

/-- An expression, or the arguments of a call. -/
inductive Nonterminal (D : Type)
  | expression (e : ExpressionTree D)
  | arguments (args : List (ExpressionTree D))

/-- The words of the grammar, with their trees. -/
inductive Grammar : Nonterminal D → List (Token D) → Prop
  | number (token : Token D) (hkind : token.kind = .number) :
      Grammar (.expression (.literal token.number token.span)) [token]
  | nodeRef (token : Token D) (hkind : token.kind = .nodeRef) :
      Grammar (.expression (.ref token.lexeme token.span)) [token]
  | callEmpty (name opening closing : Token D) (hname : name.kind = .identifier)
      (hopening : opening.kind = .leftParen) (hclosing : closing.kind = .rightParen) :
      Grammar (.expression (.call name.lexeme [] name.span)) [name, opening, closing]
  | call {word args} (name opening closing : Token D) (hname : name.kind = .identifier)
      (hopening : opening.kind = .leftParen) (hclosing : closing.kind = .rightParen)
      (hargs : Grammar (.arguments args) word) :
      Grammar (.expression (.call name.lexeme args name.span)) (name :: opening :: (word ++ [closing]))
  | unary {word rhs} (op : Token D) (hop : op.kind = .plus ∨ op.kind = .minus ∨ op.kind = .bang)
      (hrhs : Grammar (.expression rhs) word) :
      Grammar (.expression (.unary op.kind rhs op.span)) (op :: word)
  | binary {lhsWord lhs rhsWord rhs} (op : Token D) (hop : isInfix op.kind = true)
      (hlhs : Grammar (.expression lhs) lhsWord) (hrhs : Grammar (.expression rhs) rhsWord) :
      Grammar (.expression (.binary op.kind lhs rhs (lastSpan rhsWord))) (lhsWord ++ op :: rhsWord)
  | ternary {condWord cond thenWord thenExpr elseWord elseExpr} (question colon : Token D)
      (hquestion : question.kind = .question) (hcolon : colon.kind = .colon)
      (hcond : Grammar (.expression cond) condWord) (hthen : Grammar (.expression thenExpr) thenWord)
      (helse : Grammar (.expression elseExpr) elseWord) :
      Grammar (.expression (.ternary cond thenExpr elseExpr (lastSpan elseWord)))
        (condWord ++ question :: (thenWord ++ colon :: elseWord))
  | paren {word e} (opening closing : Token D) (hopening : opening.kind = .leftParen)
      (hclosing : closing.kind = .rightParen) (he : Grammar (.expression e) word) :
      Grammar (.expression e) (opening :: (word ++ [closing]))
  | argument {word e} (he : Grammar (.expression e) word) : Grammar (.arguments [e]) word
  | moreArguments {word e word' args} (comma : Token D) (hcomma : comma.kind = .comma)
      (he : Grammar (.expression e) word) (hargs : Grammar (.arguments args) word') :
      Grammar (.arguments (e :: args)) (word ++ comma :: word')

/-- The only `EndOfFile` is the one behind the word. -/
theorem Grammar.ne_endOfFile {nonterminal : Nonterminal D} {word : List (Token D)}
    (h : Grammar nonterminal word) : ∀ token ∈ word, token.kind ≠ .endOfFile := by
  induction h with
  | binary op hop _ _ ih ih' =>
      have hoperator := ne_endOfFile_of_leftBindingPower (isInfix_iff.mp hop)
      simp_all [or_imp]
  | unary op hop _ ih =>
      have hoperator : op.kind ≠ .endOfFile := by
        rcases hop with hop | hop | hop <;> simp [hop]
      simp_all
  | _ => simp_all [or_imp]

/-! ### Soundness -/

/-- What a phrase of the parser is in the grammar; a loop extends any word of the tree it starts
from. -/
def Phrase.InGrammar : Phrase D → Prop
  | .primary _ word e => Grammar (.expression e) word
  | .arguments _ word args => Grammar (.arguments args) word
  | .expression _ _ word e => Grammar (.expression e) word
  | .operators _ _ lhs word e =>
      ∀ lhsWord, Grammar (.expression lhs) lhsWord → Grammar (.expression e) (lhsWord ++ word)

/-- **Soundness.**  What the parser consumes is a word of the grammar, with the tree it returns. -/
theorem Derives.inGrammar {phrase : Phrase D} (h : Derives phrase) : phrase.InGrammar := by
  induction h with
  | number token hkind => exact .number token hkind
  | nodeRef token hkind => exact .nodeRef token hkind
  | callEmpty name opening closing hname hopening hclosing =>
      exact .callEmpty name opening closing hname hopening hclosing
  | call name opening closing hname hopening hclosing _ ih =>
      exact .call name opening closing hname hopening hclosing ih
  | unary op hop _ ih => exact .unary op hop ih
  | paren opening closing hopening hclosing _ ih => exact .paren opening closing hopening hclosing ih
  | lastArgument _ _ ih => exact .argument ih
  | moreArguments comma hcomma _ _ ih ih' => exact .moreArguments comma hcomma ih ih'
  | expression _ _ ih ih' => exact ih' _ ih
  | done _ _ =>
      intro lhsWord hlhs
      rwa [List.append_nil]
  | @ternary _ _ _ thenWord _ elseWord _ word _ question colon hquestion hcolon _ _ _ ih ih' ih'' =>
      intro lhsWord hlhs
      have hternary := ih'' _ (.ternary question colon hquestion hcolon hlhs ih ih')
      simpa using hternary
  | @binary _ _ _ rhsWord _ word _ op hoperator _ _ _ ih ih' =>
      intro lhsWord hlhs
      have hbinary := ih' _ (.binary op (isInfix_iff.mpr hoperator) hlhs ih)
      simpa using hbinary

/-! ### Completeness -/

/-- A token that ends an expression: neither an operator nor a `'?'`. -/
def Closes (follow : TokenKind) : Prop := follow ≠ .question ∧ leftBindingPower follow < 0

theorem closes_colon : Closes .colon := ⟨by simp, by simp [leftBindingPower]⟩

theorem closes_comma : Closes .comma := ⟨by simp, by simp [leftBindingPower]⟩

theorem closes_rightParen : Closes .rightParen := ⟨by simp, by simp [leftBindingPower]⟩

theorem closes_endOfFile : Closes .endOfFile := ⟨by simp, by simp [leftBindingPower]⟩

/-- An operand that the parser reads whatever stands behind it. -/
def Operand (word : List (Token D)) : Prop := ∃ e, ∀ follow, Derives (.primary follow word e)

/-- A word of the grammar from left to right. -/
inductive Chain : List (Token D) → Prop
  | operand {word} (hword : Operand word) : Chain word
  | unary {word} (op : Token D) (hop : op.kind = .plus ∨ op.kind = .minus ∨ op.kind = .bang)
      (hrest : Chain word) : Chain (op :: word)
  | binary {word rest} (op : Token D) (hop : isInfix op.kind = true) (hword : Operand word)
      (hrest : Chain rest) : Chain (word ++ op :: rest)
  | ternary {word thenWord thenExpr rest} (question colon : Token D)
      (hquestion : question.kind = .question) (hcolon : colon.kind = .colon)
      (hword : Operand word) (hthen : Derives (.expression 0 .colon thenWord thenExpr))
      (hrest : Chain rest) : Chain (word ++ question :: (thenWord ++ colon :: rest))

section Append

variable {word rest : List (Token D)}

/-- An operator and another chain continue a chain at its end. -/
theorem Chain.append_binary (h : Chain word) (op : Token D) (hop : isInfix op.kind = true)
    (hrest : Chain rest) : Chain (word ++ op :: rest) := by
  induction h with
  | operand hword => exact .binary op hop hword hrest
  | unary op' hop' _ ih => exact .unary op' hop' ih
  | binary op' hop' hword _ ih =>
      rw [List.append_assoc]
      exact .binary op' hop' hword ih
  | ternary question colon hquestion hcolon hword hthen _ ih =>
      have hternary := Chain.ternary question colon hquestion hcolon hword hthen ih
      simpa using hternary

/-- A ternary continues a chain at its end. -/
theorem Chain.append_ternary (h : Chain word) {question colon : Token D}
    {thenWord : List (Token D)} {thenExpr : ExpressionTree D}
    (hquestion : question.kind = .question) (hcolon : colon.kind = .colon)
    (hthen : Derives (.expression 0 .colon thenWord thenExpr)) (hrest : Chain rest) :
    Chain (word ++ question :: (thenWord ++ colon :: rest)) := by
  induction h with
  | operand hword => exact .ternary question colon hquestion hcolon hword hthen hrest
  | unary op hop _ ih => exact .unary op hop ih
  | binary op hop hword _ ih =>
      rw [List.append_assoc]
      exact .binary op hop hword ih
  | ternary question' colon' hquestion' hcolon' hword hthen' _ ih =>
      have hternary := Chain.ternary question' colon' hquestion' hcolon' hword hthen' ih
      simpa using hternary

end Append

/-- What may stand behind an operand of a chain. -/
inductive Tail : List (Token D) → Prop
  | nil : Tail []
  | binary {rest} (op : Token D) (hop : isInfix op.kind = true) (hrest : Chain rest) :
      Tail (op :: rest)
  | ternary {thenWord thenExpr rest} (question colon : Token D)
      (hquestion : question.kind = .question) (hcolon : colon.kind = .colon)
      (hthen : Derives (.expression 0 .colon thenWord thenExpr)) (hrest : Chain rest) :
      Tail (question :: (thenWord ++ colon :: rest))

/-- The tail that a loop with a minimal binding power leaves: nothing, or an operator that binds less
tightly. -/
def LeftOver (minBindingPower : Int) (tail : List (Token D)) : Prop :=
  tail = [] ∨ ∃ op rest, tail = op :: rest ∧ isInfix op.kind = true ∧
    leftBindingPower op.kind < minBindingPower ∧ Chain rest

theorem LeftOver.tail {minBindingPower : Int} {tail : List (Token D)}
    (h : LeftOver minBindingPower tail) : Tail tail := by
  rcases h with rfl | ⟨op, rest, rfl, hop, -, hrest⟩
  · exact .nil
  · exact .binary op hop hrest

/-- No operator binds less tightly than `0`. -/
theorem LeftOver.eq_nil {tail : List (Token D)} (h : LeftOver 0 tail) : tail = [] := by
  rcases h with rfl | ⟨op, rest, rfl, hop, hpower, -⟩
  · rfl
  · have := isInfix_iff.mp hop
    omega

/-- In front of `follow` the parser reads an expression off the start of the word. -/
def ReadsExpression (follow : TokenKind) (word : List (Token D)) : Prop :=
  ∀ minBindingPower : Int, 0 ≤ minBindingPower → ∃ front tail e, word = front ++ tail ∧
    Derives (.expression minBindingPower (nextKind tail follow) front e) ∧
    LeftOver minBindingPower tail

/-- In front of `follow` the operator loop reads a part of the tail. -/
def ReadsOperators (follow : TokenKind) (word : List (Token D)) : Prop :=
  ∀ minBindingPower : Int, 0 ≤ minBindingPower → ∀ lhs, ∃ front tail e, word = front ++ tail ∧
    Derives (.operators minBindingPower (nextKind tail follow) lhs front e) ∧
    LeftOver minBindingPower tail

section Reads

variable {follow : TokenKind} {n : Nat}

/-- The loop reads its tail, if the parser reads every shorter chain. -/
theorem Tail.reads (hfollow : Closes follow)
    (hchains : ∀ word : List (Token D), word.length < n → Chain word → ReadsExpression follow word)
    {tail : List (Token D)} (htail : Tail tail) (hlength : tail.length ≤ n) :
    ReadsOperators follow tail := by
  induction hsize : tail.length using Nat.strong_induction_on generalizing tail with
  | _ size ih =>
  intro minBindingPower hmin lhs
  cases htail with
  | nil =>
      have hpower : leftBindingPower follow < minBindingPower := by
        have := hfollow.2
        omega
      exact ⟨[], [], lhs, rfl, .done hfollow.1 hpower, Or.inl rfl⟩
  | @binary rest op hop hrest =>
      have hoperator := isInfix_iff.mp hop
      rw [List.length_cons] at hlength hsize
      by_cases hpower : leftBindingPower op.kind < minBindingPower
      · -- The loop stops in front of an operator that binds less tightly.
        exact ⟨[], op :: rest, lhs, rfl, .done (ne_question_of_leftBindingPower hoperator) hpower,
          Or.inr ⟨op, rest, rfl, hop, hpower, hrest⟩⟩
      · obtain ⟨rhsWord, behind, rhs, rfl, hrhs, hleft⟩ :=
          hchains rest (by omega) hrest (rightBindingPower op.kind)
            (rightBindingPower_nonneg hoperator)
        rw [List.length_append] at hlength hsize
        obtain ⟨front, tail, e, rfl, hoperators, hleft⟩ :=
          ih behind.length (by omega) hleft.tail (by omega) rfl minBindingPower hmin
            (.binary op.kind lhs rhs (lastSpan rhsWord))
        rw [nextKind_append] at hrhs
        exact ⟨op :: (rhsWord ++ front), tail, e, by simp,
          .binary op hoperator (by omega) hrhs hoperators, hleft⟩
  | @ternary thenWord thenExpr rest question colon hquestion hcolon hthen hrest =>
      simp only [List.length_cons, List.length_append] at hlength
      obtain ⟨elseWord, behind, elseExpr, rfl, helse, hleft⟩ :=
        hchains rest (by omega) hrest 0 (le_refl 0)
      -- The else-branch is read at `0`, which leaves nothing.
      obtain rfl := hleft.eq_nil
      have hpower : leftBindingPower follow < minBindingPower := by
        have := hfollow.2
        omega
      exact ⟨question :: (thenWord ++ colon :: (elseWord ++ [])), [], _, by simp,
        .ternary question colon hquestion hcolon hthen helse (.done hfollow.1 hpower), Or.inl rfl⟩

/-- An operand and the loop behind it make an expression. -/
theorem ReadsOperators.expression {word tail : List (Token D)} {lhs : ExpressionTree D}
    (h : ReadsOperators follow tail) (hword : Derives (.primary (nextKind tail follow) word lhs)) :
    ReadsExpression follow (word ++ tail) := by
  intro minBindingPower hmin
  obtain ⟨front, tail, e, rfl, hoperators, hleft⟩ := h minBindingPower hmin lhs
  rw [nextKind_append] at hword
  exact ⟨word ++ front, tail, e, by simp, .expression hword hoperators, hleft⟩

/-- **Greedy reading.**  At every minimal binding power the parser reads an expression off the start of
a chain, up to an operator that binds less tightly.  By induction on the length. -/
theorem Chain.reads (hfollow : Closes follow) {word : List (Token D)} (h : Chain word) :
    ReadsExpression follow word := by
  induction hsize : word.length using Nat.strong_induction_on generalizing word with
  | _ size ih =>
  have hchains : ∀ word' : List (Token D), word'.length < size → Chain word' →
      ReadsExpression follow word' := fun word' hshort hword' => ih _ hshort hword' rfl
  cases h with
  | operand hword =>
      obtain ⟨lhs, hlhs⟩ := hword
      have htail := Tail.reads hfollow hchains Tail.nil (Nat.zero_le size)
      simpa using htail.expression (hlhs _)
  | @unary rest op hop hrest =>
      rw [List.length_cons] at hsize
      -- The prefix operator takes the part of the chain that binds tighter than it does.
      obtain ⟨front, tail, rhs, rfl, hrhs, hleft⟩ := hchains rest (by omega) hrest 11 (by omega)
      rw [List.length_append] at hsize
      exact (Tail.reads hfollow hchains hleft.tail (by omega)).expression (.unary op hop hrhs)
  | binary op hop hword hrest =>
      obtain ⟨lhs, hlhs⟩ := hword
      rw [List.length_append] at hsize
      exact (Tail.reads hfollow hchains (.binary op hop hrest) (by omega)).expression (hlhs _)
  | ternary question colon hquestion hcolon hword hthen hrest =>
      obtain ⟨lhs, hlhs⟩ := hword
      rw [List.length_append] at hsize
      exact (Tail.reads hfollow hchains (.ternary question colon hquestion hcolon hthen hrest)
        (by omega)).expression (hlhs _)

/-- At `0` the parser reads the whole chain. -/
theorem Chain.derives (hfollow : Closes follow) {word : List (Token D)} (h : Chain word) :
    ∃ e, Derives (.expression 0 follow word e) := by
  obtain ⟨front, tail, e, rfl, hderives, hleft⟩ := h.reads hfollow 0 (le_refl 0)
  obtain rfl := hleft.eq_nil
  rw [List.append_nil]
  exact ⟨e, hderives⟩

end Reads

/-- What a word of the grammar is to the parser. -/
def Nonterminal.IsRead : Nonterminal D → List (Token D) → Prop
  | .expression _, word => Chain word
  | .arguments _, word => ∃ args, Derives (.arguments .rightParen word args)

/-- Every word of the grammar is a chain, and every list of arguments is one to the parser. -/
theorem Grammar.isRead {nonterminal : Nonterminal D} {word : List (Token D)}
    (h : Grammar nonterminal word) : nonterminal.IsRead word := by
  induction h with
  | number token hkind => exact .operand ⟨_, fun _ => .number token hkind⟩
  | nodeRef token hkind => exact .operand ⟨_, fun _ => .nodeRef token hkind⟩
  | callEmpty name opening closing hname hopening hclosing =>
      exact .operand ⟨_, fun _ => .callEmpty name opening closing hname hopening hclosing⟩
  | call name opening closing hname hopening hclosing _ ih =>
      obtain ⟨args, hargs⟩ := ih
      exact .operand ⟨_, fun _ => .call name opening closing hname hopening hclosing hargs⟩
  | unary op hop _ ih => exact .unary op hop ih
  | binary op hop _ _ ih ih' => exact ih.append_binary op hop ih'
  | ternary question colon hquestion hcolon _ _ _ ih ih' ih'' =>
      obtain ⟨thenExpr, hthen⟩ := ih'.derives closes_colon
      exact ih.append_ternary hquestion hcolon hthen ih''
  | paren opening closing hopening hclosing _ ih =>
      obtain ⟨e, he⟩ := ih.derives closes_rightParen
      exact .operand ⟨e, fun _ => .paren opening closing hopening hclosing he⟩
  | argument _ ih =>
      obtain ⟨e, he⟩ := ih.derives closes_rightParen
      exact ⟨[e], .lastArgument (by simp) he⟩
  | moreArguments comma hcomma _ _ ih ih' =>
      obtain ⟨e, he⟩ := ih.derives closes_comma
      obtain ⟨args, hargs⟩ := ih'
      exact ⟨e :: args, .moreArguments comma hcomma he hargs⟩

/-- **Completeness.**  The parser reads every word of the grammar, up to `EndOfFile`. -/
theorem Grammar.derives {word : List (Token D)} {e : ExpressionTree D}
    (h : Grammar (.expression e) word) : ∃ e', Derives (.expression 0 .endOfFile word e') :=
  Chain.derives closes_endOfFile h.isRead

/-! ### Acceptance -/

/-- **The language of the parser.**  On a list with its only `EndOfFile` at the end, `parse(false)`
succeeds exactly when the tokens before it are a word of the grammar, and then the tree it returns is
the tree of one of the derivations of that word. -/
theorem parse_succeeds_iff_grammar [Double D] {body : List (Token D)} {eof : Token D}
    (heof : eof.kind = .endOfFile) (hbody : ∀ token ∈ body, token.kind ≠ .endOfFile) :
    ((∃ e, Parser.parse (body ++ [eof]) false = .ok e) ↔ ∃ e, Grammar (.expression e) body) ∧
      ∀ e, Parser.parse (body ++ [eof]) false = .ok e → Grammar (.expression e) body := by
  have hsound : ∀ e, Parser.parse (body ++ [eof]) false = .ok e → Grammar (.expression e) body := by
    intro e hparse
    exact ((Parser.parse_eq_ok_iff heof hbody).mp hparse).inGrammar
  refine ⟨⟨?_, ?_⟩, hsound⟩
  · rintro ⟨e, hparse⟩
    exact ⟨e, hsound e hparse⟩
  · rintro ⟨e, hword⟩
    obtain ⟨e', hderives⟩ := hword.derives
    exact ⟨e', (Parser.parse_eq_ok_iff heof hbody).mpr hderives⟩

section Instances

/-- A number token with the value `n`. -/
def sampleNumber (n : Nat) : Token NanRat := ⟨.number, [], {}, Double.ofNat n⟩

/-- A token that carries no value. -/
def sampleToken (kind : TokenKind) : Token NanRat := ⟨kind, [], {}, Double.zero⟩

/-- The tree of a number token. -/
def sampleLiteral (n : Nat) : ExpressionTree NanRat := .literal (Double.ofNat n) {}

/-- The word `1 + (2 ? 3 : 4)` is parsed to one of its derivations, without the parentheses. -/
theorem parenthesised_ternary_is_a_word :
    let body := [sampleNumber 1, sampleToken .plus, sampleToken .leftParen, sampleNumber 2,
      sampleToken .question, sampleNumber 3, sampleToken .colon, sampleNumber 4,
      sampleToken .rightParen]
    let tree := ExpressionTree.binary .plus (sampleLiteral 1)
      (.ternary (sampleLiteral 2) (sampleLiteral 3) (sampleLiteral 4) {}) {}
    Parser.parse (body ++ [sampleToken .endOfFile]) false = .ok tree ∧
      Grammar (.expression tree) body := by
  intro body tree
  have hparse : Parser.parse (body ++ [sampleToken .endOfFile]) false = .ok tree := rfl
  have hbody : ∀ token ∈ body, token.kind ≠ .endOfFile := by
    simp [body, sampleNumber, sampleToken]
  exact ⟨hparse, (parse_succeeds_iff_grammar rfl hbody).2 tree hparse⟩

end Instances

end StatForge.Dsl
