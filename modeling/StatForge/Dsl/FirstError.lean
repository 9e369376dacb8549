import StatForge.Dsl.Rejection
import StatForge.Dsl.Writing

/-!
# The token that an error points at

The parser reports the first token that no formula has at this place: what stands before it can be
continued to a formula, and what ends with it cannot.

* `Completes` — some lexemes complete a word.
* `Rejects.completable` — what the parser has read before an error can be completed.
* `Begins` — some accepted formula starts with these tokens.
* `errors_point_at_the_first_wrong_token` — the token that an error of `parse` points at.
-/

namespace StatForge.Dsl

variable {D : Type} [Double D]

/-! ### Completing what has been read -/

/-- Tokens of some lexemes, behind the word, give it the property. -/
def Completes (property : List (Token D) → Prop) (word : List (Token D)) : Prop :=
  ∃ lexemes : List Lexeme, property (word ++ lexemes.map fun lexeme => lexeme.token {})

def IsExpression (word : List (Token D)) : Prop := ∃ e, Grammar (.expression e) word

def IsArguments (word : List (Token D)) : Prop := ∃ args, Grammar (.arguments args) word

/-- The words that can be completed to what the function reads; a loop reads behind an expression. -/
def Goal.Completable : Goal → List (Token D) → Prop
  | .primary, word => Completes IsExpression word
  | .arguments, word => Completes IsArguments word
  | .expression _, word => Completes IsExpression word
  | .operators _, word => ∀ lhsWord, IsExpression lhsWord → Completes IsExpression (lhsWord ++ word)

def zeroLexeme : Lexeme := .integer ⟨'0', [], List.forall_mem_singleton.mpr rfl⟩

theorem isExpression_zero : IsExpression [(zeroLexeme.token {} : Token D)] := ⟨_, .number _ rfl⟩

section Completes

variable {property property' : List (Token D) → Prop} {word word' : List (Token D)}

/-- What completes a part completes the whole, with more lexemes behind it. -/
theorem Completes.extend (h : Completes property word) (last : List Lexeme)
    (hrule : ∀ more, property (word ++ more) →
      property' (word' ++ (more ++ last.map fun lexeme => lexeme.token {}))) :
    Completes property' word' := by
  obtain ⟨lexemes, hlexemes⟩ := h
  refine ⟨lexemes ++ last, ?_⟩
  rw [List.map_append]
  exact hrule _ hlexemes

end Completes

/-- **What has been read can be completed**, by the cases of the path to the error. -/
theorem Rejects.completable {goal : Goal} {word : List (Token D)} {token : Token D}
    {behind : List (Token D)} {message : String} (h : Rejects goal word token behind message) :
    goal.Completable word := by
  induction h with
  | unexpected token hkind => exact ⟨[zeroLexeme], isExpression_zero⟩
  | bareIdentifier name next hname hnext => exact ⟨[zeroLexeme], isExpression_zero⟩
  | callArguments name opening hname hopening _ _ ih =>
      refine Completes.extend ih [rightParenLexeme] fun more ⟨args, hargs⟩ => ?_
      have hcall := Grammar.call name opening (rightParenLexeme.token {}) hname hopening rfl hargs
      exact ⟨_, by simpa using hcall⟩
  | unclosedCall name opening next hname hopening _ hargs =>
      exact ⟨[rightParenLexeme], _, .call name opening _ hname hopening rfl hargs.inGrammar⟩
  | unary op hop _ ih =>
      refine Completes.extend ih [] fun more ⟨rhs, hrhs⟩ => ?_
      exact ⟨_, by simpa using Grammar.unary op hop hrhs⟩
  | paren opening hopening _ ih =>
      refine Completes.extend ih [rightParenLexeme] fun more ⟨e, he⟩ => ?_
      have hparen := Grammar.paren opening (rightParenLexeme.token {}) hopening rfl he
      exact ⟨e, by simpa using hparen⟩
  | unclosedParen opening next hopening _ he =>
      exact ⟨[rightParenLexeme], _, .paren opening _ hopening rfl he.inGrammar⟩
  | firstArgument _ ih =>
      refine Completes.extend ih [] fun more ⟨e, he⟩ => ?_
      exact ⟨_, by simpa using Grammar.argument he⟩
  | laterArguments comma hcomma he _ ih =>
      refine Completes.extend ih [] fun more ⟨args, hargs⟩ => ?_
      have hmore := Grammar.moreArguments comma hcomma he.inGrammar hargs
      exact ⟨_, by simpa using hmore⟩
  | operand _ ih => exact ih
  | operators hprimary _ ih => exact ih _ ⟨_, hprimary.inGrammar⟩
  | thenPart question hquestion _ ih =>
      rintro lhsWord ⟨lhs, hlhs⟩
      obtain ⟨zero, hzero⟩ := isExpression_zero (D := D)
      refine Completes.extend ih [colonLexeme, zeroLexeme] fun more ⟨thenExpr, hthen⟩ => ?_
      have hternary := Grammar.ternary question (colonLexeme.token {}) hquestion rfl hlhs hthen hzero
      exact ⟨_, by simpa using hternary⟩
  | missingColon question next hquestion _ hthen =>
      rintro lhsWord ⟨lhs, hlhs⟩
      obtain ⟨zero, hzero⟩ := isExpression_zero (D := D)
      have hternary := Grammar.ternary question (colonLexeme.token {}) hquestion rfl hlhs
        hthen.inGrammar hzero
      exact ⟨[colonLexeme, zeroLexeme], _, by simpa using hternary⟩
  | elsePart question colon hquestion hcolon hthen _ ih =>
      rintro lhsWord ⟨lhs, hlhs⟩
      refine Completes.extend ih [] fun more ⟨elseExpr, helse⟩ => ?_
      have hternary := Grammar.ternary question colon hquestion hcolon hlhs hthen.inGrammar helse
      exact ⟨_, by simpa using hternary⟩
  | afterTernary question colon hquestion hcolon hthen helse _ ih =>
      rintro lhsWord ⟨lhs, hlhs⟩
      have hternary := Grammar.ternary question colon hquestion hcolon hlhs hthen.inGrammar
        helse.inGrammar
      refine Completes.extend (ih _ ⟨_, hternary⟩) [] fun more ⟨e, he⟩ => ?_
      exact ⟨e, by simpa using he⟩
  | rightOperand op hoperator _ _ ih =>
      rintro lhsWord ⟨lhs, hlhs⟩
      refine Completes.extend ih [] fun more ⟨rhs, hrhs⟩ => ?_
      have hbinary := Grammar.binary op (isInfix_iff.mpr hoperator) hlhs hrhs
      exact ⟨_, by simpa using hbinary⟩
  | afterBinary op hoperator _ hrhs _ ih =>
      rintro lhsWord ⟨lhs, hlhs⟩
      have hbinary := Grammar.binary op (isInfix_iff.mpr hoperator) hlhs hrhs.inGrammar
      refine Completes.extend (ih _ ⟨_, hbinary⟩) [] fun more ⟨e, he⟩ => ?_
      exact ⟨e, by simpa using he⟩

open ExceptBind StatForge.Dsl.Parser

/-- What has been read before a refusal can be completed. -/
theorem Parser.Refuses.completes {word : List (Token D)} {token : Token D} {behind : List (Token D)}
    {message : String} (h : Refuses word token behind message) : Completes IsExpression word := by
  cases h with
  | inside h => exact h.completable
  | trailing _ _ h =>
      refine ⟨[], ?_⟩
      rw [List.map_nil, List.append_nil]
      exact ⟨_, h.inGrammar⟩

omit [Double D] in
/-- More than the reported token is looked at only behind a name. -/
theorem Rejects.behind_cases {goal : Goal} {word : List (Token D)} {token : Token D}
    {behind : List (Token D)} {message : String} (h : Rejects goal word token behind message) :
    behind = [] ∨ token.kind = .identifier ∧ behind.length = 1 := by
  induction h with
  | bareIdentifier name next hname hnext => exact Or.inr ⟨hname, rfl⟩
  | unexpected | unclosedCall | unclosedParen | missingColon => exact Or.inl rfl
  | _ => assumption

omit [Double D] in
theorem Parser.Refuses.behind_cases {word : List (Token D)} {token : Token D} {behind : List (Token D)}
    {message : String} (h : Refuses word token behind message) :
    behind = [] ∨ token.kind = .identifier ∧ behind.length = 1 := by
  cases h with
  | inside h => exact h.behind_cases
  | trailing _ _ _ => exact Or.inl rfl

/-! ### The beginnings of formulas -/

/-- Some accepted formula starts with tokens of these kinds and texts. -/
def Begins (D : Type) [Double D] (front : List (TokenKind × StdString)) : Prop :=
  ∃ source, ∃ tokens : List (Token D), tokenize source = .ok tokens ∧
    (∃ e, parse tokens false = .ok e) ∧ front <+: tokens.map Token.content

/-- Whether tokens are accepted does not depend on their positions. -/
theorem accepted_of_forget {tokens tokens' : List (Token D)} {fold : Bool}
    (h : tokens.map (Token.mapSpan forget) = tokens'.map (Token.mapSpan forget))
    (haccepted : ∃ e, parse tokens fold = .ok e) : ∃ e, parse tokens' fold = .ok e := by
  obtain ⟨e, he⟩ := haccepted
  have hsame : parse (tokens.map (Token.mapSpan forget)) fold =
      parse (tokens'.map (Token.mapSpan forget)) fold := by rw [h]
  rw [parse_mapSpan, parse_mapSpan, he] at hsame
  cases hparse : parse tokens' fold with
  | ok e' => exact ⟨e', rfl⟩
  | error stop =>
      rw [hparse] at hsame
      cases hsame

theorem TokensOf.forget_eq {lexemes : List Lexeme} {tokens : List (Token D)}
    (h : TokensOf lexemes tokens) :
    tokens.map (Token.mapSpan forget) = lexemes.map fun lexeme => lexeme.token {} := by
  induction h with
  | nil => rfl
  | cons hfirst _ ih =>
      obtain ⟨span, rfl⟩ := hfirst
      rw [List.map_cons, List.map_cons, ih]
      rfl

/-- A word of lexemes that can be completed is the beginning of a formula. -/
theorem begins_of_completes {lexemes : List Lexeme} {word : List (Token D)}
    (hof : TokensOf lexemes word) (h : Completes IsExpression word) :
    Begins D (word.map Token.content) := by
  obtain ⟨more, e, he⟩ := h
  obtain ⟨e', hderives⟩ := he.derives
  obtain ⟨front, eof, htokenize, hfront, heof⟩ := tokenize_layOut (D := D) (lexemes ++ more)
  -- The formula that is laid out has the same tokens at other positions.
  have hsame : (word ++ more.map fun lexeme : Lexeme => lexeme.token {}).map (Token.mapSpan forget) =
      front.map (Token.mapSpan forget) := by
    rw [hfront.forget_eq, List.map_append, List.map_append, hof.forget_eq, List.map_map]
    rfl
  refine ⟨_, _, htokenize, ?_, ?_⟩
  · refine accepted_of_forget ?_ ⟨e', (parse_eq_ok_iff heof he.ne_endOfFile).mpr hderives⟩
    rw [List.map_append, hsame, List.map_append]
  · have hcontent := congrArg (List.map Token.content) hsame
    rw [List.map_map, List.map_map] at hcontent
    have hfront' : front.map Token.content =
        word.map Token.content ++ more.map fun lexeme => (lexeme.kind, lexeme.lexeme) := by
      rw [List.map_append, List.map_map] at hcontent
      exact hcontent.symm
    rw [List.map_append, hfront', List.append_assoc]
    exact List.prefix_append _ _

/-- Tokens up to a refused one are not the beginning of a formula. -/
theorem not_begins_of_refuses {word : List (Token D)} {token : Token D} {behind : List (Token D)}
    {message : String} (h : Refuses word token behind message)
    (hnumbers : ∀ token' ∈ word ++ token :: behind, token'.number = numberOf token'.content) :
    ¬ Begins D ((word ++ token :: behind).map Token.content) := by
  rintro ⟨source, tokens, htokenize, haccepted, hfront⟩
  obtain ⟨more, hmore⟩ := hfront
  obtain ⟨front, back, rfl, hfront, -⟩ := List.map_eq_append_iff.mp hmore.symm
  have hnumbers' := fun token' htoken' =>
    number_of_tokenize htokenize token' (List.mem_append_left back htoken')
  -- The refused tokens in front of the rest of the formula are refused as well.
  have hsame : (front ++ back).map (Token.mapSpan forget) =
      (word ++ token :: (behind ++ back)).map (Token.mapSpan forget) := by
    rw [← List.cons_append, ← List.append_assoc, List.map_append, List.map_append,
      map_forget_eq hnumbers, map_forget_eq hnumbers', hfront]
  obtain ⟨e, he⟩ := accepted_of_forget hsame haccepted
  rw [refused_of_refuses h back] at he
  cases he

/-! ### Where errors point -/

/-- **Errors point at the first wrong token.**  If a source is rejected by the parser, the error has
the span of a token such that some accepted formula starts with the tokens before it, but none starts
with these and the token itself; behind a name, none starts with these, the name and the token behind
it.  The only other rejections are those of the folder, which sees accepted formulas. -/
theorem errors_point_at_the_first_wrong_token {source : StdString} {tokens : List (Token D)}
    {fold : Bool} {info : ErrorInfo} (htokenize : tokenize source = .ok tokens)
    (hparse : parse tokens fold = .error (.error info)) :
    (∃ before token behind after, tokens = before ++ token :: (behind ++ after) ∧
      info.span = some token.span ∧
      (behind = [] ∨ token.kind = .identifier ∧ behind.length = 1) ∧
      Begins D (before.map Token.content) ∧
      ¬ Begins D ((before ++ token :: behind).map Token.content)) ∨
    ∃ e, parse tokens false = .ok e ∧ foldConstants e = .error info := by
  rcases parse_error_cases hparse with hparse | hfold
  · left
    have hnumbers := number_of_tokenize htokenize
    obtain ⟨tail, lexemes, front, span, -, -, hfront, hof⟩ := lexed_of_tokenize htokenize
    have hterm : Terminated tokens := ⟨front, _, hfront, rfl⟩
    obtain ⟨before, token, behind, after, message, hlist, hrefuses, rfl⟩ :=
      (parse_eq_error_iff hterm).mp hparse
    refine ⟨before, token, behind, after, hlist, rfl, hrefuses.behind_cases, ?_, ?_⟩
    · -- The tokens before the reported one are tokens of lexemes.
      have hbefore : before = front.take before.length := by
        have hlength := congrArg List.length (hfront.symm.trans hlist)
        simp only [List.length_append, List.length_cons, List.length_nil] at hlength
        have htake := congrArg (List.take before.length) (hlist.symm.trans hfront)
        rw [List.take_left, List.take_append_of_le_length (by omega)] at htake
        exact htake
      have hof' : TokensOf (lexemes.take before.length) before := by
        have htake := List.forall₂_take before.length hof
        rwa [← hbefore] at htake
      exact begins_of_completes hof' hrefuses.completes
    · refine not_begins_of_refuses hrefuses fun token' htoken' => hnumbers token' ?_
      rw [hlist, ← List.cons_append, ← List.append_assoc]
      exact List.mem_append_left _ htoken'
  · exact Or.inr hfold

/-- The tokens of `2*)`. -/
private def starTokens : List (Token NanRat) :=
  [⟨.number, "2".toList, ⟨1, 2⟩, numberOf (.number, "2".toList)⟩,
    ⟨.star, "*".toList, ⟨1, 3⟩, Double.zero⟩, ⟨.rightParen, ")".toList, ⟨1, 4⟩, Double.zero⟩,
    ⟨.endOfFile, [], ⟨1, 4⟩, Double.zero⟩]

/-- A closing parenthesis in the place of an operand. -/
theorem parenthesis_behind_star : ∃ before token behind after,
    starTokens = before ++ token :: (behind ++ after) ∧ token.span = ⟨1, 4⟩ ∧
      Begins NanRat (before.map Token.content) ∧
      ¬ Begins NanRat ((before ++ token :: behind).map Token.content) := by
  have htokenize : tokenize "2*)".toList = .ok starTokens := rfl
  have hparse : parse starTokens true =
      .error (.error (buildErrorInfo .invalidDsl "Unexpected token in expression" (some ⟨1, 4⟩))) := rfl
  rcases errors_point_at_the_first_wrong_token htokenize hparse with
    ⟨before, token, behind, after, hlist, hspan, -, hbegins, hwrong⟩ | ⟨e, he, -⟩
  · exact ⟨before, token, behind, after, hlist, (Option.some.inj hspan).symm, hbegins, hwrong⟩
  · cases he

end StatForge.Dsl
