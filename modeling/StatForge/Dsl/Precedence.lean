import StatForge.Dsl.Derivation
import StatForge.NanRat

/-!
# The ternary operator and its condition

`parseExpression` matches `'?'` before it compares binding powers, in every nested call.  So the
innermost call that is still open when the `'?'` arrives takes what it has parsed as the condition.

* `operatorAtDepth` — scanning a word for an operator outside all parentheses.
* `appendTernary` — what a derivation becomes when `? t : e` is appended to its word: the whole
  tree is the condition exactly when the word has no operator outside parentheses.
* `parse_ternary_eq_iff` — `c ? t : e` parses to the ternary of the three separate parses exactly
  when `c` has no operator outside parentheses.
-/

namespace StatForge.Dsl

variable {D : Type}

/-- The tokens that stand for a unary or binary operator. -/
def isOperator : TokenKind → Bool
  | .plus | .minus | .star | .slash | .caret | .bang => true
  | .less | .greater | .lessEqual | .greaterEqual | .equalEqual | .bangEqual => true
  | .andAnd | .orOr => true
  | _ => false

/-- Starting inside `depth` parentheses, the word has an operator outside all of them. -/
def operatorAtDepth : Nat → List (Token D) → Bool
  | _, [] => false
  | depth, token :: tokens =>
      match token.kind with
      | .leftParen => operatorAtDepth (depth + 1) tokens
      | .rightParen => operatorAtDepth (depth - 1) tokens
      | kind => (depth == 0 && isOperator kind) || operatorAtDepth depth tokens

theorem operatorAtDepth_leftParen {token : Token D} (h : token.kind = .leftParen) (depth : Nat)
    (tokens : List (Token D)) :
    operatorAtDepth depth (token :: tokens) = operatorAtDepth (depth + 1) tokens := by
  simp [operatorAtDepth, h]

theorem operatorAtDepth_rightParen {token : Token D} (h : token.kind = .rightParen) (depth : Nat)
    (tokens : List (Token D)) :
    operatorAtDepth (depth + 1) (token :: tokens) = operatorAtDepth depth tokens := by
  simp [operatorAtDepth, h]

theorem operatorAtDepth_cons {token : Token D} (hleft : token.kind ≠ .leftParen)
    (hright : token.kind ≠ .rightParen) (depth : Nat) (tokens : List (Token D)) :
    operatorAtDepth depth (token :: tokens) =
      ((depth == 0 && isOperator token.kind) || operatorAtDepth depth tokens) := by
  cases hkind : token.kind <;> simp_all [operatorAtDepth]

theorem isOperator_of_leftBindingPower {kind : TokenKind} (h : 0 ≤ leftBindingPower kind) :
    isOperator kind = true ∧ kind ≠ .leftParen ∧ kind ≠ .rightParen := by
  cases kind <;> simp_all [leftBindingPower, isOperator]

def Phrase.word : Phrase D → List (Token D)
  | .primary _ word _ => word
  | .arguments _ word _ => word
  | .expression _ _ word _ => word
  | .operators _ _ _ word _ => word

/-- A word after which a scan is back at the depth where it started, without having seen an operator
at that depth or below when it started inside parentheses. -/
structure Balanced (word : List (Token D)) : Prop where
  append : ∀ depth rest, operatorAtDepth depth (word ++ rest) =
    (operatorAtDepth depth word || operatorAtDepth depth rest)
  inside : ∀ depth, operatorAtDepth (depth + 1) word = false

theorem Balanced.nil : Balanced ([] : List (Token D)) :=
  ⟨fun _ _ => by simp [operatorAtDepth], fun _ => rfl⟩

theorem Balanced.cons {token : Token D} {word : List (Token D)} (h : Balanced word)
    (hleft : token.kind ≠ .leftParen) (hright : token.kind ≠ .rightParen) :
    Balanced (token :: word) := by
  constructor
  · intro depth rest
    rw [List.cons_append, operatorAtDepth_cons hleft hright, operatorAtDepth_cons hleft hright,
      h.append, Bool.or_assoc]
  · intro depth
    rw [operatorAtDepth_cons hleft hright, h.inside]
    simp

theorem Balanced.concat {word word' : List (Token D)} (h : Balanced word) (h' : Balanced word') :
    Balanced (word ++ word') := by
  constructor
  · intro depth rest
    rw [List.append_assoc, h.append, h'.append, h.append, Bool.or_assoc]
  · intro depth
    rw [h.append, h.inside, h'.inside, Bool.or_false]

/-- A parenthesised word hides its operators. -/
theorem Balanced.paren {opening closing : Token D} {word : List (Token D)} (h : Balanced word)
    (hopening : opening.kind = .leftParen) (hclosing : closing.kind = .rightParen)
    (depth : Nat) (rest : List (Token D)) :
    operatorAtDepth depth (opening :: (word ++ closing :: rest)) = operatorAtDepth depth rest := by
  rw [operatorAtDepth_leftParen hopening, h.append, h.inside,
    operatorAtDepth_rightParen hclosing, Bool.false_or]

theorem Balanced.paren_balanced {opening closing : Token D} {word : List (Token D)}
    (h : Balanced word) (hopening : opening.kind = .leftParen)
    (hclosing : closing.kind = .rightParen) : Balanced (opening :: (word ++ [closing])) := by
  constructor
  · intro depth rest
    rw [show opening :: (word ++ [closing]) ++ rest = opening :: (word ++ closing :: rest) by simp,
      h.paren hopening hclosing, h.paren hopening hclosing]
    rfl
  · intro depth
    rw [h.paren hopening hclosing]
    rfl

/-- Every derived word is balanced. -/
theorem Derives.balanced {phrase : Phrase D} (h : Derives phrase) : Balanced phrase.word := by
  induction h with
  | number token hkind => exact Balanced.nil.cons (by simp [hkind]) (by simp [hkind])
  | nodeRef token hkind => exact Balanced.nil.cons (by simp [hkind]) (by simp [hkind])
  | callEmpty name opening closing hname hopening hclosing =>
      exact (Balanced.nil.paren_balanced hopening hclosing).cons (by simp [hname]) (by simp [hname])
  | call name opening closing hname hopening hclosing _ ih =>
      exact (ih.paren_balanced hopening hclosing).cons (by simp [hname]) (by simp [hname])
  | unary op hop _ ih =>
      refine ih.cons ?_ ?_
      · rcases hop with hop | hop | hop <;> simp [hop]
      · rcases hop with hop | hop | hop <;> simp [hop]
  | paren opening closing hopening hclosing _ ih => exact ih.paren_balanced hopening hclosing
  | lastArgument _ _ ih => exact ih
  | moreArguments comma hcomma _ _ ih ih' =>
      exact ih.concat (ih'.cons (by simp [hcomma]) (by simp [hcomma]))
  | expression _ _ ih ih' => exact ih.concat ih'
  | done _ _ => exact Balanced.nil
  | ternary question colon hquestion hcolon _ _ _ ih₁ ih₂ ih₃ =>
      refine Balanced.cons ?_ (by simp [hquestion]) (by simp [hquestion])
      exact ih₁.concat ((ih₂.concat ih₃).cons (by simp [hcolon]) (by simp [hcolon]))
  | binary op hoperator _ _ _ ih₁ ih₂ =>
      obtain ⟨-, hleft, hright⟩ := isOperator_of_leftBindingPower hoperator
      exact (ih₁.concat ih₂).cons hleft hright

/-! ### Appending a ternary -/

/-- A ternary at the root. -/
def ExpressionTree.isTernary : ExpressionTree D → Bool
  | .ternary _ _ _ _ => true
  | _ => false

section AppendTernary

variable {question colon : Token D} {thenWord elseWord : List (Token D)}
  {thenExpr elseExpr : ExpressionTree D}

/-- The word `? t : e`. -/
def ternaryTail (question colon : Token D) (thenWord elseWord : List (Token D)) : List (Token D) :=
  question :: (thenWord ++ colon :: elseWord)

/-- What a phrase that ends at `EndOfFile` becomes when `? t : e` is appended to its word. -/
def TernaryAppended (question colon : Token D) (thenWord elseWord : List (Token D))
    (thenExpr elseExpr : ExpressionTree D) : Phrase D → Prop
  | .primary follow word e => follow = .endOfFile →
      (operatorAtDepth 0 word = false ∧ ∀ kind, Derives (.primary kind word e)) ∨
      (operatorAtDepth 0 word = true ∧ ∃ e', e'.isTernary = false ∧
        Derives (.primary .endOfFile (word ++ ternaryTail question colon thenWord elseWord) e'))
  | .arguments _ _ _ => True
  | .expression minBindingPower follow word e => follow = .endOfFile →
      ∃ e', Derives (.expression minBindingPower .endOfFile
          (word ++ ternaryTail question colon thenWord elseWord) e') ∧
        if operatorAtDepth 0 word then e'.isTernary = false
        else e' = .ternary e thenExpr elseExpr (lastSpan elseWord)
  | .operators minBindingPower follow lhs word _ => follow = .endOfFile →
      ∃ e', Derives (.operators minBindingPower .endOfFile lhs
          (word ++ ternaryTail question colon thenWord elseWord) e') ∧
        if word = [] then e' = .ternary lhs thenExpr elseExpr (lastSpan elseWord)
        else e'.isTernary = false

/-- The loop with no tokens of its own has stopped. -/
theorem Derives.operators_nil {minBindingPower : Int} {follow : TokenKind}
    {lhs e : ExpressionTree D} (h : Derives (.operators minBindingPower follow lhs [] e)) :
    e = lhs ∧ follow ≠ .question ∧ leftBindingPower follow < minBindingPower := by
  cases h with
  | done hquestion hpower => exact ⟨rfl, hquestion, hpower⟩

/-- A loop with tokens of its own starts with an operator or with `'?'`. -/
theorem Derives.operators_cons {minBindingPower : Int} {follow : TokenKind}
    {lhs e : ExpressionTree D} {op : Token D} {rest : List (Token D)}
    (h : Derives (.operators minBindingPower follow lhs (op :: rest) e)) :
    op.kind = .question ∨ 0 ≤ leftBindingPower op.kind := by
  cases h with
  | ternary _ _ hquestion => exact Or.inl hquestion
  | binary _ hoperator => exact Or.inr hoperator

/-- A loop that starts in front of `? t : e` takes the tree built so far as the condition. -/
theorem Derives.operators_ternaryTail {minBindingPower : Int} (lhs : ExpressionTree D)
    (hquestion : question.kind = .question) (hcolon : colon.kind = .colon)
    (hthen : Derives (.expression 0 .colon thenWord thenExpr))
    (helse : Derives (.expression 0 .endOfFile elseWord elseExpr))
    (hpower : leftBindingPower .endOfFile < minBindingPower) :
    Derives (.operators minBindingPower .endOfFile lhs
      (ternaryTail question colon thenWord elseWord)
      (.ternary lhs thenExpr elseExpr (lastSpan elseWord))) := by
  have h : Derives (.operators minBindingPower .endOfFile lhs
      (question :: (thenWord ++ colon :: (elseWord ++ [])))
      (.ternary lhs thenExpr elseExpr (lastSpan elseWord))) :=
    .ternary question colon hquestion hcolon hthen helse (.done (by simp) hpower)
  rwa [List.append_nil] at h

/-- **Appending a ternary.**  By induction on the derivation: what is behind a word only matters to the
innermost operand that the word ends with. -/
theorem appendTernary {phrase : Phrase D} (h : Derives phrase)
    (hquestion : question.kind = .question) (hcolon : colon.kind = .colon)
    (hthen : Derives (.expression 0 .colon thenWord thenExpr))
    (helse : Derives (.expression 0 .endOfFile elseWord elseExpr))
    (hfree : ∀ token ∈ phrase.word, token.kind ≠ .question) :
    TernaryAppended question colon thenWord elseWord thenExpr elseExpr phrase := by
  induction h with
  | number token hkind =>
      intro _
      refine Or.inl ⟨?_, fun _ => .number token hkind⟩
      simp [operatorAtDepth, hkind, isOperator]
  | nodeRef token hkind =>
      intro _
      refine Or.inl ⟨?_, fun _ => .nodeRef token hkind⟩
      simp [operatorAtDepth, hkind, isOperator]
  | callEmpty name opening closing hname hopening hclosing =>
      intro _
      refine Or.inl ⟨?_, fun _ => .callEmpty name opening closing hname hopening hclosing⟩
      simp [operatorAtDepth, hname, hopening, hclosing, isOperator]
  | @call _ word _ name opening closing hname hopening hclosing hargs _ =>
      intro _
      refine Or.inl ⟨?_, fun _ => .call name opening closing hname hopening hclosing hargs⟩
      have hparen : operatorAtDepth 0 (opening :: (word ++ [closing])) = false :=
        hargs.balanced.paren hopening hclosing 0 []
      rw [operatorAtDepth_cons (by simp [hname]) (by simp [hname]), hparen]
      simp [hname, isOperator]
  | unary op hop hrhs ih =>
      intro hfollow
      subst hfollow
      obtain ⟨e', hderives, -⟩ :=
        ih (fun token htoken => hfree token (List.mem_cons_of_mem _ htoken)) rfl
      refine Or.inr ⟨?_, .unary op.kind e' op.span, rfl, .unary op hop hderives⟩
      rcases hop with hop | hop | hop <;> simp [operatorAtDepth, hop, isOperator]
  | paren opening closing hopening hclosing he _ =>
      intro _
      refine Or.inl ⟨?_, fun _ => .paren opening closing hopening hclosing he⟩
      exact he.balanced.paren hopening hclosing 0 []
  | lastArgument _ _ _ => trivial
  | moreArguments _ _ _ _ _ _ => trivial
  | @expression minBindingPower follow word lhs word' e hprimary hoperators ih ih' =>
      intro hfollow
      subst hfollow
      have hfree₁ : ∀ token ∈ word, token.kind ≠ .question :=
        fun token htoken => hfree token (List.mem_append_left _ htoken)
      have hfree₂ : ∀ token ∈ word', token.kind ≠ .question :=
        fun token htoken => hfree token (List.mem_append_right _ htoken)
      cases word' with
      | nil =>
          obtain ⟨rfl, -, hpower⟩ := hoperators.operators_nil
          rw [List.append_nil]
          rcases ih hfree₁ rfl with ⟨hscan, hany⟩ | ⟨hscan, e', htree, hderives⟩
          · -- A primary that stands alone becomes the condition.
            exact ⟨_, .expression (hany question.kind)
              (.operators_ternaryTail e hquestion hcolon hthen helse hpower), by simp [hscan]⟩
          · -- The operand of a prefix operator takes the ternary.
            refine ⟨e', ?_, by simp [hscan, htree]⟩
            rw [← List.append_nil (word ++ ternaryTail question colon thenWord elseWord)]
            exact .expression hderives (.done (by simp) hpower)
      | cons op rest =>
          obtain ⟨e', hderives, htree⟩ := ih' hfree₂ rfl
          have hoperator : operatorAtDepth 0 (op :: rest) = true := by
            have hkind := hoperators.operators_cons.resolve_left (hfree₂ op (by simp))
            obtain ⟨hop, hleft, hright⟩ := isOperator_of_leftBindingPower hkind
            rw [operatorAtDepth_cons hleft hright, hop]
            rfl
          have hscan : operatorAtDepth 0 (word ++ op :: rest) = true := by
            rw [show word = (Phrase.primary _ word lhs).word from rfl, hprimary.balanced.append,
              hoperator, Bool.or_true]
          rw [List.append_assoc]
          exact ⟨e', .expression hprimary hderives, by simpa [hscan] using htree⟩
  | @done minBindingPower follow lhs _ hpower =>
      intro hfollow
      subst hfollow
      exact ⟨_, Derives.operators_ternaryTail lhs hquestion hcolon hthen helse hpower, by simp⟩
  | @ternary _ _ _ _ _ _ _ _ _ question' _ hquestion' _ _ _ _ _ _ _ =>
      exact absurd hquestion' (hfree question' (by simp [Phrase.word]))
  | @binary minBindingPower follow lhs rhsWord rhs word e op hoperator hpower hrhs hrest ih₁ ih₂ =>
      intro hfollow
      subst hfollow
      have hfree₁ : ∀ token ∈ rhsWord, token.kind ≠ .question :=
        fun token htoken => hfree token (by simp [Phrase.word, htoken])
      have hfree₂ : ∀ token ∈ word, token.kind ≠ .question :=
        fun token htoken => hfree token (by simp [Phrase.word, htoken])
      cases word with
      | nil =>
          -- The last operand takes the ternary.
          obtain ⟨rfl, -, hdone⟩ := hrest.operators_nil
          obtain ⟨rhs', hderives, -⟩ := ih₁ hfree₁ rfl
          have h : Derives (.operators minBindingPower .endOfFile lhs
              (op :: (rhsWord ++ ternaryTail question colon thenWord elseWord ++ []))
              (.binary op.kind lhs rhs'
                (lastSpan (rhsWord ++ ternaryTail question colon thenWord elseWord)))) :=
            .binary op hoperator hpower hderives (.done (by simp) hdone)
          rw [List.append_nil] at h ⊢
          exact ⟨_, h, by simp [ExpressionTree.isTernary]⟩
      | cons op' rest =>
          obtain ⟨e', hderives, htree⟩ := ih₂ hfree₂ rfl
          refine ⟨e', ?_, htree⟩
          rw [List.cons_append, List.append_assoc]
          exact .binary op hoperator hpower hrhs hderives

end AppendTernary

/-! ### The token behind an expression -/

def Phrase.withFollow (kind : TokenKind) : Phrase D → Phrase D
  | .primary _ word e => .primary kind word e
  | .arguments _ word args => .arguments kind word args
  | .expression minBindingPower _ word e => .expression minBindingPower kind word e
  | .operators minBindingPower _ lhs word e => .operators minBindingPower kind lhs word e

def Phrase.follow : Phrase D → TokenKind
  | .primary follow _ _ => follow
  | .arguments follow _ _ => follow
  | .expression _ follow _ _ => follow
  | .operators _ follow _ _ _ => follow

/-- A phrase that ends in front of `EndOfFile` ends in front of `':'` as well: neither token
continues an expression. -/
theorem Derives.before_colon {phrase : Phrase D} (h : Derives phrase)
    (hfollow : phrase.follow = .endOfFile) : Derives (phrase.withFollow .colon) := by
  induction h with
  | number token hkind => exact .number token hkind
  | nodeRef token hkind => exact .nodeRef token hkind
  | callEmpty name opening closing hname hopening hclosing =>
      exact .callEmpty name opening closing hname hopening hclosing
  | call name opening closing hname hopening hclosing hargs _ =>
      exact .call name opening closing hname hopening hclosing hargs
  | unary op hop _ ih => exact .unary op hop (ih hfollow)
  | paren opening closing hopening hclosing he _ => exact .paren opening closing hopening hclosing he
  | lastArgument _ _ ih => exact .lastArgument (by simp) (ih hfollow)
  | moreArguments comma hcomma he _ _ ih => exact .moreArguments comma hcomma he (ih hfollow)
  | @expression _ _ _ _ word' _ hprimary _ ih ih' =>
      cases word' with
      | nil => exact .expression (ih hfollow) (ih' hfollow)
      | cons token word' => exact .expression hprimary (ih' hfollow)
  | done _ hpower =>
      cases hfollow
      exact .done (by simp) hpower
  | @ternary _ _ _ _ _ _ _ word _ question colon hquestion hcolon hthen helse _ _ ih ih' =>
      cases word with
      | nil => exact .ternary question colon hquestion hcolon hthen (ih hfollow) (ih' hfollow)
      | cons token word => exact .ternary question colon hquestion hcolon hthen helse (ih' hfollow)
  | @binary _ _ _ _ _ word _ op hoperator hpower hrhs _ ih ih' =>
      cases word with
      | nil => exact .binary op hoperator hpower (ih hfollow) (ih' hfollow)
      | cons token word => exact .binary op hoperator hpower hrhs (ih' hfollow)

/-! ### The whole formula -/

/-- The tokens of an expression that parses on its own, in front of `EndOfFile`. -/
def ParsesAlone [Double D] (word : List (Token D)) (e : ExpressionTree D) : Prop :=
  (∀ token ∈ word, token.kind ≠ .endOfFile) ∧
    ∃ eof : Token D, eof.kind = .endOfFile ∧ Parser.parse (word ++ [eof]) false = .ok e

theorem parsesAlone_iff [Double D] {word : List (Token D)} {e : ExpressionTree D} :
    ParsesAlone word e ↔ (∀ token ∈ word, token.kind ≠ .endOfFile) ∧
      Derives (.expression 0 .endOfFile word e) := by
  constructor
  · rintro ⟨hword, eof, heof, hparse⟩
    exact ⟨hword, (Parser.parse_eq_ok_iff heof hword).mp hparse⟩
  · rintro ⟨hword, hderives⟩
    refine ⟨hword, ⟨.endOfFile, [], {}, Double.zero⟩, rfl, ?_⟩
    exact (Parser.parse_eq_ok_iff rfl hword).mpr hderives

/-- **The condition of a ternary.**  For a ternary-free condition, `c ? t : e` parses to the ternary
of the three separate parses exactly when `c` has no operator outside parentheses. -/
theorem parse_ternary_eq_iff [Double D] {condWord thenWord elseWord : List (Token D)}
    {cond thenExpr elseExpr : ExpressionTree D} {question colon eof : Token D}
    (hcond : ParsesAlone condWord cond) (hfree : ∀ token ∈ condWord, token.kind ≠ .question)
    (hthen : ParsesAlone thenWord thenExpr) (helse : ParsesAlone elseWord elseExpr)
    (hquestion : question.kind = .question) (hcolon : colon.kind = .colon)
    (heof : eof.kind = .endOfFile) :
    (∃ span, Parser.parse (condWord ++ question :: (thenWord ++ colon :: elseWord) ++ [eof]) false =
        .ok (.ternary cond thenExpr elseExpr span)) ↔
      operatorAtDepth 0 condWord = false := by
  obtain ⟨hcondWord, hcond⟩ := parsesAlone_iff.mp hcond
  obtain ⟨hthenWord, hthen⟩ := parsesAlone_iff.mp hthen
  obtain ⟨helseWord, helse⟩ := parsesAlone_iff.mp helse
  have hbody : ∀ token ∈ condWord ++ question :: (thenWord ++ colon :: elseWord),
      token.kind ≠ .endOfFile := by
    intro token htoken
    simp only [List.mem_append, List.mem_cons] at htoken
    rcases htoken with htoken | rfl | htoken | rfl | htoken
    · exact hcondWord token htoken
    · simp [hquestion]
    · exact hthenWord token htoken
    · simp [hcolon]
    · exact helseWord token htoken
  obtain ⟨e', hderives, htree⟩ :=
    appendTernary hcond hquestion hcolon (hthen.before_colon rfl) helse hfree rfl
  have hparse := (Parser.parse_eq_ok_iff heof hbody).mpr hderives
  constructor
  · rintro ⟨span, hternary⟩
    obtain rfl := Except.ok.inj (hparse.symm.trans hternary)
    by_contra hoperator
    rw [Bool.not_eq_false] at hoperator
    simp [hoperator, ExpressionTree.isTernary] at htree
  · intro hoperator
    simp only [hoperator, Bool.false_eq_true, if_false] at htree
    exact ⟨lastSpan elseWord, htree ▸ hparse⟩

section Instances

/-- A number token with the value `n`. -/
private def numberToken (n : Nat) : Token NanRat := ⟨.number, [], {}, Double.ofNat n⟩

/-- A token that carries no value. -/
private def plainToken (kind : TokenKind) : Token NanRat := ⟨kind, [], {}, Double.zero⟩

private def numberTree (n : Nat) : ExpressionTree NanRat := .literal (Double.ofNat n) {}

private theorem parsesAlone_number (n : Nat) : ParsesAlone [numberToken n] (numberTree n) :=
  ⟨by simp [numberToken], plainToken .endOfFile, rfl, rfl⟩

/-- The words `1 < 2`, `3` and `4` parse alone, and `1 < 2 ? 3 : 4` is not the ternary of the three
trees: it is the comparison of `1` with `2 ? 3 : 4`. -/
theorem comparison_is_not_the_condition :
    let condWord := [numberToken 1, plainToken .less, numberToken 2]
    ParsesAlone condWord (.binary .less (numberTree 1) (numberTree 2) {}) ∧
      (∀ token ∈ condWord, token.kind ≠ .question) ∧
      ParsesAlone [numberToken 3] (numberTree 3) ∧ ParsesAlone [numberToken 4] (numberTree 4) ∧
      Parser.parse (condWord ++ plainToken .question :: ([numberToken 3] ++
          plainToken .colon :: [numberToken 4]) ++ [plainToken .endOfFile]) false =
        .ok (.binary .less (numberTree 1)
          (.ternary (numberTree 2) (numberTree 3) (numberTree 4) {}) {}) ∧
      ¬ ∃ span, Parser.parse (condWord ++ plainToken .question :: ([numberToken 3] ++
          plainToken .colon :: [numberToken 4]) ++ [plainToken .endOfFile]) false =
        .ok (.ternary (.binary .less (numberTree 1) (numberTree 2) {}) (numberTree 3)
          (numberTree 4) span) := by
  refine ⟨⟨by simp [numberToken, plainToken], plainToken .endOfFile, rfl, rfl⟩,
    by simp [numberToken, plainToken], parsesAlone_number 3, parsesAlone_number 4, rfl, ?_⟩
  rintro ⟨span, hternary⟩
  have hparse := Except.ok.inj hternary
  cases hparse

/-- In `(1 < 2) ? 3 : 4` the comparison is the condition. -/
theorem parenthesised_comparison_is_the_condition :
    ∃ span, Parser.parse ([plainToken .leftParen, numberToken 1, plainToken .less, numberToken 2,
        plainToken .rightParen] ++ plainToken .question :: ([numberToken 3] ++
          plainToken .colon :: [numberToken 4]) ++ [plainToken .endOfFile]) false =
      .ok (.ternary (.binary .less (numberTree 1) (numberTree 2) {}) (numberTree 3) (numberTree 4)
        span) :=
  (parse_ternary_eq_iff
    ⟨by simp [numberToken, plainToken], plainToken .endOfFile, rfl, rfl⟩
    (by simp [numberToken, plainToken]) (parsesAlone_number 3) (parsesAlone_number 4)
    rfl rfl rfl).mpr rfl

end Instances

end StatForge.Dsl
