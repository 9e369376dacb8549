import StatForge.Dsl.ParserCases

/-!
# Derivations: what the parser accepts

`Derives` is a relational reading of the Pratt parser that forgets positions and fuel.  A phrase says
which function of the parser consumes which word of tokens to which tree; since the operator loop
looks at one token of context, every phrase also carries the kind of the token behind the word.

* `soundAt` — a parser function that succeeds on a token list ending in `EndOfFile` consumes a derived
  word and stops in front of a token of the recorded kind.
* `parsed_of_derives` — a derived word in front of a token of the recorded kind is parsed to the
  derived tree, whatever else the token list holds, with `2 · length + 2` fuel.
* `parse_eq_ok_iff` — `parse(false)` succeeds on a body followed by `EndOfFile` exactly when the body
  is a derived expression.
-/

namespace StatForge.Dsl

open ExceptBind

variable {D : Type}

/-- The kind of the first token of a word, or of the token behind the empty word. -/
def nextKind (word : List (Token D)) (follow : TokenKind) : TokenKind :=
  match word with
  | [] => follow
  | token :: _ => token.kind

@[simp] theorem nextKind_cons (token : Token D) (word : List (Token D)) (follow : TokenKind) :
    nextKind (token :: word) follow = token.kind := rfl

theorem nextKind_append (xs ys : List (Token D)) (follow : TokenKind) :
    nextKind (xs ++ ys) follow = nextKind xs (nextKind ys follow) := by
  cases xs <;> rfl

/-- The span of the last token of a word: what `peek(-1)` shows behind it. -/
def lastSpan (word : List (Token D)) : Span :=
  match word.getLast? with
  | some token => token.span
  | none => {}

/-- A parser function, the word it consumes, the tree it returns, and the kind of the next token. -/
inductive Phrase (D : Type)
  | primary (follow : TokenKind) (word : List (Token D)) (e : ExpressionTree D)
  | arguments (follow : TokenKind) (word : List (Token D)) (args : List (ExpressionTree D))
  | expression (minBindingPower : Int) (follow : TokenKind) (word : List (Token D))
      (e : ExpressionTree D)
  | operators (minBindingPower : Int) (follow : TokenKind) (lhs : ExpressionTree D)
      (word : List (Token D)) (e : ExpressionTree D)

/-- The derivable phrases: one rule for each successful path through the parser's functions. -/
inductive Derives : Phrase D → Prop
  | number {follow} (token : Token D) (hkind : token.kind = .number) :
      Derives (.primary follow [token] (.literal token.number token.span))
  | nodeRef {follow} (token : Token D) (hkind : token.kind = .nodeRef) :
      Derives (.primary follow [token] (.ref token.lexeme token.span))
  | callEmpty {follow} (name opening closing : Token D) (hname : name.kind = .identifier)
      (hopening : opening.kind = .leftParen) (hclosing : closing.kind = .rightParen) :
      Derives (.primary follow [name, opening, closing] (.call name.lexeme [] name.span))
  | call {follow word args} (name opening closing : Token D) (hname : name.kind = .identifier)
      (hopening : opening.kind = .leftParen) (hclosing : closing.kind = .rightParen)
      (hargs : Derives (.arguments .rightParen word args)) :
      Derives (.primary follow (name :: opening :: (word ++ [closing]))
        (.call name.lexeme args name.span))
  | unary {follow word rhs} (op : Token D)
      (hop : op.kind = .plus ∨ op.kind = .minus ∨ op.kind = .bang)
      (hrhs : Derives (.expression 11 follow word rhs)) :
      Derives (.primary follow (op :: word) (.unary op.kind rhs op.span))
  | paren {follow word e} (opening closing : Token D) (hopening : opening.kind = .leftParen)
      (hclosing : closing.kind = .rightParen) (he : Derives (.expression 0 .rightParen word e)) :
      Derives (.primary follow (opening :: (word ++ [closing])) e)
  | lastArgument {follow word e} (hfollow : follow ≠ .comma)
      (he : Derives (.expression 0 follow word e)) : Derives (.arguments follow word [e])
  | moreArguments {follow word e word' args} (comma : Token D) (hcomma : comma.kind = .comma)
      (he : Derives (.expression 0 .comma word e)) (hargs : Derives (.arguments follow word' args)) :
      Derives (.arguments follow (word ++ comma :: word') (e :: args))
  | expression {minBindingPower follow word lhs word' e}
      (hprimary : Derives (.primary (nextKind word' follow) word lhs))
      (hoperators : Derives (.operators minBindingPower follow lhs word' e)) :
      Derives (.expression minBindingPower follow (word ++ word') e)
  | done {minBindingPower follow lhs} (hquestion : follow ≠ .question)
      (hpower : leftBindingPower follow < minBindingPower) :
      Derives (.operators minBindingPower follow lhs [] lhs)
  | ternary {minBindingPower follow lhs thenWord thenExpr elseWord elseExpr word e}
      (question colon : Token D) (hquestion : question.kind = .question)
      (hcolon : colon.kind = .colon)
      (hthen : Derives (.expression 0 .colon thenWord thenExpr))
      (helse : Derives (.expression 0 (nextKind word follow) elseWord elseExpr))
      (hrest : Derives (.operators minBindingPower follow
        (.ternary lhs thenExpr elseExpr (lastSpan elseWord)) word e)) :
      Derives (.operators minBindingPower follow lhs
        (question :: (thenWord ++ colon :: (elseWord ++ word))) e)
  | binary {minBindingPower follow lhs rhsWord rhs word e} (op : Token D)
      (hoperator : 0 ≤ leftBindingPower op.kind)
      (hpower : minBindingPower ≤ leftBindingPower op.kind)
      (hrhs : Derives (.expression (rightBindingPower op.kind) (nextKind word follow) rhsWord rhs))
      (hrest : Derives (.operators minBindingPower follow
        (.binary op.kind lhs rhs (lastSpan rhsWord)) word e)) :
      Derives (.operators minBindingPower follow lhs (op :: (rhsWord ++ word)) e)

theorem ne_endOfFile_of_leftBindingPower {kind : TokenKind} (h : 0 ≤ leftBindingPower kind) :
    kind ≠ .endOfFile := by
  rintro rfl
  simp [leftBindingPower] at h

theorem ne_question_of_leftBindingPower {kind : TokenKind} (h : 0 ≤ leftBindingPower kind) :
    kind ≠ .question := by
  rintro rfl
  simp [leftBindingPower] at h

/-! ### Shape of derived words -/

/-- The words a phrase can derive for a complete operand. -/
def Phrase.operandWord : Phrase D → Option (List (Token D))
  | .primary _ word _ => some word
  | .arguments _ word _ => some word
  | .expression _ _ word _ => some word
  | .operators _ _ _ _ _ => none

/-- An operand starts with a token, and not with a closing parenthesis. -/
theorem Derives.nextKind_ne_rightParen {phrase : Phrase D} (h : Derives phrase)
    {word : List (Token D)} (hword : phrase.operandWord = some word) :
    nextKind word .rightParen ≠ .rightParen := by
  induction h generalizing word with
  | unary op hop _ _ =>
      cases hword
      rcases hop with hop | hop | hop <;> simp [hop]
  | lastArgument _ _ ih => exact ih hword
  | @moreArguments _ word₁ _ _ _ comma _ _ _ ih _ =>
      cases hword
      have hfirst := ih rfl
      cases word₁ with
      | nil => exact absurd rfl hfirst
      | cons first word₁ => exact hfirst
  | @expression _ _ word₁ _ _ _ _ _ ih _ =>
      cases hword
      have hfirst := ih rfl
      cases word₁ with
      | nil => exact absurd rfl hfirst
      | cons first word₁ => exact hfirst
  | done _ _ => cases hword
  | ternary _ _ _ _ _ _ _ _ _ _ => cases hword
  | binary _ _ _ _ _ _ _ => cases hword
  | _ => cases hword; simp [*]

theorem Derives.word_ne_nil {phrase : Phrase D} (h : Derives phrase) {word : List (Token D)}
    (hword : phrase.operandWord = some word) : word ≠ [] := by
  rintro rfl
  exact h.nextKind_ne_rightParen hword rfl

/-! ### Single steps of the parser on the unread tokens -/

namespace Parser

/-- The tokens that are still unread. -/
def rest (p : Parser D) : List (Token D) := p.tokens.drop p.pos

/-- The parser after it has consumed `n` tokens. -/
def skip (p : Parser D) (n : Nat) : Parser D := { p with pos := p.pos + n }

@[simp] theorem skip_skip (p : Parser D) (m n : Nat) : (p.skip m).skip n = p.skip (m + n) := by
  simp [skip, Nat.add_assoc]

/-- Skipping a word that the unread tokens start with. -/
theorem rest_skip {p : Parser D} (word : List (Token D)) {tail : List (Token D)}
    (h : p.rest = word ++ tail) : (p.skip word.length).rest = tail := by
  have hdrop : (p.skip word.length).rest = p.rest.drop word.length := by
    simp [rest, skip, List.drop_drop]
  rw [hdrop, h, List.drop_left]

theorem getElem?_of_rest {p : Parser D} {token : Token D} {tail : List (Token D)}
    (h : p.rest = token :: tail) : p.tokens[p.pos]? = some token := by
  have hhead : (p.tokens.drop p.pos)[0]? = some token := by
    rw [show p.tokens.drop p.pos = token :: tail from h]
    rfl
  simpa using hhead

theorem pos_lt_of_rest {p : Parser D} {token : Token D} {tail : List (Token D)}
    (h : p.rest = token :: tail) : p.pos < p.tokens.length := by
  have hlen := congrArg List.length h
  simp only [rest, List.length_drop, List.length_cons] at hlen
  omega

theorem wrap_natCast (n : Nat) : wrap (n : Int) = n := by
  rw [wrap, if_neg (by omega), Int.toNat_natCast]

/-- In front of an unread token, `peek()` shows it. -/
theorem peek_of_rest {p : Parser D} {token : Token D} {tail : List (Token D)}
    (h : p.rest = token :: tail) : p.peek = .ok token := by
  have hlt := pos_lt_of_rest h
  have hlast : wrap ((p.tokens.length : Int) - 1) = p.tokens.length - 1 := by
    rw [show (p.tokens.length : Int) - 1 = ((p.tokens.length - 1 : Nat) : Int) by omega]
    exact wrap_natCast _
  have hindex : min (wrap ((p.pos : Int) + 0)) (wrap ((p.tokens.length : Int) - 1)) = p.pos := by
    rw [hlast, Int.add_zero, wrap_natCast]
    omega
  simp only [peek, hindex, getElem?_of_rest h]

theorem advance_of_rest {p : Parser D} {token : Token D} {tail : List (Token D)}
    (h : p.rest = token :: tail) : p.advance = .ok (token, p.skip 1) := by
  simp [advance, getElem?_of_rest h, skip]

theorem matchKind_of_rest {p : Parser D} {token : Token D} {tail : List (Token D)}
    (h : p.rest = token :: tail) (kind : TokenKind) :
    p.matchKind kind = .ok (if token.kind = kind then (true, p.skip 1) else (false, p)) := by
  by_cases hkind : token.kind = kind
  · simp [matchKind, peek_of_rest h, hkind, skip, bind, Except.bind]
  · simp [matchKind, peek_of_rest h, hkind, bind, Except.bind]

theorem matchKind_true_of_rest {p : Parser D} {token : Token D} {tail : List (Token D)}
    {kind : TokenKind} (h : p.rest = token :: tail) (hkind : token.kind = kind) :
    p.matchKind kind = .ok (true, p.skip 1) := by
  rw [matchKind_of_rest h, if_pos hkind]

theorem matchKind_false_of_rest {p : Parser D} {token : Token D} {tail : List (Token D)}
    {kind : TokenKind} (h : p.rest = token :: tail) (hkind : token.kind ≠ kind) :
    p.matchKind kind = .ok (false, p) := by
  rw [matchKind_of_rest h, if_neg hkind]

/-- Behind a consumed word, `peek(-1)` shows its last token. -/
theorem peek_neg_one {p : Parser D} {word tail : List (Token D)} (hword : word ≠ [])
    (h : p.rest = word ++ tail) (htail : tail ≠ []) :
    ∃ token, (p.skip word.length).peek (-1) = .ok token ∧ token.span = lastSpan word := by
  obtain ⟨init, token, rfl⟩ : ∃ init token, word = init ++ [token] :=
    ⟨word.dropLast, word.getLast hword, (List.dropLast_concat_getLast hword).symm⟩
  obtain ⟨next, tail', rfl⟩ := List.exists_cons_of_ne_nil htail
  refine ⟨token, ?_, by simp [lastSpan]⟩
  -- `peek(-1)` at the end of the word is `peek()` one token earlier.
  have hinit : (p.skip init.length).rest = token :: next :: tail' := by
    apply rest_skip init
    simpa using h
  have hpos := pos_lt_of_rest (rest_skip (init ++ [token]) h)
  have hpeek := peek_of_rest hinit
  have hoffset : (((p.skip (init ++ [token]).length).pos : Int) + (-1)) =
      ((p.skip init.length).pos : Int) + 0 := by
    simp [skip]
    omega
  simp only [peek, hoffset]
  exact hpeek

/-- The unread tokens end with `EndOfFile`. -/
def Terminated (tokens : List (Token D)) : Prop :=
  ∃ body eof, tokens = body ++ [eof] ∧ eof.kind = .endOfFile

theorem Terminated.exists_cons {tokens : List (Token D)} (h : Terminated tokens) :
    ∃ token tail, tokens = token :: tail := by
  obtain ⟨body, eof, rfl, -⟩ := h
  cases body with
  | nil => exact ⟨eof, [], rfl⟩
  | cons token body => exact ⟨token, body ++ [eof], rfl⟩

theorem Terminated.ne_nil {tokens : List (Token D)} (h : Terminated tokens) : tokens ≠ [] := by
  obtain ⟨token, tail, rfl⟩ := h.exists_cons
  exact List.cons_ne_nil _ _

/-- Consuming a token other than `EndOfFile` leaves a terminated list. -/
theorem Terminated.tail {token : Token D} {tail : List (Token D)}
    (h : Terminated (token :: tail)) (hkind : token.kind ≠ .endOfFile) : Terminated tail := by
  obtain ⟨body, eof, hlist, heof⟩ := h
  cases body with
  | nil =>
      obtain ⟨rfl, -⟩ := List.cons.inj hlist
      exact absurd heof hkind
  | cons first body =>
      obtain ⟨-, rfl⟩ := List.cons.inj hlist
      exact ⟨body, eof, rfl, heof⟩

/-! ### Soundness -/

/-- The word lies between `p` and `p'`, and behind `p'` the list still ends with `EndOfFile`. -/
structure Reads (p : Parser D) (word : List (Token D)) (p' : Parser D) : Prop where
  rest : p.rest = word ++ p'.rest
  skip : p' = p.skip word.length
  terminated : Terminated p'.rest

section Reads

variable {p p' p'' : Parser D} {word word' : List (Token D)} {token : Token D}

theorem Reads.nil (hterm : Terminated p.rest) : Reads p [] p := ⟨rfl, rfl, hterm⟩

theorem Reads.append (h : Reads p word p') (h' : Reads p' word' p'') :
    Reads p (word ++ word') p'' where
  rest := by rw [h.rest, h'.rest, List.append_assoc]
  skip := by rw [h'.skip, h.skip, skip_skip, List.length_append]
  terminated := h'.terminated

theorem Reads.cons (h : Reads p [token] p') (h' : Reads p' word p'') :
    Reads p (token :: word) p'' :=
  h.append h'

theorem Reads.single {tail : List (Token D)} (hterm : Terminated p.rest)
    (hrest : p.rest = token :: tail) (hkind : token.kind ≠ .endOfFile) :
    Reads p [token] (p.skip 1) := by
  have htail : (p.skip 1).rest = tail := rest_skip [token] hrest
  exact ⟨htail ▸ hrest, rfl, htail ▸ (hrest ▸ hterm).tail hkind⟩

/-- Behind a word that has been read, `peek(-1)` shows its last token. -/
theorem Reads.span_of_peek (h : Reads p word p') (hword : word ≠ [])
    (hpeek : p'.peek (-1) = .ok token) : token.span = lastSpan word := by
  obtain ⟨last, hlast, hspan⟩ := peek_neg_one hword h.rest h.terminated.ne_nil
  rw [← h.skip, hpeek, Except.ok.injEq] at hlast
  exact hlast ▸ hspan

end Reads

/-- Between `p` and `p'` a word is consumed that has the property, given the kind behind it. -/
def Consumes (p p' : Parser D) (property : List (Token D) → TokenKind → Prop) : Prop :=
  ∃ word, Reads p word p' ∧ property word (nextKind p'.rest .endOfFile)

theorem advance_eq_ok {p p' : Parser D} {token : Token D} (hterm : Terminated p.rest)
    (h : p.advance = .ok (token, p')) (hkind : token.kind ≠ .endOfFile) : Reads p [token] p' := by
  obtain ⟨token', tail, hrest⟩ := hterm.exists_cons
  obtain ⟨rfl, rfl⟩ := pair_unique (advance_of_rest hrest) h
  exact .single hterm hrest hkind

/-- A `match` that answers `true` has read a token of the kind. -/
theorem matchKind_eq_true {p p' : Parser D} {kind : TokenKind} (hterm : Terminated p.rest)
    (hkind : kind ≠ .endOfFile) (h : p.matchKind kind = .ok (true, p')) :
    ∃ token, Reads p [token] p' ∧ token.kind = kind := by
  obtain ⟨token, tail, hrest⟩ := hterm.exists_cons
  rw [matchKind_of_rest hrest] at h
  by_cases htoken : token.kind = kind
  · simp only [htoken, if_pos, Except.ok.injEq, Prod.mk.injEq, true_and] at h
    exact ⟨token, h ▸ .single hterm hrest (htoken ▸ hkind), htoken⟩
  · simp [htoken] at h

theorem matchKind_eq_false {p p' : Parser D} {kind : TokenKind} (hterm : Terminated p.rest)
    (h : p.matchKind kind = .ok (false, p')) :
    ∃ token tail, p.rest = token :: tail ∧ token.kind ≠ kind ∧ p' = p := by
  obtain ⟨token, tail, hrest⟩ := hterm.exists_cons
  rw [matchKind_of_rest hrest] at h
  by_cases hkind : token.kind = kind
  · simp [hkind] at h
  · simp only [hkind, if_false, Except.ok.injEq, Prod.mk.injEq, true_and] at h
    exact ⟨token, tail, hrest, hkind, h.symm⟩

/-- In front of a token that has been read, the kind of the next token is that of this one. -/
theorem nextKind_rest {p p' : Parser D} {token : Token D} {word : List (Token D)}
    (h : Reads p (token :: word) p') (follow : TokenKind) : nextKind p.rest follow = token.kind := by
  rw [h.rest, List.cons_append, nextKind_cons]

/-- Soundness of the four functions at one fuel. -/
structure SoundAt (D : Type) (fuel : Nat) : Prop where
  primary : ∀ (p p' : Parser D) e, Terminated p.rest → parsePrimary fuel p = .ok (e, p') →
    Consumes p p' fun word follow => Derives (.primary follow word e)
  arguments : ∀ (p p' : Parser D) args, Terminated p.rest →
    parseArguments fuel p = .ok (args, p') →
    Consumes p p' fun word follow => Derives (.arguments follow word args)
  expression : ∀ minBindingPower (p p' : Parser D) e, 0 ≤ minBindingPower → Terminated p.rest →
    parseExpression fuel minBindingPower p = .ok (e, p') →
    Consumes p p' fun word follow => Derives (.expression minBindingPower follow word e)
  operators : ∀ minBindingPower lhs (p p' : Parser D) e, 0 ≤ minBindingPower → Terminated p.rest →
    parseOperators fuel minBindingPower lhs p = .ok (e, p') →
    Consumes p p' fun word follow => Derives (.operators minBindingPower follow lhs word e)

theorem primary_sound {fuel : Nat} (ih : SoundAt D fuel) {p p' : Parser D} {e : ExpressionTree D}
    (hterm : Terminated p.rest) (h : parsePrimary (fuel + 1) p = .ok (e, p')) :
    Consumes p p' fun word follow => Derives (.primary follow word e) := by
  cases parsePrimary_cases h with
  | number hfirst hkind =>
      exact ⟨_, advance_eq_ok hterm hfirst (by simp [hkind]), .number _ hkind⟩
  | nodeRef hfirst hkind =>
      exact ⟨_, advance_eq_ok hterm hfirst (by simp [hkind]), .nodeRef _ hkind⟩
  | callEmpty hfirst hkind hopened hempty =>
      have hname := advance_eq_ok hterm hfirst (by simp [hkind])
      obtain ⟨opening, hopening, hopeningKind⟩ :=
        matchKind_eq_true hname.terminated (by simp) hopened
      obtain ⟨closing, hclosing, hclosingKind⟩ :=
        matchKind_eq_true hopening.terminated (by simp) hempty
      exact ⟨_, hname.cons (hopening.cons hclosing),
        .callEmpty _ opening closing hkind hopeningKind hclosingKind⟩
  | call hfirst hkind hopened hempty hargs hclosed =>
      have hname := advance_eq_ok hterm hfirst (by simp [hkind])
      obtain ⟨opening, hopening, hopeningKind⟩ :=
        matchKind_eq_true hname.terminated (by simp) hopened
      obtain ⟨_, _, -, -, rfl⟩ := matchKind_eq_false hopening.terminated hempty
      obtain ⟨word, hword, hderives⟩ := ih.arguments _ _ _ hopening.terminated hargs
      obtain ⟨closing, hclosing, hclosingKind⟩ :=
        matchKind_eq_true hword.terminated (by simp) hclosed
      rw [nextKind_rest hclosing, hclosingKind] at hderives
      exact ⟨_, hname.cons (hopening.cons (hword.append hclosing)),
        .call _ opening closing hkind hopeningKind hclosingKind hderives⟩
  | unary hfirst hkind hrhs =>
      have hop := advance_eq_ok hterm hfirst (by rcases hkind with hop | hop | hop <;> simp [hop])
      obtain ⟨word, hword, hderives⟩ := ih.expression 11 _ _ _ (by decide) hop.terminated hrhs
      exact ⟨_, hop.cons hword, .unary _ hkind hderives⟩
  | paren hfirst hkind hinner hclosed =>
      have hopening := advance_eq_ok hterm hfirst (by simp [hkind])
      obtain ⟨word, hword, hderives⟩ :=
        ih.expression 0 _ _ _ (Int.le_refl 0) hopening.terminated hinner
      obtain ⟨closing, hclosing, hclosingKind⟩ :=
        matchKind_eq_true hword.terminated (by simp) hclosed
      rw [nextKind_rest hclosing, hclosingKind] at hderives
      exact ⟨_, hopening.cons (hword.append hclosing), .paren _ closing hkind hclosingKind hderives⟩

theorem arguments_sound {fuel : Nat} (ih : SoundAt D fuel) {p p' : Parser D}
    {args : List (ExpressionTree D)} (hterm : Terminated p.rest)
    (h : parseArguments (fuel + 1) p = .ok (args, p')) :
    Consumes p p' fun word follow => Derives (.arguments follow word args) := by
  obtain ⟨arg, p₁, harg, hmore⟩ := parseArguments_cases h
  obtain ⟨word, hword, hderives⟩ := ih.expression 0 _ _ _ (Int.le_refl 0) hterm harg
  rcases hmore with ⟨hlast, rfl⟩ | ⟨p₂, rest, hmore, hrest, rfl⟩
  · obtain ⟨next, _, hnext, hcomma, rfl⟩ := matchKind_eq_false hword.terminated hlast
    refine ⟨word, hword, .lastArgument ?_ hderives⟩
    rw [hnext]
    exact hcomma
  · obtain ⟨comma, hcomma, hcommaKind⟩ := matchKind_eq_true hword.terminated (by simp) hmore
    obtain ⟨word', hword', hderives'⟩ := ih.arguments _ _ _ hcomma.terminated hrest
    rw [nextKind_rest hcomma, hcommaKind] at hderives
    exact ⟨word ++ comma :: word', hword.append (hcomma.cons hword'),
      .moreArguments comma hcommaKind hderives hderives'⟩

theorem expression_sound {fuel : Nat} (ih : SoundAt D fuel) {minBindingPower : Int}
    {p p' : Parser D} {e : ExpressionTree D} (hmin : 0 ≤ minBindingPower)
    (hterm : Terminated p.rest)
    (h : parseExpression (fuel + 1) minBindingPower p = .ok (e, p')) :
    Consumes p p' fun word follow => Derives (.expression minBindingPower follow word e) := by
  obtain ⟨lhs, p₁, hlhs, h⟩ := parseExpression_cases h
  obtain ⟨word, hword, hprimary⟩ := ih.primary _ _ _ hterm hlhs
  obtain ⟨word', hword', hoperators⟩ := ih.operators _ _ _ _ _ hmin hword.terminated h
  rw [hword'.rest, nextKind_append] at hprimary
  exact ⟨word ++ word', hword.append hword', .expression hprimary hoperators⟩

theorem operators_sound {fuel : Nat} (ih : SoundAt D fuel) {minBindingPower : Int}
    {lhs : ExpressionTree D} {p p' : Parser D} {e : ExpressionTree D} (hmin : 0 ≤ minBindingPower)
    (hterm : Terminated p.rest)
    (h : parseOperators (fuel + 1) minBindingPower lhs p = .ok (e, p')) :
    Consumes p p' fun word follow => Derives (.operators minBindingPower follow lhs word e) := by
  cases parseOperators_cases h with
  | done hasked hpeek hpower =>
      obtain ⟨token, tail, hnext, hquestion, rfl⟩ := matchKind_eq_false hterm hasked
      obtain rfl := Except.ok.inj ((peek_of_rest hnext).symm.trans hpeek)
      refine ⟨[], .nil hterm, .done ?_ ?_⟩
      · rw [hnext]
        exact hquestion
      · rw [hnext]
        exact hpower
  | ternary hasked hthen hseparated helse hpeek hrest =>
      obtain ⟨question, hquestion, hquestionKind⟩ := matchKind_eq_true hterm (by simp) hasked
      obtain ⟨thenWord, hthenWord, hthenDerives⟩ :=
        ih.expression 0 _ _ _ (Int.le_refl 0) hquestion.terminated hthen
      obtain ⟨colon, hcolon, hcolonKind⟩ :=
        matchKind_eq_true hthenWord.terminated (by simp) hseparated
      obtain ⟨elseWord, helseWord, helseDerives⟩ :=
        ih.expression 0 _ _ _ (Int.le_refl 0) hcolon.terminated helse
      obtain ⟨word, hword, hderives⟩ := ih.operators _ _ _ _ _ hmin helseWord.terminated hrest
      rw [helseWord.span_of_peek (helseDerives.word_ne_nil rfl) hpeek] at hderives
      rw [nextKind_rest hcolon, hcolonKind] at hthenDerives
      rw [hword.rest, nextKind_append] at helseDerives
      exact ⟨question :: (thenWord ++ colon :: (elseWord ++ word)),
        hquestion.cons (hthenWord.append (hcolon.cons (helseWord.append hword))),
        .ternary question colon hquestionKind hcolonKind hthenDerives helseDerives hderives⟩
  | binary hasked hpeek hpower hadvance hrhs hpeek' hrest =>
      obtain ⟨next, tail, hnext, -, rfl⟩ := matchKind_eq_false hterm hasked
      -- The operator that `peek()` has shown is the token that `advance()` returns.
      obtain rfl := Except.ok.inj ((peek_of_rest hnext).symm.trans hpeek)
      obtain ⟨rfl, rfl⟩ := pair_unique (advance_of_rest hnext) hadvance
      have hoperator := Int.le_trans hmin hpower
      have hop := advance_eq_ok hterm hadvance (ne_endOfFile_of_leftBindingPower hoperator)
      obtain ⟨rhsWord, hrhsWord, hrhsDerives⟩ :=
        ih.expression _ _ _ _ (rightBindingPower_nonneg hoperator) hop.terminated hrhs
      obtain ⟨word, hword, hderives⟩ := ih.operators _ _ _ _ _ hmin hrhsWord.terminated hrest
      rw [hrhsWord.span_of_peek (hrhsDerives.word_ne_nil rfl) hpeek'] at hderives
      rw [hword.rest, nextKind_append] at hrhsDerives
      exact ⟨next :: (rhsWord ++ word), hop.cons (hrhsWord.append hword),
        .binary next hoperator hpower hrhsDerives hderives⟩

/-- **Soundness.**  Whatever the fuel, a successful parse has consumed a derived word. -/
theorem soundAt (fuel : Nat) : SoundAt D fuel := by
  induction fuel with
  | zero =>
      constructor
      · intro p p' e _ h; simp [parsePrimary] at h
      · intro p p' args _ h; simp [parseArguments] at h
      · intro _ p p' e _ _ h; simp [parseExpression] at h
      · intro _ _ p p' e _ _ h; simp [parseOperators] at h
  | succ fuel ih =>
      exact ⟨fun _ _ _ => primary_sound ih, fun _ _ _ => arguments_sound ih,
        fun _ _ _ _ => expression_sound ih, fun _ _ _ _ _ => operators_sound ih⟩

/-! ### Completeness -/

/-- The parser function of the phrase, given enough fuel, parses the word wherever it stands in front
of a token of the recorded kind. -/
def Parsed : Phrase D → Prop
  | .primary follow word e => ∀ fuel p next tail, p.rest = word ++ next :: tail →
      next.kind = follow → 2 * word.length ≤ fuel →
      parsePrimary fuel p = .ok (e, p.skip word.length)
  | .arguments follow word args => ∀ fuel p next tail, p.rest = word ++ next :: tail →
      next.kind = follow → 2 * word.length + 2 ≤ fuel →
      parseArguments fuel p = .ok (args, p.skip word.length)
  | .expression minBindingPower follow word e => ∀ fuel p next tail, p.rest = word ++ next :: tail →
      next.kind = follow → 2 * word.length + 1 ≤ fuel →
      parseExpression fuel minBindingPower p = .ok (e, p.skip word.length)
  | .operators minBindingPower follow lhs word e => ∀ fuel p next tail,
      p.rest = word ++ next :: tail → next.kind = follow → 2 * word.length + 1 ≤ fuel →
      parseOperators fuel minBindingPower lhs p = .ok (e, p.skip word.length)

/-- A word followed by `next :: tail` is followed by some token of the kind that `nextKind` says. -/
theorem exists_next (word : List (Token D)) (next : Token D) (tail : List (Token D)) :
    ∃ first rest, word ++ next :: tail = first :: rest ∧ first.kind = nextKind word next.kind := by
  cases word with
  | nil => exact ⟨next, tail, rfl, rfl⟩
  | cons first word => exact ⟨first, word ++ next :: tail, rfl, rfl⟩

section Parsed

variable {follow : TokenKind} {word word' : List (Token D)} {e lhs : ExpressionTree D}
  {args : List (ExpressionTree D)} {minBindingPower : Int}

theorem parsePrimary_of_case {fuel : Nat} {p p' : Parser D} (hfuel : 0 < fuel)
    (h : PrimaryCase (fuel - 1) p e p') : parsePrimary fuel p = .ok (e, p') := by
  obtain ⟨fuel, rfl⟩ := Nat.exists_eq_add_of_lt hfuel
  rw [Nat.zero_add] at h ⊢
  exact h.parsePrimary

theorem parseOperators_of_case {fuel : Nat} {p p' : Parser D} (hfuel : 0 < fuel)
    (h : OperatorsCase (fuel - 1) minBindingPower lhs p e p') :
    parseOperators fuel minBindingPower lhs p = .ok (e, p') := by
  obtain ⟨fuel, rfl⟩ := Nat.exists_eq_add_of_lt hfuel
  rw [Nat.zero_add] at h ⊢
  exact h.parseOperators

theorem Parsed.callEmpty (name opening closing : Token D) (hname : name.kind = .identifier)
    (hopening : opening.kind = .leftParen) (hclosing : closing.kind = .rightParen) :
    Parsed (.primary follow [name, opening, closing] (.call name.lexeme [] name.span)) := by
  intro fuel p next tail hrest _ hfuel
  have hrest₁ : (p.skip 1).rest = opening :: closing :: next :: tail := rest_skip [name] hrest
  have hrest₂ : ((p.skip 1).skip 1).rest = closing :: next :: tail := rest_skip [opening] hrest₁
  exact parsePrimary_of_case (by simp at hfuel; omega)
    (.callEmpty (advance_of_rest hrest) hname (matchKind_true_of_rest hrest₁ hopening)
      (matchKind_true_of_rest hrest₂ hclosing))

theorem Parsed.call (name opening closing : Token D) (hname : name.kind = .identifier)
    (hopening : opening.kind = .leftParen) (hclosing : closing.kind = .rightParen)
    (hargs : Derives (.arguments .rightParen word args))
    (ih : Parsed (.arguments .rightParen word args)) :
    Parsed (.primary follow (name :: opening :: (word ++ [closing]))
      (.call name.lexeme args name.span)) := by
  intro fuel p next tail hrest _ hfuel
  have hrest₀ : p.rest = name :: opening :: (word ++ closing :: next :: tail) := by
    simpa using hrest
  have hrest₁ : (p.skip 1).rest = opening :: (word ++ closing :: next :: tail) :=
    rest_skip [name] hrest₀
  have hrest₂ : ((p.skip 1).skip 1).rest = word ++ closing :: next :: tail :=
    rest_skip [opening] hrest₁
  have hrest₃ : (((p.skip 1).skip 1).skip word.length).rest = closing :: next :: tail :=
    rest_skip _ hrest₂
  have hend : p.skip (name :: opening :: (word ++ [closing])).length =
      (((p.skip 1).skip 1).skip word.length).skip 1 := by
    simp only [skip_skip, List.length_cons, List.length_append, List.length_nil]
    congr 1
    omega
  -- The first argument does not start with the closing parenthesis of an empty list.
  obtain ⟨first, rest, hfirst, hkind⟩ := exists_next word closing (next :: tail)
  have hopen : first.kind ≠ .rightParen := by
    rw [hkind, hclosing]
    exact hargs.nextKind_ne_rightParen rfl
  simp only [List.length_cons, List.length_append] at hfuel
  rw [hend]
  exact parsePrimary_of_case (by omega)
    (.call (advance_of_rest hrest₀) hname (matchKind_true_of_rest hrest₁ hopening)
      (matchKind_false_of_rest (hrest₂.trans hfirst) hopen)
      (ih _ _ closing (next :: tail) hrest₂ hclosing (by omega))
      (matchKind_true_of_rest hrest₃ hclosing))

theorem Parsed.unary (op : Token D)
    (hop : op.kind = .plus ∨ op.kind = .minus ∨ op.kind = .bang)
    (ih : Parsed (.expression 11 follow word e)) :
    Parsed (.primary follow (op :: word) (.unary op.kind e op.span)) := by
  intro fuel p next tail hrest hnext hfuel
  have hrest₁ : (p.skip 1).rest = word ++ next :: tail := rest_skip [op] hrest
  rw [List.length_cons] at hfuel ⊢
  rw [Nat.add_comm, ← skip_skip]
  exact parsePrimary_of_case (by omega)
    (.unary (advance_of_rest hrest) hop (ih _ _ next tail hrest₁ hnext (by omega)))

theorem Parsed.paren (opening closing : Token D) (hopening : opening.kind = .leftParen)
    (hclosing : closing.kind = .rightParen) (ih : Parsed (.expression 0 .rightParen word e)) :
    Parsed (.primary follow (opening :: (word ++ [closing])) e) := by
  intro fuel p next tail hrest _ hfuel
  have hrest₀ : p.rest = opening :: (word ++ closing :: next :: tail) := by simpa using hrest
  have hrest₁ : (p.skip 1).rest = word ++ closing :: next :: tail := rest_skip [opening] hrest₀
  have hrest₂ : ((p.skip 1).skip word.length).rest = closing :: next :: tail :=
    rest_skip _ hrest₁
  have hend : p.skip (opening :: (word ++ [closing])).length =
      ((p.skip 1).skip word.length).skip 1 := by
    simp only [skip_skip, List.length_cons, List.length_append, List.length_nil]
    congr 1
    omega
  simp only [List.length_cons, List.length_append] at hfuel
  rw [hend]
  exact parsePrimary_of_case (by omega)
    (.paren (advance_of_rest hrest₀) hopening
      (ih _ _ closing (next :: tail) hrest₁ hclosing (by omega))
      (matchKind_true_of_rest hrest₂ hclosing))

theorem Parsed.lastArgument (hfollow : follow ≠ .comma) (ih : Parsed (.expression 0 follow word e)) :
    Parsed (.arguments follow word [e]) := by
  intro fuel p next tail hrest hnext hfuel
  obtain ⟨fuel, rfl⟩ : ∃ n, fuel = n + 1 := ⟨fuel - 1, by omega⟩
  have hrest₁ : (p.skip word.length).rest = next :: tail := rest_skip _ hrest
  have hcomma : next.kind ≠ .comma := hnext ▸ hfollow
  rw [parseArguments, ih fuel p next tail hrest hnext (by omega), ok_bind]
  dsimp only
  rw [matchKind_false_of_rest hrest₁ hcomma]
  rfl

theorem Parsed.moreArguments (comma : Token D) (hcomma : comma.kind = .comma)
    (ih : Parsed (.expression 0 .comma word e)) (ih' : Parsed (.arguments follow word' args)) :
    Parsed (.arguments follow (word ++ comma :: word') (e :: args)) := by
  intro fuel p next tail hrest hnext hfuel
  obtain ⟨fuel, rfl⟩ : ∃ n, fuel = n + 1 := ⟨fuel - 1, by omega⟩
  have hrest₀ : p.rest = word ++ comma :: (word' ++ next :: tail) := by simpa using hrest
  have hrest₁ : (p.skip word.length).rest = comma :: (word' ++ next :: tail) :=
    rest_skip _ hrest₀
  have hrest₂ : ((p.skip word.length).skip 1).rest = word' ++ next :: tail :=
    rest_skip [comma] hrest₁
  have hend : p.skip (word ++ comma :: word').length =
      ((p.skip word.length).skip 1).skip word'.length := by
    simp only [skip_skip, List.length_cons, List.length_append]
    congr 1
    omega
  simp only [List.length_append, List.length_cons] at hfuel
  rw [parseArguments, ih fuel p comma _ hrest₀ hcomma (by omega), ok_bind]
  dsimp only
  rw [matchKind_true_of_rest hrest₁ hcomma, ok_bind]
  simp only [if_true]
  rw [ih' fuel _ next tail hrest₂ hnext (by omega), hend]
  rfl

theorem Parsed.expression (hprimary : Derives (.primary (nextKind word' follow) word lhs))
    (ih : Parsed (.primary (nextKind word' follow) word lhs))
    (ih' : Parsed (.operators minBindingPower follow lhs word' e)) :
    Parsed (.expression minBindingPower follow (word ++ word') e) := by
  intro fuel p next tail hrest hnext hfuel
  obtain ⟨fuel, rfl⟩ : ∃ n, fuel = n + 1 := ⟨fuel - 1, by omega⟩
  rw [List.append_assoc] at hrest
  have hrest₁ : (p.skip word.length).rest = word' ++ next :: tail := rest_skip _ hrest
  -- The operand has a token, so the loop behind it has the fuel that its own word asks for.
  have hpos : 0 < word.length := List.length_pos_iff.mpr (hprimary.word_ne_nil rfl)
  obtain ⟨first, rest, hfirst, hkind⟩ := exists_next word' next tail
  rw [hfirst] at hrest
  rw [List.length_append] at hfuel ⊢
  rw [parseExpression, ih fuel p first rest hrest (by rw [hkind, hnext]) (by omega), ok_bind]
  dsimp only
  rw [ih' fuel _ next tail hrest₁ hnext (by omega), skip_skip]

theorem Parsed.done (hquestion : follow ≠ .question)
    (hpower : leftBindingPower follow < minBindingPower) :
    Parsed (.operators minBindingPower follow lhs [] lhs) := by
  intro fuel p next tail hrest hnext hfuel
  exact parseOperators_of_case (by omega)
    (.done (matchKind_false_of_rest hrest (hnext ▸ hquestion)) (peek_of_rest hrest)
      (hnext ▸ hpower))

theorem Parsed.ternary {thenWord elseWord : List (Token D)} {thenExpr elseExpr : ExpressionTree D}
    (question colon : Token D) (hquestion : question.kind = .question) (hcolon : colon.kind = .colon)
    (helse : Derives (.expression 0 (nextKind word follow) elseWord elseExpr))
    (ih : Parsed (.expression 0 .colon thenWord thenExpr))
    (ih' : Parsed (.expression 0 (nextKind word follow) elseWord elseExpr))
    (ih'' : Parsed (.operators minBindingPower follow
      (.ternary lhs thenExpr elseExpr (lastSpan elseWord)) word e)) :
    Parsed (.operators minBindingPower follow lhs
      (question :: (thenWord ++ colon :: (elseWord ++ word))) e) := by
  intro fuel p next tail hrest hnext hfuel
  have hrest₀ : p.rest = question :: (thenWord ++ colon :: (elseWord ++ (word ++ next :: tail))) := by
    simpa using hrest
  have hrest₁ : (p.skip 1).rest = thenWord ++ colon :: (elseWord ++ (word ++ next :: tail)) :=
    rest_skip [question] hrest₀
  have hrest₂ : ((p.skip 1).skip thenWord.length).rest =
      colon :: (elseWord ++ (word ++ next :: tail)) := rest_skip _ hrest₁
  have hrest₃ : (((p.skip 1).skip thenWord.length).skip 1).rest =
      elseWord ++ (word ++ next :: tail) := rest_skip [colon] hrest₂
  have hrest₄ : ((((p.skip 1).skip thenWord.length).skip 1).skip elseWord.length).rest =
      word ++ next :: tail := rest_skip _ hrest₃
  have hend : p.skip (question :: (thenWord ++ colon :: (elseWord ++ word))).length =
      ((((p.skip 1).skip thenWord.length).skip 1).skip elseWord.length).skip word.length := by
    simp only [skip_skip, List.length_cons, List.length_append]
    congr 1
    omega
  obtain ⟨first, rest, hfirst, hkind⟩ := exists_next word next tail
  obtain ⟨last, hlast, hspan⟩ := peek_neg_one (helse.word_ne_nil rfl) hrest₃ (by simp)
  simp only [List.length_append, List.length_cons] at hfuel
  rw [hend]
  refine parseOperators_of_case (by omega)
    (.ternary (matchKind_true_of_rest hrest₀ hquestion)
      (ih _ _ colon _ hrest₁ hcolon (by omega)) (matchKind_true_of_rest hrest₂ hcolon)
      (ih' _ _ first rest (hrest₃.trans (by rw [hfirst])) (by rw [hkind, hnext]) (by omega))
      hlast ?_)
  rw [hspan]
  exact ih'' _ _ next tail hrest₄ hnext (by omega)

theorem Parsed.binary {rhsWord : List (Token D)} {rhs : ExpressionTree D} (op : Token D)
    (hoperator : 0 ≤ leftBindingPower op.kind) (hpower : minBindingPower ≤ leftBindingPower op.kind)
    (hrhs : Derives (.expression (rightBindingPower op.kind) (nextKind word follow) rhsWord rhs))
    (ih : Parsed (.expression (rightBindingPower op.kind) (nextKind word follow) rhsWord rhs))
    (ih' : Parsed (.operators minBindingPower follow
      (.binary op.kind lhs rhs (lastSpan rhsWord)) word e)) :
    Parsed (.operators minBindingPower follow lhs (op :: (rhsWord ++ word)) e) := by
  intro fuel p next tail hrest hnext hfuel
  have hrest₀ : p.rest = op :: (rhsWord ++ (word ++ next :: tail)) := by simpa using hrest
  have hrest₁ : (p.skip 1).rest = rhsWord ++ (word ++ next :: tail) := rest_skip [op] hrest₀
  have hrest₂ : ((p.skip 1).skip rhsWord.length).rest = word ++ next :: tail := rest_skip _ hrest₁
  have hend : p.skip (op :: (rhsWord ++ word)).length =
      ((p.skip 1).skip rhsWord.length).skip word.length := by
    simp only [skip_skip, List.length_cons, List.length_append]
    congr 1
    omega
  obtain ⟨first, rest, hfirst, hkind⟩ := exists_next word next tail
  obtain ⟨last, hlast, hspan⟩ := peek_neg_one (hrhs.word_ne_nil rfl) hrest₁ (by simp)
  simp only [List.length_append, List.length_cons] at hfuel
  rw [hend]
  refine parseOperators_of_case (by omega)
    (.binary (matchKind_false_of_rest hrest₀ (ne_question_of_leftBindingPower hoperator))
      (peek_of_rest hrest₀) hpower (advance_of_rest hrest₀)
      (ih _ _ first rest (hrest₁.trans (by rw [hfirst])) (by rw [hkind, hnext]) (by omega))
      hlast ?_)
  rw [hspan]
  exact ih' _ _ next tail hrest₂ hnext (by omega)

end Parsed

/-- **Completeness.**  The parser follows every derivation. -/
theorem parsed_of_derives {phrase : Phrase D} (h : Derives phrase) : Parsed phrase := by
  induction h with
  | number token hkind =>
      intro fuel p next tail hrest _ hfuel
      exact parsePrimary_of_case (by simp at hfuel; omega) (.number (advance_of_rest hrest) hkind)
  | nodeRef token hkind =>
      intro fuel p next tail hrest _ hfuel
      exact parsePrimary_of_case (by simp at hfuel; omega) (.nodeRef (advance_of_rest hrest) hkind)
  | callEmpty name opening closing hname hopening hclosing =>
      exact .callEmpty name opening closing hname hopening hclosing
  | call name opening closing hname hopening hclosing hargs ih =>
      exact .call name opening closing hname hopening hclosing hargs ih
  | unary op hop _ ih => exact .unary op hop ih
  | paren opening closing hopening hclosing _ ih => exact .paren opening closing hopening hclosing ih
  | lastArgument hfollow _ ih => exact .lastArgument hfollow ih
  | moreArguments comma hcomma _ _ ih ih' => exact .moreArguments comma hcomma ih ih'
  | expression hprimary _ ih ih' => exact .expression hprimary ih ih'
  | done hquestion hpower => exact .done hquestion hpower
  | ternary question colon hquestion hcolon _ helse _ ih ih' ih'' =>
      exact .ternary question colon hquestion hcolon helse ih ih' ih''
  | binary op hoperator hpower hrhs _ ih ih' =>
      exact .binary op hoperator hpower hrhs ih ih'

/-! ### The whole parse -/

/-- If a list has its only `EndOfFile` at the end, then a suffix that starts with `EndOfFile` is that
last token. -/
theorem eq_body_of_endOfFile {body word : List (Token D)} {eof token : Token D}
    {tail : List (Token D)} (hbody : ∀ token ∈ body, token.kind ≠ .endOfFile)
    (h : body ++ [eof] = word ++ token :: tail) (htoken : token.kind = .endOfFile) :
    word = body := by
  rcases List.append_eq_append_iff.mp h with ⟨mid, hword, hmid⟩ | ⟨mid, hbodyEq, hmid⟩
  · cases mid with
    | nil => simpa using hword
    | cons first mid => simp at hmid
  · cases mid with
    | nil => simpa using hbodyEq.symm
    | cons first mid =>
        obtain ⟨rfl, -⟩ := List.cons.inj hmid
        exact absurd htoken (hbody token (by simp [hbodyEq]))

/-- The parse of a whole list is the parse of an expression up to `EndOfFile`. -/
theorem parse_unfolded_eq_ok [Double D] {tokens : List (Token D)} {e : ExpressionTree D} :
    parse tokens false = .ok e ↔
      ∃ p p', parseExpression (2 * tokens.length + 2) 0 ⟨tokens, 0⟩ = .ok (e, p) ∧
        p.matchKind .endOfFile = .ok (true, p') := by
  rw [parse, bind_eq_ok]
  constructor
  · rintro ⟨⟨ast, p⟩, hast, h⟩
    rw [bind_eq_ok] at h
    obtain ⟨⟨atEnd, p'⟩, hend, h⟩ := h
    cases atEnd with
    | true =>
        simp only [Bool.false_eq_true, if_false, if_true, verify, Except.ok.injEq] at h
        exact ⟨p, p', h ▸ hast, hend⟩
    | false =>
        cases hpeek : p'.peek with
        | error stop => simp [hpeek] at h
        | ok here => simp [hpeek, invalid] at h
  · rintro ⟨p, p', hast, hend⟩
    exact ⟨(e, p), hast, by simp [hend, verify]⟩

/-- **Acceptance.**  On a body followed by `EndOfFile`, `parse(false)` succeeds exactly on the derived
expressions, with the derived tree. -/
theorem parse_eq_ok_iff [Double D] {body : List (Token D)} {eof : Token D}
    (heof : eof.kind = .endOfFile) (hbody : ∀ token ∈ body, token.kind ≠ .endOfFile)
    {e : ExpressionTree D} :
    parse (body ++ [eof]) false = .ok e ↔ Derives (.expression 0 .endOfFile body e) := by
  have hstart : (⟨body ++ [eof], 0⟩ : Parser D).rest = body ++ [eof] := rfl
  rw [parse_unfolded_eq_ok]
  constructor
  · rintro ⟨p, p', hparse, hend⟩
    obtain ⟨word, hword, hderives⟩ :=
      (soundAt _).expression 0 _ _ _ (Int.le_refl 0) ⟨body, eof, hstart, heof⟩ hparse
    obtain ⟨token, tail, hrest⟩ := hword.terminated.exists_cons
    have hkind : token.kind = .endOfFile := by
      rw [matchKind_of_rest hrest] at hend
      split at hend
      · assumption
      · cases hend
    rw [hrest, nextKind_cons, hkind] at hderives
    exact eq_body_of_endOfFile hbody (hrest ▸ hword.rest) hkind ▸ hderives
  · intro hderives
    have hparse := parsed_of_derives hderives (2 * (body ++ [eof]).length + 2) ⟨body ++ [eof], 0⟩
      eof [] hstart heof (by simp; omega)
    have hrest : ((⟨body ++ [eof], 0⟩ : Parser D).skip body.length).rest = [eof] := rest_skip _ hstart
    have hend := matchKind_of_rest hrest .endOfFile
    rw [if_pos heof] at hend
    exact ⟨_, _, hparse, hend⟩

end Parser

end StatForge.Dsl
