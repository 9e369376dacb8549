import StatForge.Dsl.Derivation

/-!
# What the parser rejects

`Rejects` is a relational reading of the error paths of the parser, as `Derives` is of the successful
ones: a call has read a word and reports the token behind it.

* `Rejects` — one rule for each path of the parser's functions to an error message.
* `rejectsAt` — a parser function that fails on a token list ending in `EndOfFile` has taken such a
  path.
* `rejected_of_rejects` — on a list that starts in this way the function fails with this error, whatever
  else the list holds.
* `parse_eq_error_iff` — the errors of `parse(false)`.
-/

namespace StatForge.Dsl

open ExceptBind

variable {D : Type}

/-- The kinds of tokens that `parsePrimary` has a case for. -/
def startsOperand : TokenKind → Bool
  | .number | .nodeRef | .identifier | .plus | .minus | .bang | .leftParen => true
  | _ => false

/-- A parser function. -/
inductive Goal
  | primary
  | arguments
  | expression (minBindingPower : Int)
  | operators (minBindingPower : Int)

/-- The function reads the word and reports the token behind it with the message, once it has also
looked at the tokens behind that one. -/
inductive Rejects : Goal → List (Token D) → Token D → List (Token D) → String → Prop
  | unexpected (token : Token D) (hkind : startsOperand token.kind = false) :
      Rejects .primary [] token [] "Unexpected token in expression"
  | bareIdentifier (name next : Token D) (hname : name.kind = .identifier)
      (hnext : next.kind ≠ .leftParen) :
      Rejects .primary [] name [next] "Bare identifier not allowed, use <id> for node ref"
  | callArguments {word token behind message} (name opening : Token D)
      (hname : name.kind = .identifier) (hopening : opening.kind = .leftParen)
      (hfirst : nextKind word token.kind ≠ .rightParen)
      (hargs : Rejects .arguments word token behind message) :
      Rejects .primary (name :: opening :: word) token behind message
  | unclosedCall {word args} (name opening next : Token D) (hname : name.kind = .identifier)
      (hopening : opening.kind = .leftParen) (hnext : next.kind ≠ .rightParen)
      (hargs : Derives (.arguments next.kind word args)) :
      Rejects .primary (name :: opening :: word) next [] "Missing ')' after arguments"
  | unary {word token behind message} (op : Token D)
      (hop : op.kind = .plus ∨ op.kind = .minus ∨ op.kind = .bang)
      (hrhs : Rejects (.expression 11) word token behind message) :
      Rejects .primary (op :: word) token behind message
  | paren {word token behind message} (opening : Token D) (hopening : opening.kind = .leftParen)
      (hinner : Rejects (.expression 0) word token behind message) :
      Rejects .primary (opening :: word) token behind message
  | unclosedParen {word e} (opening next : Token D) (hopening : opening.kind = .leftParen)
      (hnext : next.kind ≠ .rightParen) (he : Derives (.expression 0 next.kind word e)) :
      Rejects .primary (opening :: word) next [] "Expected ')'"
  | firstArgument {word token behind message}
      (harg : Rejects (.expression 0) word token behind message) :
      Rejects .arguments word token behind message
  | laterArguments {word e word' token behind message} (comma : Token D)
      (hcomma : comma.kind = .comma) (he : Derives (.expression 0 .comma word e))
      (hargs : Rejects .arguments word' token behind message) :
      Rejects .arguments (word ++ comma :: word') token behind message
  | operand {minBindingPower word token behind message}
      (hprimary : Rejects .primary word token behind message) :
      Rejects (.expression minBindingPower) word token behind message
  | operators {minBindingPower word lhs word' token behind message}
      (hprimary : Derives (.primary (nextKind word' token.kind) word lhs))
      (hoperators : Rejects (.operators minBindingPower) word' token behind message) :
      Rejects (.expression minBindingPower) (word ++ word') token behind message
  | thenPart {minBindingPower word token behind message} (question : Token D)
      (hquestion : question.kind = .question)
      (hthen : Rejects (.expression 0) word token behind message) :
      Rejects (.operators minBindingPower) (question :: word) token behind message
  | missingColon {minBindingPower word e} (question next : Token D)
      (hquestion : question.kind = .question) (hnext : next.kind ≠ .colon)
      (hthen : Derives (.expression 0 next.kind word e)) :
      Rejects (.operators minBindingPower) (question :: word) next [] "Missing ':' in ternary"
  | elsePart {minBindingPower thenWord thenExpr word token behind message} (question colon : Token D)
      (hquestion : question.kind = .question) (hcolon : colon.kind = .colon)
      (hthen : Derives (.expression 0 .colon thenWord thenExpr))
      (helse : Rejects (.expression 0) word token behind message) :
      Rejects (.operators minBindingPower) (question :: (thenWord ++ colon :: word)) token behind
        message
  | afterTernary {minBindingPower thenWord thenExpr elseWord elseExpr word token behind message}
      (question colon : Token D) (hquestion : question.kind = .question)
      (hcolon : colon.kind = .colon) (hthen : Derives (.expression 0 .colon thenWord thenExpr))
      (helse : Derives (.expression 0 (nextKind word token.kind) elseWord elseExpr))
      (hrest : Rejects (.operators minBindingPower) word token behind message) :
      Rejects (.operators minBindingPower) (question :: (thenWord ++ colon :: (elseWord ++ word)))
        token behind message
  | rightOperand {minBindingPower word token behind message} (op : Token D)
      (hoperator : 0 ≤ leftBindingPower op.kind) (hpower : minBindingPower ≤ leftBindingPower op.kind)
      (hrhs : Rejects (.expression (rightBindingPower op.kind)) word token behind message) :
      Rejects (.operators minBindingPower) (op :: word) token behind message
  | afterBinary {minBindingPower rhsWord rhs word token behind message} (op : Token D)
      (hoperator : 0 ≤ leftBindingPower op.kind) (hpower : minBindingPower ≤ leftBindingPower op.kind)
      (hrhs : Derives (.expression (rightBindingPower op.kind) (nextKind word token.kind) rhsWord rhs))
      (hrest : Rejects (.operators minBindingPower) word token behind message) :
      Rejects (.operators minBindingPower) (op :: (rhsWord ++ word)) token behind message

/-- The error that reports a token. -/
def reportAt (message : String) (token : Token D) : ErrorInfo :=
  buildErrorInfo .invalidDsl message token.span

namespace Parser

/-! ### From the code to the rules -/

/-- On the unread tokens the function takes a path to this error. -/
def Finds (goal : Goal) (p : Parser D) (info : ErrorInfo) : Prop :=
  ∃ word token behind tail message, p.rest = word ++ token :: (behind ++ tail) ∧
    Rejects goal word token behind message ∧ info = reportAt message token

section Rules

variable {α β : Type} {p p₁ : Parser D} {front : List (Token D)} {goal goal' : Goal}
  {info : ErrorInfo} {stop : Stop}

/-- An error of a call behind a word that has been read. -/
theorem Finds.behind (hfront : Reads p front p₁) (h : Finds goal' p₁ info)
    (hrule : ∀ {word token behind message}, nextKind p₁.rest .endOfFile = nextKind word token.kind →
      Rejects goal' word token behind message → Rejects goal (front ++ word) token behind message) :
    Finds goal p info := by
  obtain ⟨word, token, behind, tail, message, hrest, hrejects, rfl⟩ := h
  refine ⟨front ++ word, token, behind, tail, message, ?_, hrule ?_ hrejects, rfl⟩
  · rw [hfront.rest, hrest, List.append_assoc]
  · rw [hrest, nextKind_append, nextKind_cons]

/-- An error at the token behind a word that has been read. -/
theorem Finds.here {message : String} (hfront : Reads p front p₁)
    (hrule : ∀ {next}, nextKind p₁.rest .endOfFile = next.kind →
      Rejects goal front next [] message)
    (h : (p₁.peek >>= fun here => invalid message here.span : Except Stop (α × Parser D)) =
      .error (.error info)) : Finds goal p info := by
  obtain ⟨next, tail, hnext⟩ := hfront.terminated.exists_cons
  rw [peek_of_rest hnext, ok_bind] at h
  cases h
  exact ⟨front, next, [], tail, message, by rw [hfront.rest, hnext]; rfl,
    hrule (by rw [hnext, nextKind_cons]), rfl⟩

/-- A `match` answers `true` and has read its token, or it answers `false`. -/
theorem matchKind_bind_eq_error {kind : TokenKind} {next : Bool × Parser D → Except Stop (α × Parser D)}
    (hterm : Terminated p.rest) (hkind : kind ≠ .endOfFile)
    (h : (p.matchKind kind >>= next) = .error stop) :
    (∃ token p', Reads p [token] p' ∧ token.kind = kind ∧ next (true, p') = .error stop) ∨
      (nextKind p.rest .endOfFile ≠ kind ∧ next (false, p) = .error stop) := by
  obtain ⟨token, tail, hrest⟩ := hterm.exists_cons
  by_cases htoken : token.kind = kind
  · rw [matchKind_true_of_rest hrest htoken, ok_bind] at h
    exact Or.inl ⟨token, p.skip 1, .single hterm hrest (htoken ▸ hkind), htoken, h⟩
  · rw [matchKind_false_of_rest hrest htoken, ok_bind] at h
    exact Or.inr ⟨by rwa [hrest, nextKind_cons], h⟩

end Rules

/-- The errors of the four functions at one fuel. -/
structure RejectsAt (D : Type) (fuel : Nat) : Prop where
  primary : ∀ (p : Parser D) info, Terminated p.rest →
    parsePrimary fuel p = .error (.error info) → Finds .primary p info
  arguments : ∀ (p : Parser D) info, Terminated p.rest →
    parseArguments fuel p = .error (.error info) → Finds .arguments p info
  expression : ∀ minBindingPower (p : Parser D) info, 0 ≤ minBindingPower → Terminated p.rest →
    parseExpression fuel minBindingPower p = .error (.error info) →
    Finds (.expression minBindingPower) p info
  operators : ∀ minBindingPower lhs (p : Parser D) info, 0 ≤ minBindingPower → Terminated p.rest →
    parseOperators fuel minBindingPower lhs p = .error (.error info) →
    Finds (.operators minBindingPower) p info

section Step

variable {fuel : Nat} (ih : RejectsAt D fuel) {p : Parser D} {info : ErrorInfo}

include ih

theorem primary_rejects (hterm : Terminated p.rest)
    (h : parsePrimary (fuel + 1) p = .error (.error info)) : Finds .primary p info := by
  obtain ⟨token, tail, hrest⟩ := hterm.exists_cons
  rw [parsePrimary, advance_of_rest hrest, ok_bind] at h
  dsimp only at h
  have hunexpected (hkind : startsOperand token.kind = false)
      (h : (invalid "Unexpected token in expression" token.span :
        Except Stop (ExpressionTree D × Parser D)) = .error (.error info)) :
      Finds .primary p info := by
    cases h
    exact ⟨[], token, [], tail, _, hrest, .unexpected token hkind, rfl⟩
  by_cases hend : token.kind = .endOfFile
  · rw [hend] at h
    exact hunexpected (by rw [hend]; rfl) h
  have hfirst : Reads p [token] (p.skip 1) := .single hterm hrest hend
  -- The three prefix operators share one branch of the `switch`.
  have hunary (hop : token.kind = .plus ∨ token.kind = .minus ∨ token.kind = .bang)
      (h : (parseExpression fuel 11 (p.skip 1) >>= fun x =>
        .ok (ExpressionTree.unary token.kind x.1 token.span, x.2)) = .error (.error info)) :
      Finds .primary p info := by
    rcases bind_eq_error.mp h with h | ⟨_, -, h⟩
    · have hrhs := ih.expression 11 _ _ (by decide) hfirst.terminated h
      exact hrhs.behind hfirst fun _ hrejects => .unary token hop hrejects
    · cases h
  cases hkind : token.kind with
  | number =>
      rw [hkind] at h
      cases h
  | nodeRef =>
      rw [hkind] at h
      cases h
  | identifier =>
      rw [hkind] at h
      rcases matchKind_bind_eq_error hfirst.terminated (by simp) h with
        ⟨opening, p₂, hopening, hopeningKind, h⟩ | ⟨hnext, h⟩
      · rcases matchKind_bind_eq_error hopening.terminated (by simp) h with
          ⟨_, _, -, -, h⟩ | ⟨hnonempty, h⟩
        · cases h
        have hfront := hfirst.cons hopening
        rcases bind_eq_error.mp h with h | ⟨⟨args, p₃⟩, hargs, h⟩
        · refine (ih.arguments _ _ hopening.terminated h).behind hfront fun hfirst hrejects => ?_
          exact .callArguments token opening hkind hopeningKind (hfirst ▸ hnonempty) hrejects
        · obtain ⟨word, hword, hderives⟩ := (soundAt fuel).arguments _ _ _ hopening.terminated hargs
          rcases matchKind_bind_eq_error hword.terminated (by simp) h with
            ⟨_, _, -, -, h⟩ | ⟨hopen, h⟩
          · cases h
          · refine Finds.here (hfront.append hword) (fun hnext => ?_) h
            rw [hnext] at hopen hderives
            exact .unclosedCall token opening _ hkind hopeningKind hopen hderives
      · obtain ⟨next, tail', hrest'⟩ := hfirst.terminated.exists_cons
        rw [hrest', nextKind_cons] at hnext
        cases h
        refine ⟨[], token, [next], tail', _, ?_, .bareIdentifier token next hkind hnext, rfl⟩
        rw [hfirst.rest, hrest']
        rfl
  | plus =>
      rw [hkind] at h
      exact hunary (Or.inl hkind) (hkind ▸ h)
  | minus =>
      rw [hkind] at h
      exact hunary (Or.inr (Or.inl hkind)) (hkind ▸ h)
  | bang =>
      rw [hkind] at h
      exact hunary (Or.inr (Or.inr hkind)) (hkind ▸ h)
  | leftParen =>
      rw [hkind] at h
      rcases bind_eq_error.mp h with h | ⟨⟨inner, p₂⟩, hinner, h⟩
      · have hrejects := ih.expression 0 _ _ (Int.le_refl 0) hfirst.terminated h
        exact hrejects.behind hfirst fun _ hrejects => .paren token hkind hrejects
      · obtain ⟨word, hword, hderives⟩ :=
          (soundAt fuel).expression 0 _ _ _ (Int.le_refl 0) hfirst.terminated hinner
        rcases matchKind_bind_eq_error hword.terminated (by simp) h with
          ⟨_, _, -, -, h⟩ | ⟨hopen, h⟩
        · cases h
        · refine Finds.here (hfirst.cons hword) (fun hnext => ?_) h
          rw [hnext] at hopen hderives
          exact .unclosedParen token _ hkind hopen hderives
  | _ =>
      rw [hkind] at h
      exact hunexpected (by rw [hkind]; rfl) h

theorem arguments_rejects (hterm : Terminated p.rest)
    (h : parseArguments (fuel + 1) p = .error (.error info)) : Finds .arguments p info := by
  rw [parseArguments] at h
  rcases bind_eq_error.mp h with h | ⟨⟨arg, p₁⟩, harg, h⟩
  · have hrejects := ih.expression 0 _ _ (Int.le_refl 0) hterm h
    exact hrejects.behind (.nil hterm) fun _ hrejects => .firstArgument hrejects
  obtain ⟨word, hword, hderives⟩ := (soundAt fuel).expression 0 _ _ _ (Int.le_refl 0) hterm harg
  rcases matchKind_bind_eq_error hword.terminated (by simp) h with
    ⟨comma, p₂, hcomma, hcommaKind, h⟩ | ⟨-, h⟩
  · rcases bind_eq_error.mp h with h | ⟨_, -, h⟩
    · rw [nextKind_rest hcomma, hcommaKind] at hderives
      refine (ih.arguments _ _ hcomma.terminated h).behind (hword.append hcomma) ?_
      intro word' token behind message _ hrejects
      rw [List.append_assoc]
      exact .laterArguments comma hcommaKind hderives hrejects
    · cases h
  · cases h

theorem expression_rejects {minBindingPower : Int} (hmin : 0 ≤ minBindingPower)
    (hterm : Terminated p.rest)
    (h : parseExpression (fuel + 1) minBindingPower p = .error (.error info)) :
    Finds (.expression minBindingPower) p info := by
  rw [parseExpression] at h
  rcases bind_eq_error.mp h with h | ⟨⟨lhs, p₁⟩, hlhs, h⟩
  · have hrejects := ih.primary _ _ hterm h
    exact hrejects.behind (.nil hterm) fun _ hrejects => .operand hrejects
  · obtain ⟨word, hword, hderives⟩ := (soundAt fuel).primary _ _ _ hterm hlhs
    refine (ih.operators _ _ _ _ hmin hword.terminated h).behind hword fun hnext hrejects => ?_
    rw [hnext] at hderives
    exact .operators hderives hrejects

theorem operators_rejects {minBindingPower : Int} {lhs : ExpressionTree D}
    (hmin : 0 ≤ minBindingPower) (hterm : Terminated p.rest)
    (h : parseOperators (fuel + 1) minBindingPower lhs p = .error (.error info)) :
    Finds (.operators minBindingPower) p info := by
  rw [parseOperators] at h
  rcases matchKind_bind_eq_error hterm (by simp) h with
    ⟨question, p₁, hquestion, hquestionKind, h⟩ | ⟨-, h⟩
  · rcases bind_eq_error.mp h with h | ⟨⟨thenExpr, p₂⟩, hthen, h⟩
    · have hrejects := ih.expression 0 _ _ (Int.le_refl 0) hquestion.terminated h
      exact hrejects.behind hquestion fun _ hrejects => .thenPart question hquestionKind hrejects
    obtain ⟨thenWord, hthenWord, hthenDerives⟩ :=
      (soundAt fuel).expression 0 _ _ _ (Int.le_refl 0) hquestion.terminated hthen
    have hfront := hquestion.cons hthenWord
    rcases matchKind_bind_eq_error hthenWord.terminated (by simp) h with
      ⟨colon, p₃, hcolon, hcolonKind, h⟩ | ⟨hnocolon, h⟩
    · rw [nextKind_rest hcolon, hcolonKind] at hthenDerives
      have hfront' := hfront.append hcolon
      rcases bind_eq_error.mp h with h | ⟨⟨elseExpr, p₄⟩, helse, h⟩
      · have hrejects := ih.expression 0 _ _ (Int.le_refl 0) hcolon.terminated h
        refine hrejects.behind hfront' fun _ hrejects => ?_
        have hpath : Rejects (.operators minBindingPower) _ _ _ _ :=
          .elsePart question colon hquestionKind hcolonKind hthenDerives hrejects
        simpa using hpath
      obtain ⟨elseWord, helseWord, helseDerives⟩ :=
        (soundAt fuel).expression 0 _ _ _ (Int.le_refl 0) hcolon.terminated helse
      obtain ⟨last, hlast, -⟩ := peek_neg_one (helseDerives.word_ne_nil rfl) helseWord.rest
        helseWord.terminated.ne_nil
      rw [← helseWord.skip] at hlast
      dsimp only at h
      rw [hlast, ok_bind] at h
      have hrejects := ih.operators _ _ _ _ hmin helseWord.terminated h
      refine hrejects.behind (hfront'.append helseWord) fun hnext hrejects => ?_
      rw [hnext] at helseDerives
      have hpath := Rejects.afterTernary question colon hquestionKind hcolonKind hthenDerives
        helseDerives hrejects
      simpa using hpath
    · refine Finds.here hfront (fun hnext => ?_) h
      rw [hnext] at hnocolon hthenDerives
      exact .missingColon question _ hquestionKind hnocolon hthenDerives
  · obtain ⟨op, tail, hrest⟩ := hterm.exists_cons
    simp only [Bool.false_eq_true, if_false, peek_of_rest hrest, ok_bind,
      advance_of_rest hrest] at h
    split at h
    · cases h
    rename_i hpower
    rw [Int.not_lt] at hpower
    have hoperator := Int.le_trans hmin hpower
    have hop : Reads p [op] (p.skip 1) :=
      .single hterm hrest (ne_endOfFile_of_leftBindingPower hoperator)
    have hright := rightBindingPower_nonneg hoperator
    rcases bind_eq_error.mp h with h | ⟨⟨rhs, p₂⟩, hrhs, h⟩
    · have hrejects := ih.expression _ _ _ hright hop.terminated h
      exact hrejects.behind hop fun _ hrejects => .rightOperand op hoperator hpower hrejects
    obtain ⟨rhsWord, hrhsWord, hrhsDerives⟩ :=
      (soundAt fuel).expression _ _ _ _ hright hop.terminated hrhs
    obtain ⟨last, hlast, -⟩ := peek_neg_one (hrhsDerives.word_ne_nil rfl) hrhsWord.rest
      hrhsWord.terminated.ne_nil
    rw [← hrhsWord.skip] at hlast
    dsimp only at h
    rw [hlast, ok_bind] at h
    have hrejects := ih.operators _ _ _ _ hmin hrhsWord.terminated h
    refine hrejects.behind (hop.cons hrhsWord) fun hnext hrejects => ?_
    rw [hnext] at hrhsDerives
    exact .afterBinary op hoperator hpower hrhsDerives hrejects

end Step

/-- **Soundness.**  Whatever the fuel, an error comes from one of the paths. -/
theorem rejectsAt (fuel : Nat) : RejectsAt D fuel := by
  induction fuel with
  | zero =>
      constructor
      · intro p info _ h; simp [parsePrimary] at h
      · intro p info _ h; simp [parseArguments] at h
      · intro _ p info _ _ h; simp [parseExpression] at h
      · intro _ _ p info _ _ h; simp [parseOperators] at h
  | succ fuel ih =>
      exact ⟨fun _ _ => primary_rejects ih, fun _ _ => arguments_rejects ih,
        fun _ _ _ => expression_rejects ih, fun _ _ _ _ => operators_rejects ih⟩

/-! ### From the rules to the code -/

/-- The function, given enough fuel, fails on every list that starts in this way. -/
def Rejected (D : Type) : Goal → List (Token D) → Token D → List (Token D) → String → Prop
  | .primary, word, token, behind, message => ∀ fuel (p : Parser D) tail,
      p.rest = word ++ token :: (behind ++ tail) → 2 * word.length + 1 ≤ fuel →
      parsePrimary fuel p = .error (.error (reportAt message token))
  | .arguments, word, token, behind, message => ∀ fuel (p : Parser D) tail,
      p.rest = word ++ token :: (behind ++ tail) → 2 * word.length + 3 ≤ fuel →
      parseArguments fuel p = .error (.error (reportAt message token))
  | .expression minBindingPower, word, token, behind, message => ∀ fuel (p : Parser D) tail,
      p.rest = word ++ token :: (behind ++ tail) → 2 * word.length + 2 ≤ fuel →
      parseExpression fuel minBindingPower p = .error (.error (reportAt message token))
  | .operators minBindingPower, word, token, behind, message => ∀ fuel (p : Parser D) tail lhs,
      p.rest = word ++ token :: (behind ++ tail) → 2 * word.length + 1 ≤ fuel →
      parseOperators fuel minBindingPower lhs p = .error (.error (reportAt message token))

section Rejected

variable {word word' : List (Token D)} {token next : Token D} {behind : List (Token D)}
  {message : String} {minBindingPower : Int} {e : ExpressionTree D} {args : List (ExpressionTree D)}

/-- The error at the token that the parser stands in front of. -/
theorem report_of_rest {α : Type} {p : Parser D} {tail : List (Token D)} (h : p.rest = next :: tail)
    (message : String) : (p.peek >>= fun here => invalid message here.span : Except Stop α) =
      .error (.error (reportAt message next)) := by
  rw [peek_of_rest h]
  rfl

theorem Rejected.unexpected (hkind : startsOperand token.kind = false) :
    Rejected D .primary [] token [] "Unexpected token in expression" := by
  intro fuel p tail hrest hfuel
  obtain ⟨fuel, rfl⟩ : ∃ n, fuel = n + 1 := ⟨fuel - 1, by omega⟩
  rw [parsePrimary, advance_of_rest hrest, ok_bind]
  dsimp only
  cases htoken : token.kind with
  | number | nodeRef | identifier | plus | minus | bang | leftParen =>
      rw [htoken] at hkind
      cases hkind
  | _ => rfl

theorem Rejected.bareIdentifier (hname : token.kind = .identifier) (hnext : next.kind ≠ .leftParen) :
    Rejected D .primary [] token [next] "Bare identifier not allowed, use <id> for node ref" := by
  intro fuel p tail hrest hfuel
  obtain ⟨fuel, rfl⟩ : ∃ n, fuel = n + 1 := ⟨fuel - 1, by omega⟩
  have hrest₁ : (p.skip 1).rest = next :: tail := rest_skip [token] hrest
  rw [parsePrimary, advance_of_rest hrest, ok_bind]
  simp only [hname, matchKind_false_of_rest hrest₁ hnext, ok_bind]
  rfl

theorem Rejected.callArguments (name opening : Token D) (hname : name.kind = .identifier)
    (hopening : opening.kind = .leftParen) (hfirst : nextKind word token.kind ≠ .rightParen)
    (ih : Rejected D .arguments word token behind message) :
    Rejected D .primary (name :: opening :: word) token behind message := by
  intro fuel p tail hrest hfuel
  obtain ⟨fuel, rfl⟩ : ∃ n, fuel = n + 1 := ⟨fuel - 1, by omega⟩
  have hrest₁ : (p.skip 1).rest = opening :: (word ++ token :: (behind ++ tail)) :=
    rest_skip [name] hrest
  have hrest₂ : ((p.skip 1).skip 1).rest = word ++ token :: (behind ++ tail) :=
    rest_skip [opening] hrest₁
  obtain ⟨first, rest, hstart, hkind⟩ := exists_next word token (behind ++ tail)
  have hopen : first.kind ≠ .rightParen := hkind ▸ hfirst
  simp only [List.length_cons] at hfuel
  rw [parsePrimary, advance_of_rest hrest, ok_bind]
  simp only [hname, matchKind_true_of_rest hrest₁ hopening, ok_bind, if_true,
    matchKind_false_of_rest (hrest₂.trans hstart) hopen, Bool.false_eq_true, if_false,
    ih fuel _ tail hrest₂ (by omega), error_bind]

theorem Rejected.unclosedCall (name opening : Token D) (hname : name.kind = .identifier)
    (hopening : opening.kind = .leftParen) (hnext : next.kind ≠ .rightParen)
    (hargs : Derives (.arguments next.kind word args)) :
    Rejected D .primary (name :: opening :: word) next [] "Missing ')' after arguments" := by
  intro fuel p tail hrest hfuel
  obtain ⟨fuel, rfl⟩ : ∃ n, fuel = n + 1 := ⟨fuel - 1, by omega⟩
  have hrest₁ : (p.skip 1).rest = opening :: (word ++ next :: tail) := rest_skip [name] hrest
  have hrest₂ : ((p.skip 1).skip 1).rest = word ++ next :: tail := rest_skip [opening] hrest₁
  have hrest₃ : (((p.skip 1).skip 1).skip word.length).rest = next :: tail := rest_skip _ hrest₂
  -- The first argument does not start with a closing parenthesis.
  obtain ⟨first, rest, hstart, hkind⟩ := exists_next word next tail
  have hopen : first.kind ≠ .rightParen := by
    obtain ⟨head, word', rfl⟩ := List.exists_cons_of_ne_nil (hargs.word_ne_nil rfl)
    rw [hkind, nextKind_cons]
    exact hargs.nextKind_ne_rightParen rfl
  simp only [List.length_cons] at hfuel
  have hparsed := parsed_of_derives hargs fuel _ next tail hrest₂ rfl (by omega)
  rw [parsePrimary, advance_of_rest hrest, ok_bind]
  simp only [hname, matchKind_true_of_rest hrest₁ hopening, ok_bind, if_true,
    matchKind_false_of_rest (hrest₂.trans hstart) hopen, Bool.false_eq_true, if_false, hparsed,
    matchKind_false_of_rest hrest₃ hnext]
  exact report_of_rest hrest₃ _

theorem Rejected.unary (op : Token D) (hop : op.kind = .plus ∨ op.kind = .minus ∨ op.kind = .bang)
    (ih : Rejected D (.expression 11) word token behind message) :
    Rejected D .primary (op :: word) token behind message := by
  intro fuel p tail hrest hfuel
  obtain ⟨fuel, rfl⟩ : ∃ n, fuel = n + 1 := ⟨fuel - 1, by omega⟩
  have hrest₁ : (p.skip 1).rest = word ++ token :: (behind ++ tail) := rest_skip [op] hrest
  rw [List.length_cons] at hfuel
  rw [parsePrimary, advance_of_rest hrest, ok_bind]
  rcases hop with hop | hop | hop <;>
    simp only [hop, ih fuel _ tail hrest₁ (by omega), error_bind]

theorem Rejected.paren (opening : Token D) (hopening : opening.kind = .leftParen)
    (ih : Rejected D (.expression 0) word token behind message) :
    Rejected D .primary (opening :: word) token behind message := by
  intro fuel p tail hrest hfuel
  obtain ⟨fuel, rfl⟩ : ∃ n, fuel = n + 1 := ⟨fuel - 1, by omega⟩
  have hrest₁ : (p.skip 1).rest = word ++ token :: (behind ++ tail) := rest_skip [opening] hrest
  rw [List.length_cons] at hfuel
  rw [parsePrimary, advance_of_rest hrest, ok_bind]
  simp only [hopening, ih fuel _ tail hrest₁ (by omega), error_bind]

theorem Rejected.unclosedParen (opening : Token D) (hopening : opening.kind = .leftParen)
    (hnext : next.kind ≠ .rightParen) (he : Derives (.expression 0 next.kind word e)) :
    Rejected D .primary (opening :: word) next [] "Expected ')'" := by
  intro fuel p tail hrest hfuel
  obtain ⟨fuel, rfl⟩ : ∃ n, fuel = n + 1 := ⟨fuel - 1, by omega⟩
  have hrest₁ : (p.skip 1).rest = word ++ next :: tail := rest_skip [opening] hrest
  have hrest₂ : ((p.skip 1).skip word.length).rest = next :: tail := rest_skip _ hrest₁
  rw [List.length_cons] at hfuel
  have hparsed := parsed_of_derives he fuel _ next tail hrest₁ rfl (by omega)
  rw [parsePrimary, advance_of_rest hrest, ok_bind]
  simp only [hopening, hparsed, ok_bind, matchKind_false_of_rest hrest₂ hnext, Bool.false_eq_true,
    if_false]
  exact report_of_rest hrest₂ _

theorem Rejected.firstArgument (ih : Rejected D (.expression 0) word token behind message) :
    Rejected D .arguments word token behind message := by
  intro fuel p tail hrest hfuel
  obtain ⟨fuel, rfl⟩ : ∃ n, fuel = n + 1 := ⟨fuel - 1, by omega⟩
  rw [parseArguments, ih fuel p tail hrest (by omega), error_bind]

theorem Rejected.laterArguments (comma : Token D) (hcomma : comma.kind = .comma)
    (he : Derives (.expression 0 .comma word e))
    (ih : Rejected D .arguments word' token behind message) :
    Rejected D .arguments (word ++ comma :: word') token behind message := by
  intro fuel p tail hrest hfuel
  obtain ⟨fuel, rfl⟩ : ∃ n, fuel = n + 1 := ⟨fuel - 1, by omega⟩
  have hrest₀ : p.rest = word ++ comma :: (word' ++ token :: (behind ++ tail)) := by
    simpa using hrest
  have hrest₁ : (p.skip word.length).rest = comma :: (word' ++ token :: (behind ++ tail)) :=
    rest_skip _ hrest₀
  have hrest₂ : ((p.skip word.length).skip 1).rest = word' ++ token :: (behind ++ tail) :=
    rest_skip [comma] hrest₁
  simp only [List.length_append, List.length_cons] at hfuel
  rw [parseArguments, parsed_of_derives he fuel p comma _ hrest₀ hcomma (by omega), ok_bind]
  simp only [matchKind_true_of_rest hrest₁ hcomma, ok_bind, if_true,
    ih fuel _ tail hrest₂ (by omega), error_bind]

theorem Rejected.operand (ih : Rejected D .primary word token behind message) :
    Rejected D (.expression minBindingPower) word token behind message := by
  intro fuel p tail hrest hfuel
  obtain ⟨fuel, rfl⟩ : ∃ n, fuel = n + 1 := ⟨fuel - 1, by omega⟩
  rw [parseExpression, ih fuel p tail hrest (by omega), error_bind]

theorem Rejected.operators (hprimary : Derives (.primary (nextKind word' token.kind) word e))
    (ih : Rejected D (.operators minBindingPower) word' token behind message) :
    Rejected D (.expression minBindingPower) (word ++ word') token behind message := by
  intro fuel p tail hrest hfuel
  obtain ⟨fuel, rfl⟩ : ∃ n, fuel = n + 1 := ⟨fuel - 1, by omega⟩
  rw [List.append_assoc] at hrest
  have hrest₁ : (p.skip word.length).rest = word' ++ token :: (behind ++ tail) := rest_skip _ hrest
  have hpos : 0 < word.length := List.length_pos_iff.mpr (hprimary.word_ne_nil rfl)
  obtain ⟨first, rest, hfirst, hkind⟩ := exists_next word' token (behind ++ tail)
  rw [hfirst] at hrest
  rw [List.length_append] at hfuel
  rw [parseExpression, parsed_of_derives hprimary fuel p first rest hrest hkind (by omega), ok_bind]
  exact ih fuel _ tail e hrest₁ (by omega)

theorem Rejected.thenPart (question : Token D) (hquestion : question.kind = .question)
    (ih : Rejected D (.expression 0) word token behind message) :
    Rejected D (.operators minBindingPower) (question :: word) token behind message := by
  intro fuel p tail lhs hrest hfuel
  obtain ⟨fuel, rfl⟩ : ∃ n, fuel = n + 1 := ⟨fuel - 1, by omega⟩
  have hrest₁ : (p.skip 1).rest = word ++ token :: (behind ++ tail) := rest_skip [question] hrest
  rw [List.length_cons] at hfuel
  rw [parseOperators, matchKind_true_of_rest hrest hquestion, ok_bind]
  simp only [if_true, ih fuel _ tail hrest₁ (by omega), error_bind]

theorem Rejected.missingColon (question : Token D) (hquestion : question.kind = .question)
    (hnext : next.kind ≠ .colon) (hthen : Derives (.expression 0 next.kind word e)) :
    Rejected D (.operators minBindingPower) (question :: word) next [] "Missing ':' in ternary" := by
  intro fuel p tail lhs hrest hfuel
  obtain ⟨fuel, rfl⟩ : ∃ n, fuel = n + 1 := ⟨fuel - 1, by omega⟩
  have hrest₁ : (p.skip 1).rest = word ++ next :: tail := rest_skip [question] hrest
  have hrest₂ : ((p.skip 1).skip word.length).rest = next :: tail := rest_skip _ hrest₁
  rw [List.length_cons] at hfuel
  have hparsed := parsed_of_derives hthen fuel _ next tail hrest₁ rfl (by omega)
  rw [parseOperators, matchKind_true_of_rest hrest hquestion, ok_bind]
  simp only [if_true, hparsed, ok_bind, matchKind_false_of_rest hrest₂ hnext, Bool.false_eq_true,
    if_false]
  exact report_of_rest hrest₂ _

theorem Rejected.elsePart {thenWord : List (Token D)} {thenExpr : ExpressionTree D}
    (question colon : Token D) (hquestion : question.kind = .question) (hcolon : colon.kind = .colon)
    (hthen : Derives (.expression 0 .colon thenWord thenExpr))
    (ih : Rejected D (.expression 0) word token behind message) :
    Rejected D (.operators minBindingPower) (question :: (thenWord ++ colon :: word)) token behind
      message := by
  intro fuel p tail lhs hrest hfuel
  obtain ⟨fuel, rfl⟩ : ∃ n, fuel = n + 1 := ⟨fuel - 1, by omega⟩
  have hrest₀ : p.rest = question :: (thenWord ++ colon :: (word ++ token :: (behind ++ tail))) := by
    simpa using hrest
  have hrest₁ : (p.skip 1).rest = thenWord ++ colon :: (word ++ token :: (behind ++ tail)) :=
    rest_skip [question] hrest₀
  have hrest₂ : ((p.skip 1).skip thenWord.length).rest =
      colon :: (word ++ token :: (behind ++ tail)) := rest_skip _ hrest₁
  have hrest₃ : (((p.skip 1).skip thenWord.length).skip 1).rest =
      word ++ token :: (behind ++ tail) := rest_skip [colon] hrest₂
  simp only [List.length_cons, List.length_append] at hfuel
  have hparsed := parsed_of_derives hthen fuel _ colon _ hrest₁ hcolon (by omega)
  rw [parseOperators, matchKind_true_of_rest hrest₀ hquestion, ok_bind]
  simp only [if_true, hparsed, ok_bind, matchKind_true_of_rest hrest₂ hcolon,
    ih fuel _ tail hrest₃ (by omega), error_bind]

theorem Rejected.afterTernary {thenWord elseWord : List (Token D)} {thenExpr elseExpr : ExpressionTree D}
    (question colon : Token D) (hquestion : question.kind = .question) (hcolon : colon.kind = .colon)
    (hthen : Derives (.expression 0 .colon thenWord thenExpr))
    (helse : Derives (.expression 0 (nextKind word token.kind) elseWord elseExpr))
    (ih : Rejected D (.operators minBindingPower) word token behind message) :
    Rejected D (.operators minBindingPower) (question :: (thenWord ++ colon :: (elseWord ++ word)))
      token behind message := by
  intro fuel p tail lhs hrest hfuel
  obtain ⟨fuel, rfl⟩ : ∃ n, fuel = n + 1 := ⟨fuel - 1, by omega⟩
  have hrest₀ : p.rest = question ::
      (thenWord ++ colon :: (elseWord ++ (word ++ token :: (behind ++ tail)))) := by
    simpa using hrest
  have hrest₁ : (p.skip 1).rest =
      thenWord ++ colon :: (elseWord ++ (word ++ token :: (behind ++ tail))) :=
    rest_skip [question] hrest₀
  have hrest₂ : ((p.skip 1).skip thenWord.length).rest =
      colon :: (elseWord ++ (word ++ token :: (behind ++ tail))) := rest_skip _ hrest₁
  have hrest₃ : (((p.skip 1).skip thenWord.length).skip 1).rest =
      elseWord ++ (word ++ token :: (behind ++ tail)) := rest_skip [colon] hrest₂
  have hrest₄ : ((((p.skip 1).skip thenWord.length).skip 1).skip elseWord.length).rest =
      word ++ token :: (behind ++ tail) := rest_skip _ hrest₃
  obtain ⟨first, rest, hfirst, hkind⟩ := exists_next word token (behind ++ tail)
  obtain ⟨last, hlast, -⟩ := peek_neg_one (helse.word_ne_nil rfl) hrest₃ (by simp)
  simp only [List.length_cons, List.length_append] at hfuel
  have hparsed := parsed_of_derives hthen fuel _ colon _ hrest₁ hcolon (by omega)
  have hparsed' := parsed_of_derives helse fuel _ first rest (hrest₃.trans (by rw [hfirst])) hkind
    (by omega)
  rw [parseOperators, matchKind_true_of_rest hrest₀ hquestion, ok_bind]
  simp only [if_true, hparsed, ok_bind, matchKind_true_of_rest hrest₂ hcolon, hparsed', hlast]
  exact ih fuel _ tail _ hrest₄ (by omega)

theorem Rejected.rightOperand (op : Token D) (hoperator : 0 ≤ leftBindingPower op.kind)
    (hpower : minBindingPower ≤ leftBindingPower op.kind)
    (ih : Rejected D (.expression (rightBindingPower op.kind)) word token behind message) :
    Rejected D (.operators minBindingPower) (op :: word) token behind message := by
  intro fuel p tail lhs hrest hfuel
  obtain ⟨fuel, rfl⟩ : ∃ n, fuel = n + 1 := ⟨fuel - 1, by omega⟩
  have hrest₁ : (p.skip 1).rest = word ++ token :: (behind ++ tail) := rest_skip [op] hrest
  have hquestion := ne_question_of_leftBindingPower hoperator
  rw [List.length_cons] at hfuel
  rw [parseOperators, matchKind_false_of_rest hrest hquestion, ok_bind]
  simp only [Bool.false_eq_true, if_false, peek_of_rest hrest, ok_bind,
    if_neg (Int.not_lt.mpr hpower), advance_of_rest hrest, ih fuel _ tail hrest₁ (by omega),
    error_bind]

theorem Rejected.afterBinary {rhsWord : List (Token D)} {rhs : ExpressionTree D} (op : Token D)
    (hoperator : 0 ≤ leftBindingPower op.kind) (hpower : minBindingPower ≤ leftBindingPower op.kind)
    (hrhs : Derives (.expression (rightBindingPower op.kind) (nextKind word token.kind) rhsWord rhs))
    (ih : Rejected D (.operators minBindingPower) word token behind message) :
    Rejected D (.operators minBindingPower) (op :: (rhsWord ++ word)) token behind message := by
  intro fuel p tail lhs hrest hfuel
  obtain ⟨fuel, rfl⟩ : ∃ n, fuel = n + 1 := ⟨fuel - 1, by omega⟩
  have hrest₀ : p.rest = op :: (rhsWord ++ (word ++ token :: (behind ++ tail))) := by
    simpa using hrest
  have hrest₁ : (p.skip 1).rest = rhsWord ++ (word ++ token :: (behind ++ tail)) :=
    rest_skip [op] hrest₀
  have hrest₂ : ((p.skip 1).skip rhsWord.length).rest = word ++ token :: (behind ++ tail) :=
    rest_skip _ hrest₁
  have hquestion := ne_question_of_leftBindingPower hoperator
  obtain ⟨first, rest, hfirst, hkind⟩ := exists_next word token (behind ++ tail)
  obtain ⟨last, hlast, -⟩ := peek_neg_one (hrhs.word_ne_nil rfl) hrest₁ (by simp)
  simp only [List.length_cons, List.length_append] at hfuel
  have hparsed := parsed_of_derives hrhs fuel _ first rest (hrest₁.trans (by rw [hfirst])) hkind
    (by omega)
  rw [parseOperators, matchKind_false_of_rest hrest₀ hquestion, ok_bind]
  simp only [Bool.false_eq_true, if_false, peek_of_rest hrest₀, ok_bind,
    if_neg (Int.not_lt.mpr hpower), advance_of_rest hrest₀, hparsed, hlast]
  exact ih fuel _ tail _ hrest₂ (by omega)

end Rejected

/-- **Completeness.**  The parser follows every path to an error. -/
theorem rejected_of_rejects {goal : Goal} {word : List (Token D)} {token : Token D}
    {behind : List (Token D)} {message : String} (h : Rejects goal word token behind message) :
    Rejected D goal word token behind message := by
  induction h with
  | unexpected token hkind => exact .unexpected hkind
  | bareIdentifier name next hname hnext => exact .bareIdentifier hname hnext
  | callArguments name opening hname hopening hfirst _ ih =>
      exact .callArguments name opening hname hopening hfirst ih
  | unclosedCall name opening next hname hopening hnext hargs =>
      exact .unclosedCall name opening hname hopening hnext hargs
  | unary op hop _ ih => exact .unary op hop ih
  | paren opening hopening _ ih => exact .paren opening hopening ih
  | unclosedParen opening next hopening hnext he => exact .unclosedParen opening hopening hnext he
  | firstArgument _ ih => exact .firstArgument ih
  | laterArguments comma hcomma he _ ih => exact .laterArguments comma hcomma he ih
  | operand _ ih => exact .operand ih
  | operators hprimary _ ih => exact .operators hprimary ih
  | thenPart question hquestion _ ih => exact .thenPart question hquestion ih
  | missingColon question next hquestion hnext hthen =>
      exact .missingColon question hquestion hnext hthen
  | elsePart question colon hquestion hcolon hthen _ ih =>
      exact .elsePart question colon hquestion hcolon hthen ih
  | afterTernary question colon hquestion hcolon hthen helse _ ih =>
      exact .afterTernary question colon hquestion hcolon hthen helse ih
  | rightOperand op hoperator hpower _ ih => exact .rightOperand op hoperator hpower ih
  | afterBinary op hoperator hpower hrhs _ ih => exact .afterBinary op hoperator hpower hrhs ih

/-! ### The whole parse -/

/-- The errors of `parse(false)`: inside the expression, or behind it. -/
inductive Refuses : List (Token D) → Token D → List (Token D) → String → Prop
  | inside {word token behind message} (h : Rejects (.expression 0) word token behind message) :
      Refuses word token behind message
  | trailing {word e} (next : Token D) (hnext : next.kind ≠ .endOfFile)
      (h : Derives (.expression 0 next.kind word e)) :
      Refuses word next [] "Unexpected trailing tokens"

/-- A list that starts in this way is refused, whatever else it holds. -/
theorem refused_of_refuses [Double D] {word : List (Token D)} {token : Token D}
    {behind : List (Token D)} {message : String} (h : Refuses word token behind message)
    (tail : List (Token D)) : parse (word ++ token :: (behind ++ tail)) false =
      .error (.error (reportAt message token)) := by
  have hrest (tokens : List (Token D)) : (⟨tokens, 0⟩ : Parser D).rest = tokens := rfl
  rw [parse]
  cases h with
  | inside h =>
      have hfuel : 2 * word.length + 2 ≤ 2 * (word ++ token :: (behind ++ tail)).length + 2 := by
        simp only [List.length_append, List.length_cons]
        omega
      rw [rejected_of_rejects h _ _ tail (hrest _) hfuel, error_bind]
  | trailing _ hnext h =>
      have hparsed := parsed_of_derives h (2 * (word ++ token :: tail).length + 2)
        ⟨word ++ token :: tail, 0⟩ token tail (hrest _) rfl (by simp; omega)
      have hbehind : ((⟨word ++ token :: tail, 0⟩ : Parser D).skip word.length).rest = token :: tail :=
        rest_skip _ (hrest _)
      rw [List.nil_append, hparsed, ok_bind]
      simp only [matchKind_false_of_rest hbehind hnext, ok_bind, Bool.false_eq_true, if_false]
      exact report_of_rest hbehind _

/-- **Rejection.**  The errors of `parse(false)` on a list that ends with `EndOfFile`. -/
theorem parse_eq_error_iff [Double D] {tokens : List (Token D)} (hterm : Terminated tokens)
    {info : ErrorInfo} : parse tokens false = .error (.error info) ↔
      ∃ word token behind tail message, tokens = word ++ token :: (behind ++ tail) ∧
        Refuses word token behind message ∧ info = reportAt message token := by
  constructor
  · intro h
    have hterm' : Terminated (⟨tokens, 0⟩ : Parser D).rest := hterm
    rw [parse] at h
    rcases bind_eq_error.mp h with h | ⟨⟨ast, p⟩, hparse, h⟩
    · obtain ⟨word, token, behind, tail, message, hrest, hrejects, hinfo⟩ :=
        (rejectsAt _).expression 0 _ _ (Int.le_refl 0) hterm' h
      exact ⟨word, token, behind, tail, message, hrest, .inside hrejects, hinfo⟩
    · obtain ⟨word, hword, hderives⟩ :=
        (soundAt _).expression 0 _ _ _ (Int.le_refl 0) hterm' hparse
      obtain ⟨next, tail, hnext⟩ := hword.terminated.exists_cons
      by_cases hend : next.kind = .endOfFile
      · simp [matchKind_true_of_rest hnext hend, verify] at h
      · simp only [matchKind_false_of_rest hnext hend, ok_bind, Bool.false_eq_true, if_false,
          report_of_rest hnext] at h
        cases h
        have hlist : tokens = word ++ p.rest := hword.rest
        rw [hnext, nextKind_cons] at hderives
        exact ⟨word, next, [], tail, _, by rw [hlist, hnext]; rfl, .trailing next hend hderives, rfl⟩
  · rintro ⟨word, token, behind, tail, message, rfl, h, rfl⟩
    exact refused_of_refuses h tail

/-- An error of a parse with folding comes from the parser, or from the folder. -/
theorem parse_error_cases [Double D] {tokens : List (Token D)} {fold : Bool} {info : ErrorInfo}
    (h : parse tokens fold = .error (.error info)) :
    parse tokens false = .error (.error info) ∨
      ∃ e, parse tokens false = .ok e ∧ foldConstants e = .error info := by
  cases fold with
  | false => exact Or.inl h
  | true =>
      rw [parse] at h ⊢
      rcases bind_eq_error.mp h with h | ⟨⟨ast, p⟩, hast, h⟩
      · exact Or.inl (by rw [h, error_bind])
      rw [hast, ok_bind]
      dsimp only at h ⊢
      rcases bind_eq_error.mp h with h | ⟨⟨atEnd, p'⟩, hend, h⟩
      · exact Or.inl (by rw [h, error_bind])
      rw [hend, ok_bind]
      cases atEnd with
      | false => exact Or.inl h
      | true =>
          refine Or.inr ⟨ast, rfl, ?_⟩
          cases hfold : foldConstants ast with
          | ok ast' => simp [hfold, verify] at h
          | error info' =>
              simp only [hfold, if_true] at h
              cases h
              rfl

end Parser

end StatForge.Dsl
