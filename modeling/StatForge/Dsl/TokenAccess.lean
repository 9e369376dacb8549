import StatForge.Dsl.Grammar
import StatForge.Lib.Fuel

/-!
# Accesses to the token list

`advance()` reads without a bounds check, and `peek()` hides a position behind the end.  The token
`EndOfFile` keeps the parser inside the list: it is read only in front of an error, which ends every
call that is pending.

* `Proper` — the results of a call that neither leaves the list nor runs out of fuel.
* `SettlesUpTo` — the four functions, on lists of bounded length: every call consumes a token before
  it calls itself again, so the fuel that it needs is twice the number of unread tokens.
* `parse_stays_in_range` — the whole parse.
-/

namespace StatForge.Dsl.Parser

open ExceptBind Fuel

variable {D α β : Type} {p p' : Parser D} {bound : Nat}

/-- A proper result of a call at `p`: a value behind a word with the property, or an error
message. -/
def Proper (p : Parser D) (property : List (Token D) → Prop) : Except Stop (α × Parser D) → Prop
  | .ok (_, p') => ∃ word, Reads p word p' ∧ property word
  | .error (.error _) => True
  | .error (.abort _) => False

variable {Word Word' : List (Token D) → Prop}

/-- An error message ends the calls that are pending. -/
theorem Proper.of_error {stop : Stop} (h : @Proper D α p Word (.error stop)) :
    @Proper D β p' Word' (.error stop) := by
  cases stop with
  | error info => trivial
  | abort reason => exact h

/-! ### Rules for the steps of a call -/

theorem Reads.length_eq {word : List (Token D)} (h : Reads p word p') :
    p.rest.length = word.length + p'.rest.length := by
  rw [h.rest, List.length_append]

theorem Reads.length_single {token : Token D} (h : Reads p [token] p') :
    p.rest.length = p'.rest.length + 1 := by
  rw [h.length_eq, List.length_singleton, Nat.add_comm]

theorem settles_value {a : α} {word : List (Token D)} (h : Reads p word p') (hword : Word word) :
    Settles bound (fun _ => Except.ok (a, p')) (Proper p Word) :=
  .pure ⟨word, h, hword⟩

theorem settles_invalid (message : String) (span : Span) :
    Settles bound (fun _ => invalid message span) (@Proper D α p Word) :=
  .pure trivial

/-- An error at the next token: there is one. -/
theorem settles_report (hterm : Terminated p'.rest) (message : String) :
    Settles bound (fun _ => p'.peek >>= fun here => invalid message here.span)
      (@Proper D α p Word) := by
  obtain ⟨token, tail, hrest⟩ := hterm.exists_cons
  simp only [peek_of_rest hrest, ok_bind]
  exact settles_invalid message token.span

/-- A call inside a call. -/
theorem settles_call {first : Nat → Except Stop (α × Parser D)}
    {next : Nat → α × Parser D → Except Stop (β × Parser D)} {bound' : Nat}
    (h : Settles bound' first (Proper p' Word')) (hle : bound' ≤ bound)
    (hnext : ∀ a p'' word, Reads p' word p'' → Word' word →
      Settles bound (fun fuel => next fuel (a, p'')) (Proper p Word)) :
    Settles bound (fun fuel => first fuel >>= next fuel) (Proper p Word) := by
  refine (h.mono hle).bind (fun stop hstop => hstop.of_error) fun result hresult => ?_
  obtain ⟨a, p''⟩ := result
  obtain ⟨word, hword, hproperty⟩ := hresult
  exact hnext a p'' word hword hproperty

/-- A `match` inside a call. -/
theorem settles_matchKind {kind : TokenKind}
    {next : Nat → Bool × Parser D → Except Stop (β × Parser D)}
    (hterm : Terminated p'.rest) (hkind : kind ≠ .endOfFile)
    (htrue : ∀ token p'', Reads p' [token] p'' →
      Settles bound (fun fuel => next fuel (true, p'')) (Proper p Word))
    (hfalse : Settles bound (fun fuel => next fuel (false, p')) (Proper p Word)) :
    Settles bound (fun fuel => p'.matchKind kind >>= next fuel) (Proper p Word) := by
  obtain ⟨token, tail, hrest⟩ := hterm.exists_cons
  by_cases htoken : token.kind = kind
  · simp only [matchKind_true_of_rest hrest htoken, ok_bind]
    exact htrue token _ (.single hterm hrest (htoken ▸ hkind))
  · simp only [matchKind_false_of_rest hrest htoken, ok_bind]
    exact hfalse

/-- The closing parenthesis of a call: it is read, or its absence is reported. -/
theorem settles_closed {a : α} {word : List (Token D)} (hword : Reads p word p')
    (hproperty : ∀ closing, Word (word ++ [closing])) (message : String) :
    Settles bound (fun _ => p'.matchKind .rightParen >>= fun x =>
      if x.1 then .ok (a, x.2) else x.2.peek >>= fun here => invalid message here.span)
      (Proper p Word) := by
  refine settles_matchKind hword.terminated (by simp) (fun closing p'' hclosing => ?_) ?_
  · simp only [if_true]
    exact settles_value (hword.append hclosing) (hproperty closing)
  · simp only [Bool.false_eq_true, if_false]
    exact settles_report hword.terminated message

/-- A call at the end of a call: the words follow each other. -/
theorem settles_continue {computation : Nat → Except Stop (α × Parser D)} {word : List (Token D)}
    {bound' : Nat} (hword : Reads p word p')
    (hproperty : ∀ word', Word' word' → Word (word ++ word'))
    (h : Settles bound' computation (Proper p' Word')) (hle : bound' ≤ bound) :
    Settles bound computation (Proper p Word) := by
  refine (h.mono hle).imp fun result hresult => ?_
  cases result with
  | error stop => exact hresult.of_error
  | ok value =>
      obtain ⟨word', hword', hproperty'⟩ := hresult
      exact ⟨word ++ word', hword.append hword', hproperty word' hproperty'⟩

/-- Behind a word that has been read, `peek(-1)` reads a token. -/
theorem Reads.exists_peek {word : List (Token D)} (h : Reads p word p') (hword : word ≠ []) :
    ∃ token, p'.peek (-1) = .ok token := by
  obtain ⟨token, htoken, -⟩ := peek_neg_one hword h.rest h.terminated.ne_nil
  exact ⟨token, h.skip ▸ htoken⟩

/-! ### The four functions -/

/-- The four functions settle on proper results while at most `n` tokens are unread. -/
structure SettlesUpTo (D : Type) (n : Nat) : Prop where
  primary : ∀ p : Parser D, Terminated p.rest → p.rest.length ≤ n →
    Settles (2 * p.rest.length) (fun fuel => parsePrimary fuel p) (Proper p (· ≠ []))
  arguments : ∀ p : Parser D, Terminated p.rest → p.rest.length ≤ n →
    Settles (2 * p.rest.length + 2) (fun fuel => parseArguments fuel p) (Proper p (· ≠ []))
  expression : ∀ minBindingPower, ∀ p : Parser D, 0 ≤ minBindingPower →
    Terminated p.rest → p.rest.length ≤ n →
    Settles (2 * p.rest.length + 1) (fun fuel => parseExpression fuel minBindingPower p)
      (Proper p (· ≠ []))
  operators : ∀ minBindingPower lhs, ∀ p : Parser D, 0 ≤ minBindingPower →
    Terminated p.rest → p.rest.length ≤ n →
    Settles (2 * p.rest.length + 1) (fun fuel => parseOperators fuel minBindingPower lhs p)
      (Proper p fun _ => True)

section Step

variable {n : Nat} (ih : SettlesUpTo D n)

include ih

theorem primary_settles (hterm : Terminated p.rest) (hlength : p.rest.length ≤ n + 1) :
    Settles (2 * p.rest.length) (fun fuel => parsePrimary fuel p) (Proper p (· ≠ [])) := by
  obtain ⟨token, tail, hrest⟩ := hterm.exists_cons
  have htail : p.rest.length = tail.length + 1 := by rw [hrest, List.length_cons]
  rw [show 2 * p.rest.length = 2 * tail.length + 1 + 1 by omega]
  refine .succ ?_
  simp only [parsePrimary, advance_of_rest hrest, ok_bind]
  by_cases hend : token.kind = .endOfFile
  · -- The end token has been consumed, and nothing is read behind it.
    simp only [hend]
    exact settles_invalid _ _
  have hfirst : Reads p [token] (p.skip 1) := .single hterm hrest hend
  have hlen := hfirst.length_single
  have hunary : Settles (2 * tail.length + 1) (fun fuel =>
      parseExpression fuel 11 (p.skip 1) >>= fun x =>
        .ok (ExpressionTree.unary token.kind x.1 token.span, x.2))
      (Proper p (· ≠ [])) := by
    refine settles_call (ih.expression 11 _ (by decide) hfirst.terminated (by omega)) (by omega) ?_
    intro rhs p' word hword _
    exact settles_value (hfirst.cons hword) (by simp)
  cases hkind : token.kind with
  | number => exact settles_value hfirst (by simp)
  | nodeRef => exact settles_value hfirst (by simp)
  | identifier =>
      dsimp only
      refine settles_matchKind hfirst.terminated (by simp) (fun opening p₂ hopening => ?_) ?_
      · simp only [if_true]
        refine settles_matchKind hopening.terminated (by simp) (fun closing p₃ hclosing => ?_) ?_
        · simp only [if_true]
          exact settles_value (hfirst.cons (hopening.cons hclosing)) (by simp)
        · simp only [Bool.false_eq_true, if_false]
          have hlen' := hopening.length_single
          refine settles_call (ih.arguments _ hopening.terminated (by omega)) (by omega) ?_
          intro args p₃ word hword _
          exact settles_closed (hfirst.cons (hopening.cons hword)) (by simp) _
      · exact settles_invalid _ _
  | plus =>
      rw [hkind] at hunary
      exact hunary
  | minus =>
      rw [hkind] at hunary
      exact hunary
  | bang =>
      rw [hkind] at hunary
      exact hunary
  | leftParen =>
      dsimp only
      refine settles_call (ih.expression 0 _ (Int.le_refl 0) hfirst.terminated (by omega))
        (by omega) ?_
      intro inner p₂ word hword _
      exact settles_closed (hfirst.cons hword) (by simp) _
  | _ => exact settles_invalid _ _

theorem operators_settles {minBindingPower : Int} (lhs : ExpressionTree D)
    (hmin : 0 ≤ minBindingPower) (hterm : Terminated p.rest) (hlength : p.rest.length ≤ n + 1) :
    Settles (2 * p.rest.length + 1) (fun fuel => parseOperators fuel minBindingPower lhs p)
      (Proper p fun _ => True) := by
  refine .succ ?_
  simp only [parseOperators]
  refine settles_matchKind hterm (by simp) (fun question p₁ hquestion => ?_) ?_
  · simp only [if_true]
    have hlen₁ := hquestion.length_single
    refine settles_call (ih.expression 0 _ (Int.le_refl 0) hquestion.terminated (by omega))
      (by omega) ?_
    intro thenExpr p₂ thenWord hthen _
    dsimp only
    refine settles_matchKind hthen.terminated (by simp) (fun colon p₃ hcolon => ?_) ?_
    · simp only [if_true]
      have hlen₂ := hthen.length_eq
      have hlen₃ := hcolon.length_single
      refine settles_call (ih.expression 0 _ (Int.le_refl 0) hcolon.terminated (by omega))
        (by omega) ?_
      intro elseExpr p₄ elseWord helse hne
      obtain ⟨last, hlast⟩ := helse.exists_peek hne
      have hlen₄ := helse.length_eq
      simp only [hlast, ok_bind]
      exact settles_continue (hquestion.cons (hthen.append (hcolon.cons helse)))
        (fun _ _ => trivial) (ih.operators _ _ _ hmin helse.terminated (by omega)) (by omega)
    · simp only [Bool.false_eq_true, if_false]
      exact settles_report hthen.terminated _
  · simp only [Bool.false_eq_true, if_false]
    obtain ⟨next, tail, hnext⟩ := hterm.exists_cons
    simp only [peek_of_rest hnext, ok_bind]
    by_cases hpower : leftBindingPower next.kind < minBindingPower
    · simp only [if_pos hpower]
      exact settles_value (.nil hterm) trivial
    · simp only [if_neg hpower, advance_of_rest hnext, ok_bind]
      have hoperator := Int.le_trans hmin (Int.not_lt.mp hpower)
      have hop : Reads p [next] (p.skip 1) :=
        .single hterm hnext (ne_endOfFile_of_leftBindingPower hoperator)
      have hlen₁ := hop.length_single
      refine settles_call (ih.expression _ _ (rightBindingPower_nonneg hoperator) hop.terminated
        (by omega)) (by omega) ?_
      intro rhs p₂ word hword hne
      obtain ⟨last, hlast⟩ := hword.exists_peek hne
      have hlen₂ := hword.length_eq
      simp only [hlast, ok_bind]
      exact settles_continue (hop.cons hword) (fun _ _ => trivial)
        (ih.operators _ _ _ hmin hword.terminated (by omega)) (by omega)

theorem expression_settles {minBindingPower : Int} (hmin : 0 ≤ minBindingPower)
    (hterm : Terminated p.rest) (hlength : p.rest.length ≤ n + 1) :
    Settles (2 * p.rest.length + 1) (fun fuel => parseExpression fuel minBindingPower p)
      (Proper p (· ≠ [])) := by
  refine .succ ?_
  simp only [parseExpression]
  refine settles_call (primary_settles ih hterm hlength) (Nat.le_refl _) ?_
  intro lhs p' word hword hne
  have hlen := hword.length_eq
  have hpos := List.length_pos_iff.mpr hne
  dsimp only
  exact settles_continue hword (fun _ _ => List.append_ne_nil_of_left_ne_nil hne _)
    (operators_settles ih lhs hmin hword.terminated (by omega)) (by omega)

theorem arguments_settles (hterm : Terminated p.rest) (hlength : p.rest.length ≤ n + 1) :
    Settles (2 * p.rest.length + 2) (fun fuel => parseArguments fuel p) (Proper p (· ≠ [])) := by
  refine .succ ?_
  simp only [parseArguments]
  refine settles_call (expression_settles ih (Int.le_refl 0) hterm hlength) (Nat.le_refl _) ?_
  intro arg p₁ word hword hne
  dsimp only
  refine settles_matchKind hword.terminated (by simp) (fun comma p₂ hcomma => ?_) ?_
  · simp only [if_true]
    have hlen := hword.length_eq
    have hlen' := hcomma.length_single
    refine settles_call (ih.arguments _ hcomma.terminated (by omega)) (by omega) ?_
    intro args p₃ word' hword' _
    exact settles_value (hword.append (hcomma.cons hword')) (by simp)
  · simp only [Bool.false_eq_true, if_false]
    exact settles_value hword hne

end Step

/-- **Every call settles.**  The induction is on the number of unread tokens. -/
theorem settlesUpTo (n : Nat) : SettlesUpTo D n := by
  induction n with
  | zero =>
      -- A terminated list is not empty.
      have hne (p : Parser D) (hterm : Terminated p.rest) : ¬ p.rest.length ≤ 0 := by
        have hpos := List.length_pos_iff.mpr hterm.ne_nil
        omega
      exact ⟨fun p hterm h => absurd h (hne p hterm), fun p hterm h => absurd h (hne p hterm),
        fun _ p _ hterm h => absurd h (hne p hterm), fun _ _ p _ hterm h => absurd h (hne p hterm)⟩
  | succ n ih =>
      exact ⟨fun _ => primary_settles ih, fun _ => arguments_settles ih,
        fun _ _ => expression_settles ih, fun _ lhs _ => operators_settles ih lhs⟩

/-- Behind the tree, `parse` reads the next token at most. -/
theorem finish_ne_abort [Double D] {ast : ExpressionTree D} {fold : Bool} {reason : Abort}
    (hterm : Terminated p.rest) :
    (p.matchKind .endOfFile >>= fun x =>
      if x.1 then
        match (if fold then foldConstants ast else .ok ast) with
        | .error info => .error (.error info)
        | .ok ast =>
            match verify ast with
            | .error info => .error (.error info)
            | .ok () => .ok ast
      else x.2.peek >>= fun here => invalid "Unexpected trailing tokens" here.span) ≠
      .error (.abort reason) := by
  obtain ⟨token, tail, hrest⟩ := hterm.exists_cons
  by_cases hend : token.kind = .endOfFile
  · simp only [matchKind_true_of_rest hrest hend, ok_bind, if_true]
    cases (if fold then foldConstants ast else .ok ast) with
    | error info => simp
    | ok ast => simp [verify]
  · simp [matchKind_false_of_rest hrest hend, peek_of_rest hrest, invalid]

/-- **No access behind the list, and an end.**  On tokens that end with `EndOfFile`, no `advance()`
and no `peek()` of a parse reads outside the list, which would be an abort, and the recursion ends:
more fuel than `parse` has makes no difference.  Further `EndOfFile` tokens in the body do no harm. -/
theorem parse_stays_in_range [Double D] (body : List (Token D)) (eof : Token D)
    (heof : eof.kind = .endOfFile) :
    (∀ fold reason, parse (body ++ [eof]) fold ≠ .error (.abort reason)) ∧
    ∃ result, ∀ fuel, 2 * (body ++ [eof]).length + 2 ≤ fuel →
      parseExpression fuel 0 ⟨body ++ [eof], 0⟩ = result := by
  have hterm : Terminated (⟨body ++ [eof], 0⟩ : Parser D).rest := ⟨body, eof, rfl, heof⟩
  have hlength : (⟨body ++ [eof], 0⟩ : Parser D).rest.length = (body ++ [eof]).length := rfl
  have hsettles := ((settlesUpTo _).expression 0 _ (Int.le_refl 0) hterm (Nat.le_refl _)).mono
    (show _ ≤ 2 * (body ++ [eof]).length + 2 by omega)
  constructor
  · intro fold reason habort
    have hproper := hsettles.post (Nat.le_refl _)
    rw [parse] at habort
    rcases bind_eq_error.mp habort with hparse | ⟨⟨ast, p⟩, hparse, hfinish⟩
    · rw [hparse] at hproper
      exact hproper
    · rw [hparse] at hproper
      obtain ⟨word, hword, -⟩ := hproper
      exact finish_ne_abort hword.terminated hfinish
  · obtain ⟨result, -, hresult⟩ := hsettles
    exact ⟨result, hresult⟩

section Instances

/-- In `f(1,` the end token itself is consumed, as the operand behind the comma, and reported. -/
theorem end_behind_comma_is_reported :
    let body := [sampleToken .identifier, sampleToken .leftParen, sampleNumber 1, sampleToken .comma]
    parse (body ++ [sampleToken .endOfFile]) true =
        .error (.error (buildErrorInfo .invalidDsl "Unexpected token in expression" (some {}))) ∧
      ∀ fold reason, parse (body ++ [sampleToken .endOfFile]) fold ≠ .error (.abort reason) := by
  intro body
  exact ⟨rfl, (parse_stays_in_range body (sampleToken .endOfFile) rfl).1⟩

end Instances

end StatForge.Dsl.Parser
