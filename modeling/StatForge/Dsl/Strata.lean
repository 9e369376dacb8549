import StatForge.Dsl.Grammar
import StatForge.Dsl.Precedence

/-!
# Precedence and associativity

The stratified grammar of formulas without `'?'`: one level for each strength of operators, so that
every word has at most one tree.

* `Level` — disjunctions, conjunctions, comparisons, sums, products, prefix operators, powers and
  primaries, from the loosest to the tightest.
* `Stratified` — the words of a level with their trees.
* `Derives.stratified` — a parse at a minimal binding power is a tree of the level that starts there.
* `Stratified.isRead` — the parser finds every tree of a level, in front of any token that binds no
  tighter than the level admits.
* `parse_eq_stratified_tree` — `parse(false)` returns the one tree of the stratified grammar.
-/

namespace StatForge.Dsl

variable {D : Type}

/-- The levels of the stratified grammar, the loosest first. -/
inductive Level
  | disjunction | conjunction | comparison | sum | product | unary | power | primary

namespace Level

/-- The level that binds next tighter. -/
def tighter : Level → Option Level
  | .disjunction => some .conjunction
  | .conjunction => some .comparison
  | .comparison => some .sum
  | .sum => some .product
  | .product => some .unary
  | .unary => some .power
  | .power => some .primary
  | .primary => none

/-- The left-associative operators of a level. -/
def isOperator : Level → TokenKind → Bool
  | .disjunction, .orOr => true
  | .conjunction, .andAnd => true
  | .comparison, .less | .comparison, .lessEqual | .comparison, .greater => true
  | .comparison, .greaterEqual | .comparison, .equalEqual | .comparison, .bangEqual => true
  | .sum, .plus | .sum, .minus => true
  | .product, .star | .product, .slash => true
  | _, _ => false

def rank : Level → Nat
  | .disjunction => 0
  | .conjunction => 1
  | .comparison => 2
  | .sum => 3
  | .product => 4
  | .unary => 5
  | .power => 6
  | .primary => 7

/-- The largest minimal binding power at which the parser reads the whole of a word of the level. -/
def entry : Level → Int
  | .disjunction => 5
  | .conjunction => 6
  | .comparison => 7
  | .sum => 8
  | .product => 9
  | .unary | .power | .primary => 11

/-- The largest binding power of a token that leaves a word of the level in front of it whole. -/
def limit : Level → Int
  | .disjunction => 5
  | .conjunction => 6
  | .comparison => 7
  | .sum => 8
  | .product => 9
  | .unary | .power => 10
  | .primary => 11

/-- The level of the expressions that the parser reads at a minimal binding power. -/
def reading (minBindingPower : Int) : Level :=
  if minBindingPower ≤ 5 then .disjunction
  else if minBindingPower ≤ 6 then .conjunction
  else if minBindingPower ≤ 7 then .comparison
  else if minBindingPower ≤ 8 then .sum
  else if minBindingPower ≤ 9 then .product
  else .unary

variable {level next : Level} {kind : TokenKind}

theorem rank_tighter (h : level.tighter = some next) : next.rank = level.rank + 1 := by
  cases level <;> cases h <;> rfl

theorem entry_le_tighter (h : level.tighter = some next) : level.entry ≤ next.entry := by
  cases level <;> cases h <;> simp [entry]

theorem limit_le_tighter (h : level.tighter = some next) : level.limit ≤ next.limit := by
  cases level <;> cases h <;> simp [limit]

theorem exists_tighter (h : level.rank < Level.primary.rank) : ∃ next, level.tighter = some next := by
  cases level with
  | primary => exact absurd h (lt_irrefl _)
  | _ => exact ⟨_, rfl⟩

/-- The operators of a level start to be read at its entry, and leave a left operand of the level
whole. -/
theorem leftBindingPower_eq (h : level.isOperator kind = true) :
    leftBindingPower kind = level.entry ∧ leftBindingPower kind = level.limit := by
  unfold isOperator at h
  split at h <;> first | exact ⟨rfl, rfl⟩ | cases h

theorem leftBindingPower_nonneg (h : level.isOperator kind = true) : 0 ≤ leftBindingPower kind := by
  rw [(leftBindingPower_eq h).1]
  cases level <;> simp [entry]

/-- The right operand of a left-associative operator is of the next tighter level. -/
theorem rightBindingPower_eq (h : level.isOperator kind = true) :
    rightBindingPower kind = leftBindingPower kind + 1 ∧
      level.tighter = some (reading (rightBindingPower kind)) := by
  unfold isOperator at h
  split at h <;> first | exact ⟨rfl, rfl⟩ | cases h

theorem rightBindingPower_le_entry (h : level.isOperator kind = true)
    (hnext : level.tighter = some next) : rightBindingPower kind ≤ next.entry := by
  obtain ⟨hright, -⟩ := rightBindingPower_eq h
  rw [hright, (leftBindingPower_eq h).1]
  cases level <;> cases hnext <;> simp_all [isOperator, entry]

/-- Every infix operator but `^` belongs to a level. -/
theorem exists_isOperator (hop : 0 ≤ leftBindingPower kind) (hcaret : kind ≠ .caret) :
    ∃ level : Level, level.isOperator kind = true := by
  cases kind with
  | orOr => exact ⟨.disjunction, rfl⟩
  | andAnd => exact ⟨.conjunction, rfl⟩
  | less | lessEqual | greater | greaterEqual | equalEqual | bangEqual => exact ⟨.comparison, rfl⟩
  | plus | minus => exact ⟨.sum, rfl⟩
  | star | slash => exact ⟨.product, rfl⟩
  | caret => exact absurd rfl hcaret
  | _ => simp [leftBindingPower] at hop

/-- A left operand that an operator leaves whole is at least as tight as the operator's level. -/
theorem rank_le_of_leftBindingPower_le {operand : Level} (h : level.isOperator kind = true)
    (hlimit : leftBindingPower kind ≤ operand.limit) : level.rank ≤ operand.rank := by
  rw [(leftBindingPower_eq h).2] at hlimit
  cases level with
  | unary | power | primary => cases h
  | _ => cases operand <;> simp_all [limit, rank]

/-- The level that is read at a minimal binding power takes in every operator from there on. -/
theorem rank_reading_le {minBindingPower : Int} (h : level.isOperator kind = true)
    (hpower : minBindingPower ≤ leftBindingPower kind) :
    (reading minBindingPower).rank ≤ level.rank := by
  rw [(leftBindingPower_eq h).1] at hpower
  unfold reading
  cases level <;> simp only [entry] at hpower <;> split_ifs <;> simp [rank]

theorem rank_reading_le_unary (minBindingPower : Int) :
    (reading minBindingPower).rank ≤ Level.unary.rank := by
  unfold reading
  split_ifs <;> simp [rank]

theorem leftBindingPower_le_limit_primary (kind : TokenKind) :
    leftBindingPower kind ≤ Level.primary.limit := by
  cases kind <;> simp [leftBindingPower, limit]

/-- Only a primary stays whole in front of `^`. -/
theorem eq_primary_of_caret (h : leftBindingPower .caret ≤ level.limit) : level = .primary := by
  cases level <;> simp_all [leftBindingPower, limit]

end Level

/-- An expression of a level, or the arguments of a call. -/
inductive Stratum (D : Type)
  | expression (level : Level) (e : ExpressionTree D)
  | arguments (args : List (ExpressionTree D))

/-- The words of the stratified grammar, with their trees. -/
inductive Stratified : Stratum D → List (Token D) → Prop
  | number (token : Token D) (hkind : token.kind = .number) :
      Stratified (.expression .primary (.literal token.number token.span)) [token]
  | nodeRef (token : Token D) (hkind : token.kind = .nodeRef) :
      Stratified (.expression .primary (.ref token.lexeme token.span)) [token]
  | callEmpty (name opening closing : Token D) (hname : name.kind = .identifier)
      (hopening : opening.kind = .leftParen) (hclosing : closing.kind = .rightParen) :
      Stratified (.expression .primary (.call name.lexeme [] name.span)) [name, opening, closing]
  | call {word args} (name opening closing : Token D) (hname : name.kind = .identifier)
      (hopening : opening.kind = .leftParen) (hclosing : closing.kind = .rightParen)
      (hargs : Stratified (.arguments args) word) :
      Stratified (.expression .primary (.call name.lexeme args name.span))
        (name :: opening :: (word ++ [closing]))
  | paren {word e} (opening closing : Token D) (hopening : opening.kind = .leftParen)
      (hclosing : closing.kind = .rightParen) (he : Stratified (.expression .disjunction e) word) :
      Stratified (.expression .primary e) (opening :: (word ++ [closing]))
  | tighter {level next word e} (hnext : Level.tighter level = some next)
      (he : Stratified (.expression next e) word) : Stratified (.expression level e) word
  | leftAssociative {level next lhsWord lhs rhsWord rhs} (op : Token D)
      (hop : Level.isOperator level op.kind = true) (hnext : Level.tighter level = some next)
      (hlhs : Stratified (.expression level lhs) lhsWord)
      (hrhs : Stratified (.expression next rhs) rhsWord) :
      Stratified (.expression level (.binary op.kind lhs rhs (lastSpan rhsWord)))
        (lhsWord ++ op :: rhsWord)
  | unary {word rhs} (op : Token D) (hop : op.kind = .plus ∨ op.kind = .minus ∨ op.kind = .bang)
      (hrhs : Stratified (.expression .unary rhs) word) :
      Stratified (.expression .unary (.unary op.kind rhs op.span)) (op :: word)
  | power {lhsWord lhs rhsWord rhs} (op : Token D) (hop : op.kind = .caret)
      (hlhs : Stratified (.expression .primary lhs) lhsWord)
      (hrhs : Stratified (.expression .unary rhs) rhsWord) :
      Stratified (.expression .power (.binary op.kind lhs rhs (lastSpan rhsWord)))
        (lhsWord ++ op :: rhsWord)
  | argument {word e} (he : Stratified (.expression .disjunction e) word) :
      Stratified (.arguments [e]) word
  | moreArguments {word e word' args} (comma : Token D) (hcomma : comma.kind = .comma)
      (he : Stratified (.expression .disjunction e) word) (hargs : Stratified (.arguments args) word') :
      Stratified (.arguments (e :: args)) (word ++ comma :: word')

/-- An expression of a level is one of every looser level. -/
theorem Stratified.loosen {level level' : Level} {e : ExpressionTree D} {word : List (Token D)}
    (h : Stratified (.expression level' e) word) (hrank : level.rank ≤ level'.rank) :
    Stratified (.expression level e) word := by
  induction hgap : level'.rank - level.rank generalizing level with
  | zero =>
      have hlevel : level = level' := by
        have heq : level.rank = level'.rank := by omega
        cases level <;> cases level' <;> first | rfl | cases heq
      exact hlevel ▸ h
  | succ gap ih =>
      have hprimary : level'.rank ≤ Level.primary.rank := by cases level' <;> simp [Level.rank]
      obtain ⟨next, hnext⟩ := Level.exists_tighter (by omega : level.rank < Level.primary.rank)
      have hrank' := Level.rank_tighter hnext
      exact .tighter hnext (ih (by omega) (by omega))

/-! ### From the parser to the stratified grammar -/

/-- An expression and its operator loop stop in front of a token that binds less tightly. -/
def Phrase.Stops : Phrase D → Prop
  | .expression minBindingPower follow _ _ => leftBindingPower follow < minBindingPower
  | .operators minBindingPower follow _ _ _ => leftBindingPower follow < minBindingPower
  | _ => True

theorem Derives.stops {phrase : Phrase D} (h : Derives phrase) : phrase.Stops := by
  induction h with
  | expression _ _ _ ih => exact ih
  | done _ hpower => exact hpower
  | ternary _ _ _ _ _ _ _ _ _ ih => exact ih
  | binary _ _ _ _ _ _ ih => exact ih
  | _ => trivial

/-- What a phrase of the parser is in the stratified grammar.  A loop goes on from any left operand
that the token behind it leaves whole. -/
def Phrase.InStrata : Phrase D → Prop
  | .primary follow word e =>
      Stratified (.expression .primary e) word ∨
        Stratified (.expression .unary e) word ∧ leftBindingPower follow ≤ Level.unary.limit
  | .arguments _ word args => Stratified (.arguments args) word
  | .expression minBindingPower _ word e =>
      Stratified (.expression (Level.reading minBindingPower) e) word
  | .operators minBindingPower follow lhs word e =>
      ∀ level lhsWord, Stratified (.expression level lhs) lhsWord →
        leftBindingPower (nextKind word follow) ≤ level.limit →
        (Level.reading minBindingPower).rank ≤ level.rank →
        Stratified (.expression (Level.reading minBindingPower) e) (lhsWord ++ word)

/-- **From the parser.**  Without `'?'`, what the parser reads at a minimal binding power is an
expression of the level that starts there. -/
theorem Derives.stratified {phrase : Phrase D} (h : Derives phrase)
    (hfree : ∀ token ∈ phrase.word, token.kind ≠ .question) : phrase.InStrata := by
  induction h with
  | number token hkind => exact Or.inl (.number token hkind)
  | nodeRef token hkind => exact Or.inl (.nodeRef token hkind)
  | callEmpty name opening closing hname hopening hclosing =>
      exact Or.inl (.callEmpty name opening closing hname hopening hclosing)
  | call name opening closing hname hopening hclosing _ ih =>
      refine Or.inl (.call name opening closing hname hopening hclosing (ih ?_))
      intro token htoken
      exact hfree token (by simp_all [Phrase.word])
  | unary op hop hrhs ih =>
      have hoperand := ih fun token htoken => hfree token (List.mem_cons_of_mem _ htoken)
      have hstop : leftBindingPower _ < (11 : Int) := hrhs.stops
      refine Or.inr ⟨.unary op hop hoperand, ?_⟩
      show leftBindingPower _ ≤ 10
      omega
  | paren opening closing hopening hclosing _ ih =>
      refine Or.inl (.paren opening closing hopening hclosing (ih ?_))
      intro token htoken
      exact hfree token (by simp_all [Phrase.word])
  | lastArgument _ _ ih => exact .argument (ih hfree)
  | moreArguments comma hcomma _ _ ih ih' =>
      refine .moreArguments comma hcomma (ih ?_) (ih' ?_)
      · intro token htoken
        exact hfree token (by simp_all [Phrase.word])
      · intro token htoken
        exact hfree token (by simp_all [Phrase.word])
  | expression _ _ ih ih' =>
      have hloop := ih' fun token htoken => hfree token (List.mem_append_right _ htoken)
      rcases ih fun token htoken => hfree token (List.mem_append_left _ htoken) with
        hprimary | ⟨hunary, hlimit⟩
      · refine hloop .primary _ hprimary (Level.leftBindingPower_le_limit_primary _) ?_
        exact (Level.rank_reading_le_unary _).trans (by simp [Level.rank])
      · exact hloop .unary _ hunary hlimit (Level.rank_reading_le_unary _)
  | done _ _ =>
      intro level lhsWord hlhs _ hrank
      rw [List.append_nil]
      exact hlhs.loosen hrank
  | ternary question colon hquestion hcolon _ _ _ _ _ _ =>
      exact absurd hquestion (hfree question List.mem_cons_self)
  | @binary minBindingPower follow lhs rhsWord rhs word e op hoperator hpower hrhs _ ih ih' =>
      intro level lhsWord hlhs hlimit hrank
      have hrhs' := ih fun token htoken => hfree token (by simp_all [Phrase.word])
      have hloop := ih' fun token htoken => hfree token (by simp_all [Phrase.word])
      have hstop : leftBindingPower (nextKind word follow) < rightBindingPower op.kind := hrhs.stops
      have hword : lhsWord ++ op :: (rhsWord ++ word) = (lhsWord ++ op :: rhsWord) ++ word := by simp
      rw [nextKind_cons] at hlimit
      rw [hword]
      by_cases hcaret : op.kind = .caret
      · -- A power: its left operand is a primary, its right operand may start with a prefix operator.
        obtain rfl := Level.eq_primary_of_caret (hcaret ▸ hlimit)
        have hright : rightBindingPower op.kind = 11 := by
          rw [hcaret]
          rfl
        rw [hright] at hstop hrhs'
        refine hloop .power _ (.power op hcaret hlhs hrhs') ?_ ?_
        · show leftBindingPower _ ≤ 10
          omega
        · exact (Level.rank_reading_le_unary _).trans (by simp [Level.rank])
      · obtain ⟨opLevel, hop⟩ := Level.exists_isOperator hoperator hcaret
        have hlhs' := hlhs.loosen (Level.rank_le_of_leftBindingPower_le hop hlimit)
        obtain ⟨hright, hnext⟩ := Level.rightBindingPower_eq hop
        refine hloop opLevel _ (.leftAssociative op hop hnext hlhs' hrhs') ?_ ?_
        · have := (Level.leftBindingPower_eq hop).2
          omega
        · exact Level.rank_reading_le hop hpower

/-! ### From the stratified grammar to the parser -/

/-- The parser reads a word of a stratum.  An expression is read at every minimal binding power up to
the level's entry, and whatever the loop makes of the tokens behind it. -/
def Stratum.IsRead : Stratum D → List (Token D) → Prop
  | .expression level e, word =>
      ∀ minBindingPower follow rest e', minBindingPower ≤ level.entry →
        leftBindingPower (nextKind rest follow) ≤ level.limit →
        nextKind rest follow ≠ .question →
        Derives (.operators minBindingPower follow e rest e') →
        Derives (.expression minBindingPower follow (word ++ rest) e')
  | .arguments args, word => Derives (.arguments .rightParen word args)

/-- A phrase that is a primary to the parser is read as it stands. -/
theorem Stratum.IsRead.of_primary {level : Level} {e : ExpressionTree D} {word : List (Token D)}
    (h : ∀ follow, leftBindingPower follow ≤ level.limit → follow ≠ .question →
      Derives (.primary follow word e)) :
    Stratum.IsRead (.expression level e) word := by
  intro minBindingPower follow rest e' _ hlimit hquestion hrest
  exact .expression (h _ hlimit hquestion) hrest

/-- An expression in front of a token that ends it. -/
theorem Stratum.IsRead.derives {level : Level} {e : ExpressionTree D} {word : List (Token D)}
    (h : Stratum.IsRead (.expression level e) word) {minBindingPower : Int} {follow : TokenKind}
    (hentry : minBindingPower ≤ level.entry) (hlimit : leftBindingPower follow ≤ level.limit)
    (hquestion : follow ≠ .question) (hpower : leftBindingPower follow < minBindingPower) :
    Derives (.expression minBindingPower follow word e) := by
  have hread := h minBindingPower follow [] e hentry hlimit hquestion (.done hquestion hpower)
  rwa [List.append_nil] at hread

/-- A disjunction in front of a token that is no operator and no `'?'`. -/
theorem Stratum.IsRead.closed {e : ExpressionTree D} {word : List (Token D)}
    (h : Stratum.IsRead (.expression .disjunction e) word) {follow : TokenKind}
    (hfollow : Closes follow) : Derives (.expression 0 follow word e) := by
  obtain ⟨hquestion, hpower⟩ := hfollow
  refine h.derives ?_ ?_ hquestion hpower
  · show (0 : Int) ≤ 5
    omega
  · show leftBindingPower follow ≤ 5
    omega

/-- Two operands and an infix operator between them.  The operator leaves the left operand whole, and
the right operand is read at the operator's right binding power. -/
theorem Stratum.IsRead.binary {level left right : Level} {lhs rhs : ExpressionTree D}
    {lhsWord rhsWord : List (Token D)} (op : Token D)
    (hlhs : Stratum.IsRead (.expression left lhs) lhsWord)
    (hrhs : Stratum.IsRead (.expression right rhs) rhsWord)
    (hoperator : 0 ≤ leftBindingPower op.kind) (hlimit : leftBindingPower op.kind ≤ left.limit)
    (hentry : level.entry ≤ left.entry) (hpower : level.entry ≤ leftBindingPower op.kind)
    (hright : rightBindingPower op.kind ≤ right.entry) (hright' : level.limit ≤ right.limit)
    (hstop : level.limit < rightBindingPower op.kind) :
    Stratum.IsRead (.expression level (.binary op.kind lhs rhs (lastSpan rhsWord)))
      (lhsWord ++ op :: rhsWord) := by
  intro minBindingPower follow rest e' hmin hnext hquestion hrest
  have hrhs' := hrhs.derives hright (hnext.trans hright') hquestion (by omega)
  rw [List.append_assoc]
  refine hlhs minBindingPower follow (op :: rhsWord ++ rest) e' (by omega) hlimit
    (ne_question_of_leftBindingPower hoperator) ?_
  exact .binary op hoperator (by omega) hrhs' hrest

/-- **To the parser.**  The parser reads every word of the stratified grammar to its tree. -/
theorem Stratified.isRead {stratum : Stratum D} {word : List (Token D)}
    (h : Stratified stratum word) : stratum.IsRead word := by
  induction h with
  | number token hkind => exact .of_primary fun _ _ _ => .number token hkind
  | nodeRef token hkind => exact .of_primary fun _ _ _ => .nodeRef token hkind
  | callEmpty name opening closing hname hopening hclosing =>
      exact .of_primary fun _ _ _ => .callEmpty name opening closing hname hopening hclosing
  | call name opening closing hname hopening hclosing _ ih =>
      exact .of_primary fun _ _ _ => .call name opening closing hname hopening hclosing ih
  | paren opening closing hopening hclosing _ ih =>
      exact .of_primary fun _ _ _ => .paren opening closing hopening hclosing
        (ih.closed closes_rightParen)
  | tighter hnext _ ih =>
      intro minBindingPower follow rest e' hmin hlimit hquestion hrest
      exact ih minBindingPower follow rest e' (hmin.trans (Level.entry_le_tighter hnext))
        (hlimit.trans (Level.limit_le_tighter hnext)) hquestion hrest
  | leftAssociative op hop hnext _ _ ih ih' =>
      obtain ⟨hentry, hlimit⟩ := Level.leftBindingPower_eq hop
      have hright := (Level.rightBindingPower_eq hop).1
      exact ih.binary op ih' (Level.leftBindingPower_nonneg hop) hlimit.le (le_refl _) hentry.ge
        (Level.rightBindingPower_le_entry hop hnext) (Level.limit_le_tighter hnext) (by omega)
  | unary op hop _ ih =>
      refine .of_primary fun follow hlimit hquestion => .unary op hop ?_
      have hstop : leftBindingPower follow < 11 := by
        have : leftBindingPower follow ≤ 10 := hlimit
        omega
      exact ih.derives (le_refl _) hlimit hquestion hstop
  | power op hop _ _ ih ih' =>
      have hleft : leftBindingPower op.kind = 11 := by
        rw [hop]
        rfl
      have hright : rightBindingPower op.kind = 11 := by
        rw [hop]
        rfl
      refine ih.binary op ih' ?_ ?_ ?_ ?_ ?_ ?_ ?_ <;> simp [hleft, hright, Level.entry, Level.limit]
  | argument _ ih => exact .lastArgument (by simp) (ih.closed closes_rightParen)
  | moreArguments comma hcomma _ _ ih ih' =>
      exact .moreArguments comma hcomma (ih.closed closes_comma) ih'

/-! ### The whole formula -/

/-- **Precedence and associativity.**  On every word of the grammar without `'?'`, `parse(false)`
returns the one tree that the stratified grammar gives it. -/
theorem parse_eq_stratified_tree [Double D] {body : List (Token D)} {eof : Token D}
    {tree : ExpressionTree D} (heof : eof.kind = .endOfFile)
    (hword : Grammar (.expression tree) body) (hfree : ∀ token ∈ body, token.kind ≠ .question) :
    ∃ e, Parser.parse (body ++ [eof]) false = .ok e ∧
      Stratified (.expression .disjunction e) body ∧
      ∀ e', Stratified (.expression .disjunction e') body → e' = e := by
  obtain ⟨e, hderives⟩ := hword.derives
  have hparse := (Parser.parse_eq_ok_iff heof hword.ne_endOfFile).mpr hderives
  refine ⟨e, hparse, hderives.stratified hfree, ?_⟩
  intro e' he'
  -- The parser finds every tree of the stratified grammar, and returns one.
  have hderives' := he'.isRead.closed closes_endOfFile
  have hparse' := (Parser.parse_eq_ok_iff heof hword.ne_endOfFile).mpr hderives'
  exact Except.ok.inj (hparse'.symm.trans hparse)

section Instances

/-- The one stratified tree of `1 - -2 ^ -3 * 4 - 5` is `(1 - ((-(2 ^ (-3))) * 4)) - 5`. -/
theorem signs_around_a_power :
    let body := [sampleNumber 1, sampleToken .minus, sampleToken .minus, sampleNumber 2,
      sampleToken .caret, sampleToken .minus, sampleNumber 3, sampleToken .star, sampleNumber 4,
      sampleToken .minus, sampleNumber 5]
    let power := ExpressionTree.unary .minus
      (.binary .caret (sampleLiteral 2) (.unary .minus (sampleLiteral 3) {}) {}) {}
    let tree := ExpressionTree.binary .minus
      (.binary .minus (sampleLiteral 1) (.binary .star power (sampleLiteral 4) {}) {})
      (sampleLiteral 5) {}
    Parser.parse (body ++ [sampleToken .endOfFile]) false = .ok tree ∧
      Stratified (.expression .disjunction tree) body ∧
      ∀ e', Stratified (.expression .disjunction e') body → e' = tree := by
  intro body power tree
  have hparse : Parser.parse (body ++ [sampleToken .endOfFile]) false = .ok tree := rfl
  have hbody : ∀ token ∈ body, token.kind ≠ .endOfFile := by
    simp [body, sampleNumber, sampleToken]
  have hfree : ∀ token ∈ body, token.kind ≠ .question := by
    simp [body, sampleNumber, sampleToken]
  have hword := ((Parser.parse_eq_ok_iff rfl hbody).mp hparse).inGrammar
  have heof : (sampleToken .endOfFile).kind = .endOfFile := rfl
  obtain ⟨e, hparse', htree, hunique⟩ := parse_eq_stratified_tree heof hword hfree
  obtain rfl := Except.ok.inj (hparse'.symm.trans hparse)
  exact ⟨hparse, htree, hunique⟩

end Instances

end StatForge.Dsl
