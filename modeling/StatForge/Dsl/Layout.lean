import StatForge.Dsl.Scanning
import StatForge.Dsl.Spans

/-!
# The layout of a formula

Blanks and line breaks decide where tokens stand and nothing else: the number of a token is determined
by its text, and the spans are only carried along.

* `numberOf` — the number of a token from its kind and its text.
* `forget` — the spans forgotten.
* `forget_eq_of_content` — the tokens of two sources with the same kinds and texts.
* `layout_does_not_matter` — two layouts of one formula.
-/

namespace StatForge.Dsl

variable {D : Type}

/-- What a token says, without its position. -/
def Token.content (token : Token D) : TokenKind × StdString := (token.kind, token.lexeme)

/-- All positions are forgotten. -/
def forget (_ : Span) : Span := {}

variable [Double D]

/-- The number of a token with this kind and this text. -/
def numberOf (content : TokenKind × StdString) : D :=
  if content.1 ≠ .number then Double.zero
  else if content.2 = "true".toList then Double.one
  else if content.2 = "false".toList then Double.zero
  else (Double.fromChars content.2).getD Double.zero

/-- A text that starts with a digit is no keyword. -/
theorem numberOf_digits (digits : Digits) (tail : StdString) :
    (numberOf (.number, digits.text ++ tail) : D) =
      (Double.fromChars (digits.text ++ tail)).getD Double.zero := by
  have hdigit : isDigit (firstChar (digits.text ++ tail)) = true := digits.isDigit _ List.mem_cons_self
  have hword {word : StdString} (hfirst : isDigit (firstChar word) = false) :
      digits.text ++ tail ≠ word := by
    rintro rfl
    rw [hdigit] at hfirst
    cases hfirst
  rw [numberOf, if_neg (by simp), if_neg (hword (by decide)), if_neg (hword (by decide))]

theorem Lexeme.number_eq (lexeme : Lexeme) :
    (lexeme.number : D) = numberOf (lexeme.kind, lexeme.lexeme) := by
  cases lexeme with
  | symbol kind spelling h =>
      have hkinds : ∀ symbol ∈ symbols, symbol.1 ≠ .number := by decide
      exact (if_pos (hkinds _ h)).symm
  | integer digits =>
      have hdigits := numberOf_digits (D := D) digits []
      rw [List.append_nil] at hdigits
      exact hdigits.symm
  | decimal whole fraction => exact (numberOf_digits whole ('.' :: fraction.text)).symm
  | keyword word h =>
      simp only [keywords, List.mem_cons, List.not_mem_nil, or_false] at h
      rcases h with rfl | rfl <;> rfl
  | identifier name => rfl
  | reference name => rfl

theorem TokensOf.number_eq {lexemes : List Lexeme} {tokens : List (Token D)}
    (h : TokensOf lexemes tokens) : ∀ token ∈ tokens, token.number = numberOf token.content := by
  induction h with
  | nil => simp
  | cons hfirst _ ih =>
      obtain ⟨span, rfl⟩ := hfirst
      exact List.forall_mem_cons.mpr ⟨Lexeme.number_eq _, ih⟩

/-- The numbers of a tokenization. -/
theorem number_of_tokenize {source : StdString} {tokens : List (Token D)}
    (h : tokenize source = .ok tokens) : ∀ token ∈ tokens, token.number = numberOf token.content := by
  obtain ⟨tail, lexemes, front, span, -, -, rfl, hof⟩ := lexed_of_tokenize h
  exact List.forall_mem_append.mpr ⟨hof.number_eq, List.forall_mem_singleton.mpr rfl⟩

/-- The token with this kind and this text, its position forgotten. -/
def bareToken (content : TokenKind × StdString) : Token D :=
  ⟨content.1, content.2, {}, numberOf content⟩

/-- What is left of tokens without their positions. -/
theorem map_forget_eq {tokens : List (Token D)}
    (h : ∀ token ∈ tokens, token.number = numberOf token.content) :
    tokens.map (Token.mapSpan forget) = (tokens.map Token.content).map bareToken := by
  rw [List.map_map]
  refine List.map_congr_left fun token htoken => ?_
  rw [Token.mapSpan, h token htoken]
  rfl

/-- **Equal kinds and texts.**  The tokens of two sources differ in their spans only. -/
theorem forget_eq_of_content {source source' : StdString} {tokens tokens' : List (Token D)}
    (h : tokenize source = .ok tokens) (h' : tokenize source' = .ok tokens')
    (hcontent : tokens.map Token.content = tokens'.map Token.content) :
    tokens.map (Token.mapSpan forget) = tokens'.map (Token.mapSpan forget) := by
  rw [map_forget_eq (number_of_tokenize h), map_forget_eq (number_of_tokenize h'), hcontent]

/-- **The layout does not matter.**  Two sources whose tokens agree in their kinds and texts are both
parsed or both rejected.  Their trees have the same value, or abort in the same way, under every
lookup, and the same dependencies; their errors have the same code and the same message. -/
theorem layout_does_not_matter {source source' : StdString} {tokens tokens' : List (Token D)}
    (h : tokenize source = .ok tokens) (h' : tokenize source' = .ok tokens')
    (hcontent : tokens.map Token.content = tokens'.map Token.content) (fold : Bool) :
    (∀ e, Parser.parse tokens fold = .ok e → ∃ e', Parser.parse tokens' fold = .ok e' ∧
      (∀ context, evaluate context e' = evaluate context e) ∧
      extractDependencies e' = extractDependencies e) ∧
    ∀ info, Parser.parse tokens fold = .error (.error info) →
      ∃ info', Parser.parse tokens' fold = .error (.error info') ∧
        info'.errorCode = info.errorCode ∧ info'.message = info.message := by
  have hsame : Parser.parse (tokens.map (Token.mapSpan forget)) fold =
      Parser.parse (tokens'.map (Token.mapSpan forget)) fold := by
    rw [forget_eq_of_content h h' hcontent]
  rw [Parser.parse_mapSpan, Parser.parse_mapSpan] at hsame
  constructor
  · intro e he
    rw [he] at hsame
    cases hparse : Parser.parse tokens' fold with
    | error stop => rw [hparse] at hsame; cases hsame
    | ok e' =>
        rw [hparse] at hsame
        have htree : e.mapSpan forget = e'.mapSpan forget := Except.ok.inj hsame
        refine ⟨e', rfl, fun context => ?_, extractDependencies_congr ?_⟩
        · rw [← evaluate_mapSpan (f := forget) context e', ← htree, evaluate_mapSpan]
        · rw [← ExpressionTree.refs_mapSpan (f := forget) e', ← htree,
            ExpressionTree.refs_mapSpan]
  · intro info hinfo
    rw [hinfo] at hsame
    cases hparse : Parser.parse tokens' fold with
    | ok e' => rw [hparse] at hsame; cases hsame
    | error stop =>
        rw [hparse] at hsame
        cases stop with
        | abort reason => cases hsame
        | error info' =>
            simp only [Parser.relocate, Parser.Stop.mapSpan, Except.error.injEq, Stop.error.injEq,
              ErrorInfo.mapSpan, ErrorInfo.mk.injEq] at hsame
            exact ⟨info', rfl, hsame.1.symm, hsame.2.1.symm⟩

/-- The tokens of `1+<a>`. -/
private def lineTokens : List (Token NanRat) :=
  [⟨.number, "1".toList, ⟨1, 2⟩, numberOf (.number, "1".toList)⟩,
    ⟨.plus, "+".toList, ⟨1, 3⟩, Double.zero⟩, ⟨.nodeRef, "a".toList, ⟨1, 3⟩, Double.zero⟩,
    ⟨.endOfFile, [], ⟨1, 6⟩, Double.zero⟩]

/-- The tokens of ` 1 +`, a line end and `<a>`. -/
private def linesTokens : List (Token NanRat) :=
  [⟨.number, "1".toList, ⟨1, 3⟩, numberOf (.number, "1".toList)⟩,
    ⟨.plus, "+".toList, ⟨1, 5⟩, Double.zero⟩, ⟨.nodeRef, "a".toList, ⟨2, 1⟩, Double.zero⟩,
    ⟨.endOfFile, [], ⟨2, 4⟩, Double.zero⟩]

/-- A sum on one line and on two. -/
theorem sum_on_two_lines : ∃ e e', Parser.parse lineTokens = .ok e ∧
    Parser.parse linesTokens = .ok e' ∧ ∀ context, evaluate context e' = evaluate context e := by
  have hline : tokenize "1+<a>".toList = .ok lineTokens := rfl
  have hlines : tokenize " 1 +\n<a>".toList = .ok linesTokens := rfl
  obtain ⟨e, he⟩ : ∃ e, Parser.parse lineTokens = .ok e := ⟨_, rfl⟩
  obtain ⟨e', he', hvalue, -⟩ := (layout_does_not_matter hline hlines rfl true).1 e he
  exact ⟨e, e', he, he', hvalue⟩

end StatForge.Dsl
