import StatForge.Dsl.Scanning

/-!
# The values of number tokens

`number()` ignores whether `std::from_chars` has converted the lexeme, and a lexeme that it could not
convert gets the value `0.0`.

* `numberLexemes` — the number lexemes of a source, read off its text.
* `numbersKept_iff` — an accepted source keeps the values of its numbers exactly if all its number
  lexemes can be converted.
* `huge_number_becomes_zero` — a number past the range of the conversion becomes `0.0`.
-/

namespace StatForge.Dsl

/-! ### The number lexemes of a text -/

/-- The digits at the start of a text, and the fraction behind them. -/
def leadingNumber (text : StdString) : StdString :=
  let tail := text.dropWhile isDigit
  if startsFraction tail then text.takeWhile isDigit ++ '.' :: (tail.drop 1).takeWhile isDigit
  else text.takeWhile isDigit

theorem leadingNumber_length_pos {c : Char} (text : StdString) (hc : isDigit c = true) :
    0 < (leadingNumber (c :: text)).length := by
  rw [leadingNumber]
  split <;> simp [hc]

/-- The numbers in a text up to a `'\0'`, from left to right; digits in a name are no number. -/
def numberLexemes : StdString → List StdString
  | [] => []
  | c :: text =>
      if c = nul then []
      else if isDigit c then
        leadingNumber (c :: text) ::
          numberLexemes ((c :: text).drop (leadingNumber (c :: text)).length)
      else if isReferenceChar c then numberLexemes (text.dropWhile isReferenceChar)
      else numberLexemes text
termination_by text => text.length
decreasing_by
  · have hpos := leadingNumber_length_pos text ‹_›
    simp only [List.length_drop, List.length_cons]
    omega
  · exact Nat.lt_succ_of_le (List.dropWhile_suffix _).length_le
  · exact Nat.lt_succ_self _

theorem numberLexemes_nil : numberLexemes [] = [] := by
  rw [numberLexemes]

/-- The numbers end in front of a `'\0'`. -/
theorem numberLexemes_of_nul {text : StdString} (h : firstChar text = nul) :
    numberLexemes text = [] := by
  cases text with
  | nil => exact numberLexemes_nil
  | cons c text =>
      rw [numberLexemes]
      exact if_pos h

/-- A word without digits, letters and `'\0'` is skipped. -/
theorem numberLexemes_skip {word : StdString} (tail : StdString)
    (hword : ∀ c ∈ word, c ≠ nul ∧ isReferenceChar c = false) :
    numberLexemes (word ++ tail) = numberLexemes tail := by
  induction word with
  | nil => rfl
  | cons c word ih =>
      obtain ⟨⟨hnul, hname⟩, hword⟩ := List.forall_mem_cons.mp hword
      have hdigit : isDigit c ≠ true := by
        intro hdigit
        rw [isReferenceChar_of_isDigit hdigit] at hname
        cases hname
      rw [List.cons_append, numberLexemes, if_neg hnul, if_neg hdigit, hname]
      exact ih hword

/-- The longest word at the start of a text. -/
theorem takeWhile_longest {p : Char → Bool} {word tail : StdString} (hword : ∀ c ∈ word, p c = true)
    (hend : p (firstChar tail) = false) :
    (word ++ tail).takeWhile p = word ∧ (word ++ tail).dropWhile p = tail := by
  rw [List.takeWhile_append_of_pos hword, List.dropWhile_append_of_pos hword]
  cases tail with
  | nil => simp
  | cons c tail =>
      rw [firstChar_cons] at hend
      simp [hend]

theorem longest_digits (digits : Digits) {tail : StdString}
    (hend : isDigit (firstChar tail) = false) :
    (digits.text ++ tail).takeWhile isDigit = digits.text ∧
      (digits.text ++ tail).dropWhile isDigit = tail :=
  takeWhile_longest digits.isDigit hend

/-- A name is skipped as a whole. -/
theorem numberLexemes_name {first : Char} {more tail : StdString}
    (hfirst : isAlpha first = true ∨ first = '_') (hmore : ∀ c ∈ more, isReferenceChar c = true)
    (hend : isReferenceChar (firstChar tail) = false) :
    numberLexemes (first :: more ++ tail) = numberLexemes tail := by
  have hname := isReferenceChar_of_starts hfirst
  have hnul : first ≠ nul := ne_of_test hname (by decide)
  rw [List.cons_append, numberLexemes, if_neg hnul, isDigit_of_starts hfirst, hname]
  simp only [Bool.false_eq_true, if_false, if_true]
  rw [(takeWhile_longest hmore hend).2]

theorem leadingNumber_integer (digits : Digits) {tail : StdString}
    (hdigit : isDigit (firstChar tail) = false) (hfraction : startsFraction tail = false) :
    leadingNumber (digits.text ++ tail) = digits.text := by
  obtain ⟨htake, hdrop⟩ := longest_digits digits hdigit
  rw [leadingNumber]
  simp [htake, hdrop, hfraction]

theorem leadingNumber_decimal (whole fraction : Digits) {tail : StdString}
    (hdigit : isDigit (firstChar tail) = false) :
    leadingNumber (whole.text ++ '.' :: (fraction.text ++ tail)) =
      whole.text ++ '.' :: fraction.text := by
  have hpoint : isDigit (firstChar ('.' :: (fraction.text ++ tail))) = false := rfl
  obtain ⟨htake, hdrop⟩ := longest_digits whole hpoint
  obtain ⟨htake', -⟩ := longest_digits fraction hdigit
  have hfraction : startsFraction ('.' :: (fraction.text ++ tail)) = true := by
    have hfirst : isDigit fraction.first = true := fraction.isDigit _ List.mem_cons_self
    simpa [startsFraction, Digits.text] using hfirst
  rw [leadingNumber]
  simp only [htake, hdrop, hfraction, if_true, List.drop_succ_cons, List.drop_zero, htake']

/-- A number at the start of a text. -/
theorem numberLexemes_number {c : Char} {more tail : StdString} (hc : isDigit c = true)
    (h : leadingNumber (c :: more ++ tail) = c :: more) :
    numberLexemes (c :: more ++ tail) = (c :: more) :: numberLexemes tail := by
  have hnul : c ≠ nul := ne_of_test hc (by decide)
  rw [List.cons_append] at h ⊢
  rw [numberLexemes, if_neg hnul, if_pos hc, h, ← List.cons_append, List.drop_left]

/-! ### The number lexemes and the tokens -/

/-- The lexeme as a number, unless it is none. -/
def Lexeme.numerals : Lexeme → List StdString
  | .integer digits => [digits.text]
  | .decimal whole fraction => [whole.text ++ '.' :: fraction.text]
  | _ => []

theorem numberLexemes_lexeme (lexeme : Lexeme) {tail : StdString} (hends : lexeme.Ends tail) :
    numberLexemes (lexeme.text ++ tail) = lexeme.numerals ++ numberLexemes tail := by
  cases lexeme with
  | symbol kind spelling h =>
      have hspellings : symbols.all (fun symbol =>
          symbol.2.all fun c => c != nul && !isReferenceChar c) = true := rfl
      have hchars := List.all_eq_true.mp (List.all_eq_true.mp hspellings _ h)
      exact numberLexemes_skip tail fun c hc => by simpa using hchars c hc
  | integer digits =>
      exact numberLexemes_number (digits.isDigit _ List.mem_cons_self)
        (leadingNumber_integer digits hends.1 hends.2)
  | decimal whole fraction =>
      have hleading := leadingNumber_decimal whole fraction hends
      rw [← List.cons_append, ← List.append_assoc] at hleading
      exact numberLexemes_number (whole.isDigit _ List.mem_cons_self) hleading
  | keyword word h =>
      have hchars := Tokenizer.isReferenceChar_of_mem_keywords h
      have hstarts : keywords.all (fun word => isAlpha (firstChar word)) = true := rfl
      have hfirst := List.all_eq_true.mp hstarts word h
      cases word with
      | nil => exact absurd hfirst (by decide)
      | cons first more =>
          exact numberLexemes_name (Or.inl hfirst) (List.forall_mem_cons.mp hchars).2 hends
  | identifier name => exact numberLexemes_name name.starts name.isReferenceChar hends
  | reference name =>
      have hopening : ∀ c ∈ ['<'], c ≠ nul ∧ isReferenceChar c = false := by simp; decide
      have hclosing : ∀ c ∈ ['>'], c ≠ nul ∧ isReferenceChar c = false := by simp; decide
      have htext : (Lexeme.reference name).text ++ tail =
          ['<'] ++ (name.first :: name.more ++ (['>'] ++ tail)) := by
        simp [Lexeme.text]
      rw [htext, numberLexemes_skip _ hopening,
        numberLexemes_name (Or.inl name.isAlpha) name.isReferenceChar (hclosing _ (by simp)).2,
        numberLexemes_skip tail hclosing]
      rfl

/-- The numbers of a text are those of its lexemes. -/
theorem Lexed.numberLexemes_eq {tail text : StdString} {lexemes : List Lexeme}
    (h : Lexed tail text lexemes) (hend : firstChar tail = nul) :
    numberLexemes text = lexemes.flatMap Lexeme.numerals := by
  induction h with
  | nil => exact numberLexemes_of_nul hend
  | @blank text _ c hspace _ ih =>
      have hname : isReferenceChar c = false := by
        by_contra hname
        rw [Bool.not_eq_false] at hname
        exact ne_of_test hspace (isSpace_of_isReferenceChar hname) rfl
      have hskip : ∀ d ∈ [c], d ≠ nul ∧ isReferenceChar d = false := by
        simpa using ⟨ne_of_test hspace (by decide), hname⟩
      exact (numberLexemes_skip text hskip).trans ih
  | lexeme lexeme hends _ ih => rw [numberLexemes_lexeme lexeme hends, ih, List.flatMap_cons]

/-- `d+` or `d+.d+`. -/
def IsNumeral (lexeme : StdString) : Prop :=
  (∃ digits : Digits, lexeme = digits.text) ∨
    ∃ whole fraction : Digits, lexeme = whole.text ++ '.' :: fraction.text

variable {D : Type} [Double D]

/-- A number token that is no keyword has the value of its complete lexeme. -/
def Token.Converted (token : Token D) : Prop :=
  token.kind = .number → token.lexeme ∉ keywords →
    IsNumeral token.lexeme ∧ Double.fromChars token.lexeme = some token.number

theorem IsNumeral.notMem_keywords {lexeme : StdString} (h : IsNumeral lexeme) :
    lexeme ∉ keywords := by
  have hkeywords : keywords.all (fun word => !isDigit (firstChar word)) = true := rfl
  have hdigit : isDigit (firstChar lexeme) = true := by
    rcases h with ⟨digits, rfl⟩ | ⟨whole, fraction, rfl⟩
    · exact digits.isDigit _ List.mem_cons_self
    · exact whole.isDigit _ List.mem_cons_self
  intro hmem
  have hword := List.all_eq_true.mp hkeywords _ hmem
  rw [hdigit] at hword
  cases hword

/-- The token of a lexeme has its value if the number in it can be converted. -/
theorem converted_token_iff (lexeme : Lexeme) (span : Span) :
    (lexeme.token span : Token D).Converted ↔
      ∀ numeral ∈ lexeme.numerals, (Double.fromChars numeral : Option D).isSome = true := by
  have hnumeral : ∀ {text : StdString}, IsNumeral text → ∀ {token : Token D},
      token.kind = .number → token.lexeme = text →
      token.number = (Double.fromChars text).getD Double.zero →
      (token.Converted ↔ (Double.fromChars text : Option D).isSome = true) := by
    intro text htext token hkind hlexeme hnumber
    rw [Token.Converted, hkind, hlexeme, hnumber]
    cases (Double.fromChars text : Option D) <;> simp [htext, htext.notMem_keywords]
  cases lexeme with
  | symbol kind spelling h =>
      have hkinds : ∀ symbol ∈ symbols, symbol.1 ≠ .number := by decide
      have hkind : (Lexeme.symbol kind spelling h).kind ≠ .number := hkinds _ h
      simp [Token.Converted, Lexeme.token, hkind, Lexeme.numerals]
  | integer digits =>
      rw [Lexeme.numerals, List.forall_mem_singleton]
      exact hnumeral (Or.inl ⟨digits, rfl⟩) rfl rfl rfl
  | decimal whole fraction =>
      rw [Lexeme.numerals, List.forall_mem_singleton]
      exact hnumeral (Or.inr ⟨whole, fraction, rfl⟩) rfl rfl rfl
  | keyword word h => simp [Token.Converted, Lexeme.token, Lexeme.lexeme, h, Lexeme.numerals]
  | identifier name => simp [Token.Converted, Lexeme.token, Lexeme.kind, Lexeme.numerals]
  | reference name => simp [Token.Converted, Lexeme.token, Lexeme.kind, Lexeme.numerals]

theorem TokensOf.converted_iff {lexemes : List Lexeme} {tokens : List (Token D)}
    (h : TokensOf lexemes tokens) : (∀ token ∈ tokens, token.Converted) ↔
      ∀ numeral ∈ lexemes.flatMap Lexeme.numerals,
        (Double.fromChars numeral : Option D).isSome = true := by
  induction h with
  | nil => simp
  | cons htoken _ ih =>
      obtain ⟨span, rfl⟩ := htoken
      rw [List.forall_mem_cons, ih, converted_token_iff, List.flatMap_cons, List.forall_mem_append]

/-! ### The errors of the tokenizer -/

/-- The only error is `SF_ERR_INVALID_DSL`. -/
def FailsInvalid {α : Type} (result : Result α) : Prop :=
  ∀ info, result = .error info → info.errorCode = .invalidDsl

theorem failsInvalid_ok {α : Type} (a : α) : FailsInvalid (.ok a) := by
  intro info h
  cases h

theorem failsInvalid_error {α : Type} (message : String) (span : Span) :
    FailsInvalid (.error (buildErrorInfo .invalidDsl message span) : Result α) := by
  intro info h
  cases h
  rfl

theorem failsInvalid_ite {α : Type} {c : Prop} [Decidable c] {result result' : Result α}
    (h : FailsInvalid result) (h' : FailsInvalid result') :
    FailsInvalid (if c then result else result') := by
  split
  · exact h
  · exact h'

namespace Tokenizer

theorem failsInvalid_addDouble (t : Tokenizer D) (second : Char) (kind : TokenKind)
    (lexeme : StdString) (message : String) :
    FailsInvalid (t.addDouble second kind lexeme message) := by
  rw [addDouble]
  split
  · exact failsInvalid_ok _
  · exact failsInvalid_error message _

theorem failsInvalid_nodeReference (t : Tokenizer D) : FailsInvalid t.nodeReference := by
  rw [nodeReference]
  exact failsInvalid_ite (failsInvalid_error _ _) (failsInvalid_ok _)

theorem failsInvalid_scan (t : Tokenizer D) : FailsInvalid t.scan := by
  unfold scan
  dsimp only
  repeat' apply failsInvalid_ite
  any_goals exact failsInvalid_ok _
  any_goals exact failsInvalid_error _ _
  any_goals exact failsInvalid_addDouble _ _ _ _ _
  -- What is left is `<`.
  split
  · exact failsInvalid_ok _
  · exact failsInvalid_ite (failsInvalid_nodeReference _) (failsInvalid_ok _)

theorem failsInvalid_scanAll (fuel : Nat) (t : Tokenizer D) : FailsInvalid (scanAll fuel t) := by
  induction fuel generalizing t with
  | zero => exact failsInvalid_ok t
  | succ fuel ih =>
      rw [scanAll]
      refine failsInvalid_ite (failsInvalid_ok t) ?_
      cases hscan : t.scan with
      | error info =>
          intro info' h
          cases h
          exact failsInvalid_scan t info hscan
      | ok t' => exact ih t'

end Tokenizer

/-- A source that is rejected is invalid. -/
theorem failsInvalid_tokenize (source : StdString) :
    FailsInvalid (tokenize source : Result (List (Token D))) := by
  intro info h
  rw [tokenize] at h
  cases hscan : Tokenizer.scanAll source.length ({ source := source } : Tokenizer D) with
  | error info' =>
      rw [hscan] at h
      cases h
      exact Tokenizer.failsInvalid_scanAll _ _ info hscan
  | ok t =>
      rw [hscan] at h
      cases h

/-- A source of digits is one number. -/
theorem tokenize_digits (digits : Digits) :
    ∃ span, (tokenize digits.text : Result (List (Token D))) =
      .ok [⟨.number, digits.text, span, (Double.fromChars digits.text).getD Double.zero⟩,
        ⟨.endOfFile, [], span, Double.zero⟩] := by
  have hfirst : isDigit digits.first = true := digits.isDigit _ List.mem_cons_self
  have hrest : ({ source := digits.text } : Tokenizer D).rest = digits.text ++ [] :=
    (List.append_nil _).symm
  obtain ⟨t, hmoved, hnumber⟩ :=
    Tokenizer.number_integer digits hrest (by decide) (by decide)
  have hpeek : ({ source := digits.text } : Tokenizer D).peek = digits.first :=
    Tokenizer.peek_of_rest hrest
  have hnul : digits.first ≠ nul := ne_of_test hfirst (by decide)
  have hend : (t.push .number digits.text t.here
      ((Double.fromChars digits.text).getD Double.zero)).peek = nul :=
    Tokenizer.peek_of_rest (hmoved.rest_eq hrest)
  have hrun (fuel : Nat) : Tokenizer.scanAll fuel (t.push .number digits.text t.here
      ((Double.fromChars digits.text).getD Double.zero)) = .ok (t.push .number digits.text t.here
      ((Double.fromChars digits.text).getD Double.zero)) := by
    cases fuel with
    | zero => rfl
    | succ fuel => rw [Tokenizer.scanAll, if_pos hend]
  refine ⟨t.here, ?_⟩
  rw [tokenize, show digits.text.length = digits.more.length + 1 from rfl, Tokenizer.scanAll, hpeek,
    if_neg hnul, Tokenizer.scan_of_isDigit (hpeek ▸ hfirst), hnumber]
  dsimp only
  rw [hrun]
  simp [Tokenizer.push, hmoved.tokens]

/-! ### Sources that keep their numbers -/

/-- No number of a source changes its value silently: the number tokens have the values of their
lexemes, and a lexeme that cannot be converted makes the source invalid. -/
structure NumbersKept (D : Type) [Double D] (source : StdString) : Prop where
  converted : ∀ tokens : List (Token D), tokenize source = .ok tokens →
    ∀ token ∈ tokens, token.Converted
  outOfRange : ∀ lexeme ∈ numberLexemes source, (Double.fromChars lexeme : Option D) = none →
    ∃ info, (tokenize source : Result (List (Token D))) = .error info ∧
      info.errorCode = .invalidDsl

/-- The number tokens of an accepted source have their values exactly if all number lexemes can be
converted. -/
theorem converted_iff {source : StdString} {tokens : List (Token D)}
    (h : tokenize source = .ok tokens) : (∀ token ∈ tokens, token.Converted) ↔
      ∀ lexeme ∈ numberLexemes source, (Double.fromChars lexeme : Option D).isSome = true := by
  obtain ⟨tail, lexemes, front, span, hlexed, hend, rfl, hof⟩ := lexed_of_tokenize h
  rw [hlexed.numberLexemes_eq hend, ← hof.converted_iff, List.forall_mem_append]
  simp [Token.Converted]

/-- **Which sources keep their numbers.**  A source that is rejected is invalid, and keeps them; an
accepted source does exactly if `std::from_chars` can convert all its number lexemes. -/
theorem numbersKept_iff (source : StdString) :
    (∀ info, (tokenize source : Result (List (Token D))) = .error info →
      info.errorCode = .invalidDsl ∧ NumbersKept D source) ∧
    ∀ tokens : List (Token D), tokenize source = .ok tokens →
      (NumbersKept D source ↔
        ∀ lexeme ∈ numberLexemes source, (Double.fromChars lexeme : Option D).isSome = true) := by
  refine ⟨fun info herror => ?_, fun tokens htokens => ⟨fun hkept => ?_, fun hconverted => ?_⟩⟩
  · have hinvalid := failsInvalid_tokenize source info herror
    refine ⟨hinvalid, ?_, fun _ _ _ => ⟨info, herror, hinvalid⟩⟩
    intro tokens htokens
    rw [herror] at htokens
    cases htokens
  · exact (converted_iff htokens).mp (hkept.converted tokens htokens)
  · constructor
    · intro tokens' htokens'
      exact (converted_iff htokens').mpr hconverted
    · intro lexeme hlexeme hnone
      have hsome := hconverted lexeme hlexeme
      rw [hnone] at hsome
      cases hsome

section Instances

/-- Rationals, of which `from_chars` reports those from `2 ^ 1024` on as out of range. -/
@[reducible] private def limitedRat : Double NanRat where
  __ := (inferInstance : Double NanRat)
  fromChars s := if NanRat.ofDigits s < 2 ^ 1024 then some (some (NanRat.ofDigits s)) else none

/-- A one and four hundred zeros. -/
private def hugeDigits : Digits :=
  ⟨'1', List.replicate 400 '0', List.forall_mem_cons.mpr
    ⟨rfl, fun c hc => by rw [List.eq_of_mem_replicate hc]; rfl⟩⟩

/-- A number of four hundred and one digits is accepted as `0.0`. -/
theorem huge_number_becomes_zero : ∃ tokens : List (Token NanRat),
    @tokenize NanRat limitedRat hugeDigits.text = .ok tokens ∧
      tokens.map (·.number) = [some 0, some 0] ∧
      ¬ @NumbersKept NanRat limitedRat hugeDigits.text := by
  obtain ⟨span, htokens⟩ := @tokenize_digits NanRat limitedRat hugeDigits
  have hnone : @Double.fromChars NanRat limitedRat hugeDigits.text = none := by decide +kernel
  rw [hnone] at htokens
  refine ⟨_, htokens, rfl, fun hkept => ?_⟩
  obtain ⟨-, hvalue⟩ := @NumbersKept.converted NanRat limitedRat hugeDigits.text hkept _ htokens _
    List.mem_cons_self rfl (IsNumeral.notMem_keywords (Or.inl ⟨hugeDigits, rfl⟩))
  rw [hnone] at hvalue
  cases hvalue

end Instances

end StatForge.Dsl
