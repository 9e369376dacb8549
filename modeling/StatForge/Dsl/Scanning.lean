import Mathlib.Data.List.TakeWhile
import StatForge.Dsl.Lexemes

/-!
# What a tokenization accounts for

Every round of the loop of `tokenize()` reads one blank or one lexeme, whatever stands behind it, and
the loop ends at the first `'\0'`, which may be a character of the source.

* `Lexed` — a text that is read as a list of lexemes, up to a tail.
* `scanned_of_scan` — what one round does.
* `lexed_of_scanAll`, `lexed_of_tokenize` — what the whole loop has read.
* `tokenize_accounts_iff` — the tokens account for the whole source exactly if no `'\0'` is in it.
* `text_behind_nul_is_ignored` — a source that is read in part.
-/

namespace StatForge.Dsl

variable {D : Type}

/-- The text of a token in a source: of a reference the name in angle brackets. -/
def Token.text (token : Token D) : StdString :=
  if token.kind = .nodeRef then '<' :: (token.lexeme ++ ['>']) else token.lexeme

/-- A source that is the concatenation, in order, of blanks and the texts of the tokens. -/
inductive Accounted : StdString → List (Token D) → Prop
  | nil : Accounted [] []
  | blank {text tokens} (c : Char) (hspace : isSpace c = true) (hrest : Accounted text tokens) :
      Accounted (c :: text) tokens
  | token {text tokens} (token : Token D) (hrest : Accounted text tokens) :
      Accounted (token.text ++ text) (token :: tokens)

/-- No `'\0'` is accounted for. -/
theorem Accounted.nul_notMem {text : StdString} {tokens : List (Token D)} (h : Accounted text tokens)
    (htokens : ∀ token ∈ tokens, nul ∉ token.text) : nul ∉ text := by
  induction h with
  | nil => exact List.not_mem_nil
  | blank c hspace _ ih =>
      have hc : nul ≠ c := (ne_of_test hspace (by decide)).symm
      rw [List.mem_cons, not_or]
      exact ⟨hc, ih htokens⟩
  | token token _ ih =>
      obtain ⟨htoken, htokens⟩ := List.forall_mem_cons.mp htokens
      rw [List.mem_append, not_or]
      exact ⟨htoken, ih htokens⟩

variable [Double D]

namespace Lexeme

/-- The number of the lexeme's token. -/
def number : Lexeme → D
  | .integer digits => (Double.fromChars digits.text).getD Double.zero
  | .decimal whole fraction =>
      (Double.fromChars (whole.text ++ '.' :: fraction.text)).getD Double.zero
  | .keyword word _ => if word = "true".toList then Double.one else Double.zero
  | _ => Double.zero

/-- The lexeme's token. -/
def token (lexeme : Lexeme) (span : Span) : Token D :=
  ⟨lexeme.kind, lexeme.lexeme, span, lexeme.number⟩

/-- The tail does not continue the lexeme. -/
def Ends : Lexeme → StdString → Prop
  | .integer _, tail => isDigit (firstChar tail) = false ∧ startsFraction tail = false
  | .decimal _ _, tail => isDigit (firstChar tail) = false
  | .keyword _ _, tail => isReferenceChar (firstChar tail) = false
  | .identifier _, tail => isReferenceChar (firstChar tail) = false
  | .symbol _ _ _, _ => True
  | .reference _, _ => True

theorem text_token (lexeme : Lexeme) (span : Span) :
    (lexeme.token span : Token D).text = lexeme.text := by
  cases lexeme with
  | symbol kind spelling h =>
      have hkinds : ∀ symbol ∈ symbols, symbol.1 ≠ .nodeRef := by decide
      exact if_neg (hkinds _ h)
  | _ => rfl

theorem nul_notMem_text (lexeme : Lexeme) : nul ∉ lexeme.text := by
  have hname : ∀ {word : StdString}, (∀ c ∈ word, isReferenceChar c = true) → nul ∉ word := by
    intro word hword hnul
    exact absurd (hword nul hnul) (by decide)
  have hdigits : ∀ digits : Digits, nul ∉ digits.text := fun digits =>
    hname fun c hc => isReferenceChar_of_isDigit (digits.isDigit c hc)
  cases lexeme with
  | symbol kind spelling h =>
      have hspellings : ∀ symbol ∈ symbols, nul ∉ symbol.2 := by decide
      exact hspellings _ h
  | integer digits => exact hdigits digits
  | decimal whole fraction =>
      show nul ∉ whole.text ++ '.' :: fraction.text
      simp [hdigits whole, hdigits fraction, show nul ≠ '.' by decide]
  | keyword word h => exact hname (Tokenizer.isReferenceChar_of_mem_keywords h)
  | identifier name =>
      exact hname (List.forall_mem_cons.mpr
        ⟨isReferenceChar_of_starts name.starts, name.isReferenceChar⟩)
  | reference name =>
      have hchars : nul ∉ name.first :: name.more := hname (List.forall_mem_cons.mpr
        ⟨isReferenceChar_of_isAlpha name.isAlpha, name.isReferenceChar⟩)
      show nul ∉ '<' :: (name.first :: name.more ++ ['>'])
      simp_all [show nul ≠ '<' by decide, show nul ≠ '>' by decide]

end Lexeme

/-- The tokens of the lexemes, at some positions. -/
def TokensOf (lexemes : List Lexeme) (tokens : List (Token D)) : Prop :=
  List.Forall₂ (fun lexeme token => ∃ span, token = lexeme.token span) lexemes tokens

theorem TokensOf.nul_notMem_text {lexemes : List Lexeme} {tokens : List (Token D)}
    (h : TokensOf lexemes tokens) : ∀ token ∈ tokens, nul ∉ token.text := by
  induction h with
  | nil => simp
  | cons htoken _ ih =>
      obtain ⟨span, rfl⟩ := htoken
      refine List.forall_mem_cons.mpr ⟨?_, ih⟩
      rw [Lexeme.text_token]
      exact Lexeme.nul_notMem_text _

/-- The text is read as the lexemes, and the tail is what is left. -/
inductive Lexed (tail : StdString) : StdString → List Lexeme → Prop
  | nil : Lexed tail tail []
  | blank {text lexemes} (c : Char) (hspace : isSpace c = true) (hrest : Lexed tail text lexemes) :
      Lexed tail (c :: text) lexemes
  | lexeme {text lexemes} (lexeme : Lexeme) (hends : lexeme.Ends text)
      (hrest : Lexed tail text lexemes) : Lexed tail (lexeme.text ++ text) (lexeme :: lexemes)

/-! ### One round -/

/-- The longest word of a class of characters at the start of a text. -/
theorem exists_longest_word {p : Char → Bool} (hnul : p nul = false) (text : StdString) :
    ∃ word tail, text = word ++ tail ∧ (∀ c ∈ word, p c = true) ∧ p (firstChar tail) = false := by
  refine ⟨text.takeWhile p, text.dropWhile p, List.takeWhile_append_dropWhile.symm,
    fun c hc => List.mem_takeWhile_imp hc, ?_⟩
  cases htail : text.dropWhile p with
  | nil => exact hnul
  | cons c tail =>
      have hhead := List.head_dropWhile_not p (l := text) (by simp [htail])
      simpa [htail] using hhead

/-- The digits at the start of a text. -/
theorem exists_digits {c : Char} (text : StdString) (hc : isDigit c = true) :
    ∃ (digits : Digits) (tail : StdString), c :: text = digits.text ++ tail ∧
      isDigit (firstChar tail) = false := by
  obtain ⟨more, tail, htext, hmore, hends⟩ := exists_longest_word (p := isDigit) (by decide) text
  exact ⟨⟨c, more, List.forall_mem_cons.mpr ⟨hc, hmore⟩⟩, tail, congrArg (c :: ·) htext, hends⟩

namespace Tokenizer

/-- What one round of the loop reads: a blank, or a lexeme for which it makes the token. -/
inductive Scanned (t t' : Tokenizer D) : Prop
  | blank (c : Char) (hspace : isSpace c = true) (hrest : t.rest = c :: t'.rest)
      (htokens : t'.tokens = t.tokens)
  | lexeme (lexeme : Lexeme) (span : Span) (hrest : t.rest = lexeme.text ++ t'.rest)
      (htokens : t'.tokens = t.tokens ++ [lexeme.token span]) (hends : lexeme.Ends t'.rest)

/-- The tokenizer has moved over a lexeme and makes its token. -/
theorem Moved.scanned {lexeme : Lexeme} {t t' : Tokenizer D} (h : Moved lexeme.text t t')
    (hends : lexeme.Ends t'.rest) (span : Span) :
    Scanned t (t'.push lexeme.kind lexeme.lexeme span lexeme.number) :=
  .lexeme lexeme span h.rest (by rw [push, h.tokens]; rfl) hends

theorem scanned_add {t : Tokenizer D} {c : Char} {tail : StdString} {kind : TokenKind}
    (hrest : t.rest = c :: tail) (h : (kind, [c]) ∈ symbols) : Scanned t (t.advance.add kind) := by
  have hmoved : Moved (Lexeme.symbol kind [c] h).text t t.advance := moved_advance hrest
  have hpos : t.advance.pos - 1 = t.pos := rfl
  have hlength : t.advance.pos - t.pos = 1 := Nat.add_sub_cancel_left ..
  have hsubstr : t.advance.substr t.pos 1 = [c] := hlength ▸ hmoved.substr
  rw [add, hpos, hsubstr]
  exact hmoved.scanned trivial _

/-- The second character of a symbol has been matched. -/
theorem scanned_two {t : Tokenizer D} {first second : Char} {tail : StdString} {kind : TokenKind}
    (hrest : t.rest = first :: tail) (hsecond : t.advance.peek = second) (hnul : second ≠ nul)
    (h : (kind, [first, second]) ∈ symbols) (span : Span) :
    Scanned t (t.advance.advance.push kind [first, second] span) := by
  have hfirst := moved_advance hrest
  have hrest₁ : t.advance.rest = tail := hfirst.rest_eq hrest
  rw [peek_of_rest hrest₁] at hsecond
  cases tail with
  | nil => exact absurd hsecond.symm hnul
  | cons c tail =>
      obtain rfl : c = second := hsecond
      have hmoved : Moved (Lexeme.symbol kind [first, c] h).text t t.advance.advance :=
        hfirst.trans (moved_advance hrest₁)
      exact hmoved.scanned trivial span

theorem scanned_addOrEqual {t : Tokenizer D} {c : Char} {tail : StdString} {one two : TokenKind}
    (hrest : t.rest = c :: tail) (hone : (one, [c]) ∈ symbols) (htwo : (two, [c, '=']) ∈ symbols) :
    Scanned t (t.advance.addOrEqual two [c, '='] one) := by
  rw [addOrEqual, matchChar]
  by_cases hnext : t.advance.peek = '='
  · simp only [hnext, ne_eq, not_true_eq_false, if_false]
    exact scanned_two hrest hnext (by decide) htwo _
  · simp only [hnext, ne_eq, not_false_eq_true, if_true]
    exact scanned_add hrest hone

theorem scanned_addDouble {t t' : Tokenizer D} {c : Char} {tail : StdString} {kind : TokenKind}
    {message : String} (hrest : t.rest = c :: tail) (hnul : c ≠ nul) (hkind : (kind, [c, c]) ∈ symbols)
    (h : t.advance.addDouble c kind [c, c] message = .ok t') : Scanned t t' := by
  rw [addDouble, matchChar] at h
  by_cases hnext : t.advance.peek = c
  · simp only [hnext, ne_eq, not_true_eq_false, if_false] at h
    cases h
    exact scanned_two hrest hnext hnul hkind _
  · simp [hnext] at h

theorem scanned_number {t : Tokenizer D} {c : Char} {tail : StdString} (hrest : t.rest = c :: tail)
    (hc : isDigit c = true) : Scanned t t.number := by
  obtain ⟨whole, tail₁, htext, hends⟩ := exists_digits tail hc
  rw [htext] at hrest
  cases hfraction : startsFraction tail₁ with
  | false =>
      obtain ⟨t', hmoved, hnumber⟩ := number_integer whole hrest hends hfraction
      have hlexeme : Moved (Lexeme.integer whole).text t t' := hmoved
      rw [hnumber]
      refine hlexeme.scanned ?_ _
      rw [hmoved.rest_eq hrest]
      exact ⟨hends, hfraction⟩
  | true =>
      -- Behind the point stands at least one digit, so there is a fraction.
      obtain ⟨d, tail₂, rfl, hd⟩ : ∃ d tail₂, tail₁ = '.' :: d :: tail₂ ∧ isDigit d = true := by
        rcases tail₁ with _ | ⟨point, _ | ⟨d, tail₂⟩⟩
        · cases hfraction
        · simp [startsFraction, show isDigit nul = false by decide] at hfraction
        · simp only [startsFraction, firstChar_cons, List.getElem?_cons_succ, List.getElem?_cons_zero,
            Option.getD_some, Bool.and_eq_true] at hfraction
          exact ⟨d, tail₂, by rw [of_decide_eq_true hfraction.1], hfraction.2⟩
      obtain ⟨fraction, tail₃, htext', hends'⟩ := exists_digits tail₂ hd
      have hrest' : t.rest = whole.text ++ '.' :: fraction.text ++ tail₃ := by
        rw [hrest, htext', List.append_assoc, List.cons_append]
      obtain ⟨t', hmoved, hnumber⟩ := number_decimal whole fraction hrest' hends'
      have hlexeme : Moved (Lexeme.decimal whole fraction).text t t' := hmoved
      rw [hnumber]
      refine hlexeme.scanned ?_ _
      rw [hmoved.rest_eq hrest']
      exact hends'

theorem scanned_identifierOrKeyword {t : Tokenizer D} {c : Char} {tail : StdString}
    (hrest : t.rest = c :: tail) (hc : isAlpha c = true ∨ c = '_') :
    Scanned t t.identifierOrKeyword := by
  obtain ⟨more, tail₁, rfl, hmore, hends⟩ :=
    exists_longest_word (p := isReferenceChar) (by decide) tail
  have hchars : ∀ d ∈ c :: more, isReferenceChar d = true :=
    List.forall_mem_cons.mpr ⟨isReferenceChar_of_starts hc, hmore⟩
  obtain ⟨t', hmoved, hword⟩ := identifierOrKeyword_word hchars hrest hends
  have hrest' : t'.rest = tail₁ := hmoved.rest_eq hrest
  rw [hword]
  split
  · rename_i hkeyword
    have hlexeme : Moved (Lexeme.keyword (c :: more) hkeyword).text t t' := hmoved
    exact hlexeme.scanned (by rw [hrest']; exact hends) _
  · rename_i hkeyword
    have hlexeme : Moved (Lexeme.identifier ⟨c, more, hc, hmore, hkeyword⟩).text t t' := hmoved
    exact hlexeme.scanned (by rw [hrest']; exact hends) _

theorem scanned_nodeReference {t t' : Tokenizer D} {tail : StdString} (hrest : t.rest = '<' :: tail)
    (halpha : isAlpha (firstChar tail) = true) (h : t.nodeReference = .ok t') : Scanned t t' := by
  obtain ⟨name, tail₁, rfl, hname, hends⟩ :=
    exists_longest_word (p := isReferenceChar) (by decide) tail
  -- The name is not empty, since a letter stands behind the bracket.
  cases name with
  | nil =>
      rw [List.nil_append] at halpha
      rw [isReferenceChar_of_isAlpha halpha] at hends
      cases hends
  | cons first more =>
      have hopening := moved_advance hrest
      have hmiddle := moved_advanceWhile_left hname hends (hopening.rest_eq hrest)
      have hpeek := peek_of_rest (hmiddle.rest_eq (hopening.rest_eq hrest))
      by_cases hclosing : firstChar tail₁ = '>'
      · obtain ⟨tail₂, rfl⟩ : ∃ tail₂, tail₁ = '>' :: tail₂ := by
          cases tail₁ with
          | nil => exact absurd hclosing (by decide)
          | cons c tail₂ => exact ⟨tail₂, by rw [show c = '>' from hclosing]⟩
        have hrest' : t.rest = '<' :: (first :: more ++ ['>']) ++ tail₂ := by simpa using hrest
        obtain ⟨t'', hmoved, hreference⟩ := nodeReference_name hname hrest'
        rw [hreference] at h
        cases h
        obtain ⟨halpha', hmore⟩ : isAlpha first = true ∧ ∀ c ∈ more, isReferenceChar c = true :=
          ⟨halpha, (List.forall_mem_cons.mp hname).2⟩
        have hlexeme : Moved (Lexeme.reference ⟨first, more, halpha', hmore⟩).text t t'' := hmoved
        exact hlexeme.scanned trivial _
      · rw [nodeReference] at h
        simp [hpeek, hclosing] at h

/-- **One round** reads a blank or a lexeme.  By the cases of the `switch`. -/
theorem scanned_of_scan {t t' : Tokenizer D} (hnul : t.peek ≠ nul) (h : t.scan = .ok t') :
    Scanned t t' := by
  obtain ⟨c, tail, hrest⟩ : ∃ c tail, t.rest = c :: tail := by
    cases hrest : t.rest with
    | nil => exact absurd (peek_of_rest hrest) hnul
    | cons c tail => exact ⟨c, tail, rfl⟩
  have hpeek : t.peek = c := peek_of_rest hrest
  have hnext : t.advance.peek = firstChar tail :=
    peek_of_rest ((moved_advance hrest).rest_eq hrest)
  by_cases hname : isReferenceChar c = true
  · rw [scan_of_isReferenceChar (hpeek ▸ hname), hpeek] at h
    cases h
    split
    · rename_i hdigit
      exact scanned_number hrest hdigit
    · rename_i hdigit
      refine scanned_identifierOrKeyword hrest ?_
      simpa [isReferenceChar, isAlnum, hdigit] using hname
  by_cases hcase : c ∈ switchCases
  · simp only [switchCases, List.mem_cons, List.not_mem_nil, or_false] at hcase
    rcases hcase with rfl | rfl | rfl | rfl | rfl | rfl | rfl | rfl | rfl | rfl | rfl | rfl | rfl |
      rfl | rfl | rfl | rfl
    -- The characters that stand alone.
    iterate 10
      · simp [scan, hpeek, isSpace] at h
        subst h
        exact scanned_add hrest (by decide)
    -- `!`
    · simp [scan, hpeek, isSpace] at h
      subst h
      exact scanned_addOrEqual hrest (by decide) (by decide)
    -- `<`, in front of `=`, of a name or of anything else
    · have hunread : t.advance.unread = t := unread_advance (by rw [hpeek]; decide)
      by_cases hequals : t.advance.peek = '='
      · simp [scan, hpeek, isSpace, matchChar, hequals] at h
        subst h
        exact scanned_two hrest hequals (by decide) (by decide) _
      by_cases halpha : isAlpha t.advance.peek = true
      · simp [scan, hpeek, isSpace, matchChar, hequals, halpha, hunread] at h
        exact scanned_nodeReference hrest (hnext ▸ halpha) h
      · simp [scan, hpeek, isSpace, matchChar, hequals, halpha] at h
        subst h
        exact scanned_add hrest (by decide)
    -- `>`
    · simp [scan, hpeek, isSpace] at h
      subst h
      exact scanned_addOrEqual hrest (by decide) (by decide)
    -- `=`, `&` and `|`
    iterate 3
      · simp [scan, hpeek, isSpace] at h
        exact scanned_addDouble hrest (by decide) (by decide) h
    -- `"`
    · simp [scan, hpeek, isSpace] at h
  · have hdigit : isDigit c ≠ true := fun hc => hname (isReferenceChar_of_isDigit hc)
    have hstarts : ¬ (isAlpha c = true ∨ c = '_') := fun hc => hname (isReferenceChar_of_starts hc)
    simp only [switchCases, List.mem_cons, List.not_mem_nil, or_false, not_or] at hcase
    by_cases hspace : isSpace c = true
    · simp only [scan, hpeek, hspace, if_true] at h
      cases h
      exact .blank c hspace (by rw [(moved_advance hrest).rest_eq hrest]; exact hrest) rfl
    · simp [scan, hpeek, hspace, hcase, hdigit, hstarts] at h

/-! ### All rounds -/

/-- **The loop** reads lexemes and blanks up to a `'\0'` or the end, and makes the lexemes' tokens. -/
theorem lexed_of_scanAll {fuel : Nat} {t t' : Tokenizer D} (hfuel : t.rest.length ≤ fuel)
    (h : scanAll fuel t = .ok t') :
    firstChar t'.rest = nul ∧ ∃ lexemes tokens, Lexed t'.rest t.rest lexemes ∧
      t'.tokens = t.tokens ++ tokens ∧ TokensOf lexemes tokens := by
  induction fuel generalizing t with
  | zero =>
      have hnil : t.rest = [] := List.eq_nil_of_length_eq_zero (Nat.le_zero.mp hfuel)
      cases h
      exact ⟨by rw [hnil]; rfl, [], [], .nil, (List.append_nil _).symm, .nil⟩
  | succ fuel ih =>
      rw [scanAll] at h
      by_cases hnul : t.peek = nul
      · rw [if_pos hnul] at h
        cases h
        exact ⟨peek_of_rest rfl ▸ hnul, [], [], .nil, (List.append_nil _).symm, .nil⟩
      · rw [if_neg hnul] at h
        cases hscan : t.scan with
        | error info =>
            rw [hscan] at h
            cases h
        | ok t₁ =>
            rw [hscan] at h
            cases scanned_of_scan hnul hscan with
            | blank c hspace hrest htokens =>
                have hlength : t₁.rest.length ≤ fuel := by
                  rw [hrest, List.length_cons] at hfuel
                  omega
                obtain ⟨hend, lexemes, tokens, hlexed, htokens', hof⟩ := ih hlength h
                refine ⟨hend, lexemes, tokens, ?_, by rw [htokens', htokens], hof⟩
                rw [hrest]
                exact .blank c hspace hlexed
            | lexeme lexeme span hrest htokens hends =>
                have hlength : t₁.rest.length ≤ fuel := by
                  have hpos := text_length_pos lexeme
                  rw [hrest, List.length_append] at hfuel
                  omega
                obtain ⟨hend, lexemes, tokens, hlexed, htokens', hof⟩ := ih hlength h
                refine ⟨hend, lexeme :: lexemes, lexeme.token span :: tokens, ?_, ?_, ?_⟩
                · rw [hrest]
                  exact .lexeme lexeme hends hlexed
                · rw [htokens', htokens, List.append_assoc, List.singleton_append]
                · exact .cons ⟨span, rfl⟩ hof

end Tokenizer

open Tokenizer

/-- What a tokenization has read: lexemes and blanks up to a `'\0'` or the end of the source. -/
theorem lexed_of_tokenize {source : StdString} {tokens : List (Token D)}
    (h : tokenize source = .ok tokens) :
    ∃ tail lexemes front span, Lexed tail source lexemes ∧ firstChar tail = nul ∧
      tokens = front ++ [⟨.endOfFile, [], span, Double.zero⟩] ∧ TokensOf lexemes front := by
  rw [tokenize] at h
  cases hscan : scanAll source.length ({ source := source } : Tokenizer D) with
  | error info =>
      rw [hscan] at h
      cases h
  | ok t =>
      rw [hscan] at h
      have hlength : ({ source := source } : Tokenizer D).rest.length ≤ source.length := Nat.le_refl _
      obtain ⟨hend, lexemes, front, hlexed, htokens, hof⟩ := lexed_of_scanAll hlength hscan
      refine ⟨t.rest, lexemes, front, t.here, hlexed, hend, ?_, hof⟩
      rw [← Except.ok.inj h, push, htokens]
      rfl

/-! ### The whole source -/

/-- What is left of a text stands in it. -/
theorem Lexed.tail_subset {tail text : StdString} {lexemes : List Lexeme}
    (h : Lexed tail text lexemes) : tail ⊆ text := by
  induction h with
  | nil => exact List.Subset.refl _
  | blank c _ _ ih => exact List.subset_cons_of_subset c ih
  | lexeme lexeme _ _ ih => exact List.subset_append_of_subset_right _ ih

/-- Lexemes and blanks up to the end are accounted for by the tokens and the end token. -/
theorem Lexed.accounted {text : StdString} {lexemes : List Lexeme} {tokens : List (Token D)}
    (h : Lexed [] text lexemes) (hof : TokensOf lexemes tokens) (span : Span) :
    Accounted text (tokens ++ [⟨.endOfFile, [], span, Double.zero⟩]) := by
  induction h generalizing tokens with
  | nil =>
      cases hof
      exact .token ⟨.endOfFile, [], span, Double.zero⟩ .nil
  | blank c hspace _ ih => exact .blank c hspace (ih hof)
  | lexeme lexeme _ _ ih =>
      cases hof with
      | cons htoken hof =>
          obtain ⟨span', rfl⟩ := htoken
          rw [← lexeme.text_token (D := D) span']
          exact .token _ (ih hof)

/-- **What a tokenization accounts for.**  The source is the concatenation, in order, of blanks and the
texts of the tokens exactly if no `'\0'` is in it: the loop takes the character for the end. -/
theorem tokenize_accounts_iff {source : StdString} {tokens : List (Token D)}
    (h : tokenize source = .ok tokens) : Accounted source tokens ↔ nul ∉ source := by
  obtain ⟨tail, lexemes, front, span, hlexed, hend, rfl, hof⟩ := lexed_of_tokenize h
  constructor
  · intro haccounted
    refine haccounted.nul_notMem fun token htoken => ?_
    rcases List.mem_append.mp htoken with hfront | hlast
    · exact hof.nul_notMem_text token hfront
    · rw [List.mem_singleton.mp hlast]
      exact List.not_mem_nil
  · intro hnul
    cases tail with
    | nil => exact hlexed.accounted hof span
    | cons c tail =>
        obtain rfl : c = nul := hend
        exact absurd (hlexed.tail_subset List.mem_cons_self) hnul

section Instances

/-- The text `1`, a `'\0'` and ` + 2`. -/
private def truncatedText : StdString := '1' :: nul :: " + 2".toList

/-- The tokens are those of `1`. -/
theorem text_behind_nul_is_ignored : ∃ tokens : List (Token NanRat),
    tokenize truncatedText = .ok tokens ∧ ¬ Accounted truncatedText tokens := by
  refine ⟨[⟨.number, ['1'], ⟨1, 2⟩, (Double.fromChars ['1']).getD Double.zero⟩,
    ⟨.endOfFile, [], ⟨1, 2⟩, Double.zero⟩], rfl, fun haccounted => ?_⟩
  have htokens : ∀ token ∈ ([⟨.number, ['1'], ⟨1, 2⟩, (Double.fromChars ['1']).getD Double.zero⟩,
      ⟨.endOfFile, [], ⟨1, 2⟩, Double.zero⟩] : List (Token NanRat)), nul ∉ token.text := by
    simp [Token.text, show nul ≠ '1' by decide]
  exact haccounted.nul_notMem htokens (by simp [truncatedText])

/-- The text ` <a>+true` is read to its end. -/
theorem sum_is_accounted : ∃ tokens : List (Token NanRat),
    tokenize " <a>+true".toList = .ok tokens ∧ Accounted " <a>+true".toList tokens :=
  ⟨_, rfl, (tokenize_accounts_iff rfl).mpr (by decide)⟩

end Instances

end StatForge.Dsl
