import Mathlib.Data.Char
import StatForge.Dsl.Tokenizer
import StatForge.NanRat

/-!
# Separated lexemes

What the tokenizer makes of lexemes with blanks between them.

* `Lexeme` — a lexeme of the formula language, with the kind and the lexeme of its token and the text
  that stands for it in a source.
* `Separated` — a source text of lexemes, each followed by blanks.
* `Tokenizer.Moved` — a scanning function has consumed a word and pushed no token.
* `scan_lexeme` — a lexeme in front of a blank or of the end is scanned to its token, whatever stands
  around it.
* `tokenize_separated` — the tokenizer gives separated lexemes back, followed by one `EndOfFile`.
-/

namespace StatForge.Dsl

/-- The operators and the punctuation, with their spellings. -/
def symbols : List (TokenKind × StdString) :=
  [(.leftParen, ['(']), (.rightParen, [')']), (.comma, [',']), (.question, ['?']), (.colon, [':']),
    (.plus, ['+']), (.minus, ['-']), (.star, ['*']), (.slash, ['/']), (.caret, ['^']),
    (.bang, ['!']), (.less, ['<']), (.greater, ['>']),
    (.lessEqual, ['<', '=']), (.greaterEqual, ['>', '=']), (.equalEqual, ['=', '=']),
    (.bangEqual, ['!', '=']), (.andAnd, ['&', '&']), (.orOr, ['|', '|'])]

/-- The keywords, which are numbers. -/
def keywords : List StdString := ["true".toList, "false".toList]

/-- The digits of a number. -/
structure Digits where
  first : Char
  more : StdString
  isDigit : ∀ c ∈ first :: more, isDigit c = true

/-- The name in a reference. -/
structure ReferenceName where
  first : Char
  more : StdString
  isAlpha : isAlpha first = true
  isReferenceChar : ∀ c ∈ more, isReferenceChar c = true

/-- An identifier that is no keyword. -/
structure Identifier where
  first : Char
  more : StdString
  starts : isAlpha first = true ∨ first = '_'
  isReferenceChar : ∀ c ∈ more, isReferenceChar c = true
  notKeyword : first :: more ∉ keywords

inductive Lexeme
  | symbol (kind : TokenKind) (spelling : StdString) (h : (kind, spelling) ∈ symbols)
  | integer (digits : Digits)
  | decimal (whole fraction : Digits)
  | keyword (word : StdString) (h : word ∈ keywords)
  | identifier (name : Identifier)
  | reference (name : ReferenceName)

def Digits.text (digits : Digits) : StdString := digits.first :: digits.more

namespace Lexeme

/-- The kind of the lexeme's token. -/
def kind : Lexeme → TokenKind
  | .symbol kind _ _ => kind
  | .integer _ | .decimal _ _ | .keyword _ _ => .number
  | .identifier _ => .identifier
  | .reference _ => .nodeRef

/-- The lexeme of the lexeme's token: of a reference only the name. -/
def lexeme : Lexeme → StdString
  | .symbol _ spelling _ => spelling
  | .integer digits => digits.text
  | .decimal whole fraction => whole.text ++ '.' :: fraction.text
  | .keyword word _ => word
  | .identifier name => name.first :: name.more
  | .reference name => name.first :: name.more

/-- The lexeme in a source. -/
def text : Lexeme → StdString
  | .reference name => '<' :: (name.first :: name.more ++ ['>'])
  | other => other.lexeme

end Lexeme

/-- Blanks only. -/
def Blank (text : StdString) : Prop := ∀ c ∈ text, isSpace c = true

/-- A text of lexemes, each followed by blanks; between two lexemes stands at least one. -/
inductive Separated : List Lexeme → StdString → Prop
  | nil : Separated [] []
  | cons {lexemes text} (lexeme : Lexeme) (blanks : StdString) (hblanks : Blank blanks)
      (hseparate : lexemes ≠ [] → blanks ≠ []) (hrest : Separated lexemes text) :
      Separated (lexeme :: lexemes) (lexeme.text ++ (blanks ++ text))

/-! ### Characters -/

/-- The characters that the `switch` of `tokenize()` has a case for. -/
def switchCases : List Char :=
  ['(', ')', ',', '?', ':', '+', '-', '*', '/', '^', '!', '<', '>', '=', '&', '|', '"']

/-- A test tells two characters apart. -/
theorem ne_of_test {p : Char → Bool} {c d : Char} (hc : p c = true) (hd : p d = false) : c ≠ d := by
  rintro rfl
  rw [hc] at hd
  cases hd

theorem isReferenceChar_of_isDigit {c : Char} (h : isDigit c = true) : isReferenceChar c = true := by
  simp [isReferenceChar, isAlnum, h]

theorem isReferenceChar_of_isAlpha {c : Char} (h : isAlpha c = true) : isReferenceChar c = true := by
  simp [isReferenceChar, isAlnum, h]

theorem isReferenceChar_of_starts {c : Char} (h : isAlpha c = true ∨ c = '_') :
    isReferenceChar c = true := by
  rcases h with h | rfl
  · exact isReferenceChar_of_isAlpha h
  · decide

/-- The start of a name is no digit. -/
theorem isDigit_of_starts {c : Char} (h : isAlpha c = true ∨ c = '_') : isDigit c = false := by
  have hlow : 'A' ≤ c := by
    simp only [isAlpha, Bool.or_eq_true, Bool.and_eq_true, decide_eq_true_eq] at h
    rcases h with (⟨h, -⟩ | ⟨h, -⟩) | rfl
    · exact le_trans (by decide) h
    · exact h
    · decide
  by_contra hdigit
  simp only [isDigit, Bool.not_eq_false, Bool.and_eq_true, decide_eq_true_eq] at hdigit
  exact absurd (le_trans hlow hdigit.2) (by decide)

/-- The characters of names stand behind `'0'`, the blanks in front of it. -/
theorem isSpace_of_isReferenceChar {c : Char} (h : isReferenceChar c = true) : isSpace c = false := by
  have hlow : '0' ≤ c := by
    simp only [isReferenceChar, isAlnum, isAlpha, isDigit, Bool.or_eq_true, Bool.and_eq_true,
      decide_eq_true_eq, beq_iff_eq] at h
    rcases h with ((⟨h, -⟩ | ⟨h, -⟩) | ⟨h, -⟩) | rfl
    · exact le_trans (by decide) h
    · exact le_trans (by decide) h
    · exact h
    · decide
  by_contra hspace
  simp only [isSpace, Bool.not_eq_false, Bool.or_eq_true, Bool.and_eq_true, decide_eq_true_eq,
    beq_iff_eq] at hspace
  rcases hspace with rfl | ⟨-, hspace⟩
  · exact absurd hlow (by decide)
  · exact absurd (le_trans hlow hspace) (by decide)

/-- A character of a name is none that the `switch` has a case for. -/
theorem notMem_switchCases {c : Char} (h : isReferenceChar c = true) : c ∉ switchCases := by
  have hcases : switchCases.all (fun d => !isReferenceChar d) = true := rfl
  intro hc
  have hname := List.all_eq_true.mp hcases c hc
  rw [h] at hname
  cases hname

/-- What stands behind a separated lexeme: a blank, or `'\0'` behind the end of the source. -/
def EndsLexeme (c : Char) : Prop := c = nul ∨ isSpace c = true

theorem EndsLexeme.not_isReferenceChar {c : Char} (h : EndsLexeme c) : isReferenceChar c = false := by
  rcases h with rfl | hspace
  · decide
  · by_contra hname
    rw [Bool.not_eq_false] at hname
    exact ne_of_test hspace (isSpace_of_isReferenceChar hname) rfl

theorem EndsLexeme.not_isAlpha {c : Char} (h : EndsLexeme c) : isAlpha c = false := by
  have hname := h.not_isReferenceChar
  simp_all [isReferenceChar, isAlnum]

theorem EndsLexeme.not_isDigit {c : Char} (h : EndsLexeme c) : isDigit c = false := by
  have hname := h.not_isReferenceChar
  simp_all [isReferenceChar, isAlnum]

theorem EndsLexeme.ne {c d : Char} (h : EndsLexeme c) (hspace : isSpace d = false) (hnul : d ≠ nul) :
    c ≠ d := by
  rcases h with rfl | h
  · exact hnul.symm
  · exact ne_of_test h hspace

/-- The first character of a tail, or `'\0'`. -/
def firstChar (text : StdString) : Char := text.head?.getD nul

@[simp] theorem firstChar_cons (c : Char) (text : StdString) : firstChar (c :: text) = c := rfl

/-- A fraction follows: a point and a digit. -/
def startsFraction (tail : StdString) : Bool :=
  firstChar tail = '.' && isDigit ((tail[1]?).getD nul)

theorem EndsLexeme.not_startsFraction {tail : StdString} (h : EndsLexeme (firstChar tail)) :
    startsFraction tail = false := by
  have hpoint : firstChar tail ≠ '.' := h.ne (by decide) (by decide)
  simp [startsFraction, hpoint]

/-- Behind a lexeme of a separated text stands a blank or the end. -/
theorem Separated.endsLexeme {lexemes : List Lexeme} {blanks text : StdString}
    (h : Separated lexemes text) (hblanks : Blank blanks) (hseparate : lexemes ≠ [] → blanks ≠ []) :
    EndsLexeme (firstChar (blanks ++ text)) := by
  cases blanks with
  | cons c blanks => exact Or.inr (hblanks c List.mem_cons_self)
  | nil =>
      cases h with
      | nil => exact Or.inl rfl
      | cons => exact absurd rfl (hseparate (List.cons_ne_nil _ _))

/-! ### Moving over a word -/

namespace Tokenizer

variable {D : Type}

/-- The text that is still unread. -/
def rest (t : Tokenizer D) : StdString := t.source.drop t.pos

/-- The kinds and lexemes of the tokens so far. -/
def emitted (t : Tokenizer D) : List (TokenKind × StdString) :=
  t.tokens.map fun token => (token.kind, token.lexeme)

theorem peek_eq (t : Tokenizer D) (off : Nat) : t.peek off = (t.rest[off]?).getD nul := by
  simp [peek, rest, List.getElem?_drop]

theorem peek_of_rest {t : Tokenizer D} {text : StdString} (h : t.rest = text) :
    t.peek = firstChar text := by
  rw [peek_eq, h, firstChar, List.head?_eq_getElem?]

theorem startsFraction_of_rest {t : Tokenizer D} {tail : StdString} (h : t.rest = tail) :
    (t.peek = '.' ∧ isDigit (t.peek 1) = true) ↔ startsFraction tail = true := by
  rw [peek_of_rest h, peek_eq, h]
  simp [startsFraction]

/-- The tokenizer has moved over a word, without a token for it. -/
structure Moved (word : StdString) (t t' : Tokenizer D) : Prop where
  source : t'.source = t.source
  tokens : t'.tokens = t.tokens
  pos : t'.pos = t.pos + word.length
  rest : t.rest = word ++ t'.rest

theorem Moved.refl (t : Tokenizer D) : Moved [] t t := ⟨rfl, rfl, rfl, rfl⟩

theorem Moved.trans {word word' : StdString} {t t' t'' : Tokenizer D} (h : Moved word t t')
    (h' : Moved word' t' t'') : Moved (word ++ word') t t'' where
  source := h'.source.trans h.source
  tokens := h'.tokens.trans h.tokens
  pos := by
    rw [h'.pos, h.pos, List.length_append, Nat.add_assoc]
  rest := by
    rw [h.rest, h'.rest, List.append_assoc]

theorem Moved.emitted {word : StdString} {t t' : Tokenizer D} (h : Moved word t t') :
    t'.emitted = t.emitted := by
  rw [Tokenizer.emitted, h.tokens]
  rfl

/-- The text behind the word. -/
theorem Moved.rest_eq {word tail : StdString} {t t' : Tokenizer D} (h : Moved word t t')
    (hrest : t.rest = word ++ tail) : t'.rest = tail :=
  List.append_cancel_left (h.rest.symm.trans hrest)

/-- The word is the text between the two positions. -/
theorem Moved.substr {word : StdString} {t t' : Tokenizer D} (h : Moved word t t') :
    t'.substr t.pos (t'.pos - t.pos) = word := by
  have hlength : t'.pos - t.pos = word.length := by
    have := h.pos
    omega
  have htext : t.source.drop t.pos = word ++ t'.rest := h.rest
  rw [Tokenizer.substr, h.source, hlength, htext, List.take_left]

theorem moved_advance {t : Tokenizer D} {c : Char} {tail : StdString} (h : t.rest = c :: tail) :
    Moved [c] t t.advance where
  source := rfl
  tokens := rfl
  pos := rfl
  rest := by
    have htail : t.advance.rest = t.rest.drop 1 := by
      simp [Tokenizer.rest, advance, List.drop_drop]
    rw [htail, h]
    rfl

/-- Giving the current character back undoes `advance()`, except behind a line end. -/
theorem unread_advance {t : Tokenizer D} (h : t.peek ≠ '\n') : t.advance.unread = t := by
  simp [advance, unread, h]

/-- **A loop over a class of characters** moves over the longest word of them. -/
theorem moved_advanceWhile {p : Char → Bool} {word tail : StdString} (hword : ∀ c ∈ word, p c = true)
    (htail : p (firstChar tail) = false) {fuel : Nat} {t : Tokenizer D}
    (hrest : t.rest = word ++ tail) (hfuel : word.length ≤ fuel) :
    Moved word t (advanceWhile p fuel t) := by
  induction word generalizing fuel t with
  | nil =>
      have hpeek : p t.peek = false := by
        rw [peek_of_rest hrest]
        exact htail
      cases fuel with
      | zero => exact .refl t
      | succ fuel =>
          rw [advanceWhile, hpeek]
          exact .refl t
  | cons c word ih =>
      rw [List.length_cons] at hfuel
      obtain ⟨fuel, rfl⟩ : ∃ n, fuel = n + 1 := ⟨fuel - 1, by omega⟩
      have hpeek : p t.peek = true := by
        rw [peek_of_rest hrest]
        exact hword c List.mem_cons_self
      have hfirst := moved_advance hrest
      have hmore := ih (fun d hd => hword d (List.mem_cons_of_mem c hd)) (hfirst.rest_eq hrest)
        (Nat.le_of_succ_le_succ hfuel)
      rw [advanceWhile, hpeek, if_pos rfl]
      exact hfirst.trans hmore

/-- As many characters are left as the loop may have to read. -/
theorem moved_advanceWhile_left {p : Char → Bool} {word tail : StdString} {t : Tokenizer D}
    (hword : ∀ c ∈ word, p c = true) (htail : p (firstChar tail) = false)
    (hrest : t.rest = word ++ tail) : Moved word t (advanceWhile p t.left t) := by
  apply moved_advanceWhile hword htail hrest
  have hlength : t.rest.length = t.left := List.length_drop
  rw [← hlength, hrest, List.length_append]
  omega

variable [Double D]

@[simp] theorem push_rest (t : Tokenizer D) (kind : TokenKind) (lexeme : StdString) (span : Span)
    (number : D) : (t.push kind lexeme span number).rest = t.rest := rfl

@[simp] theorem push_emitted (t : Tokenizer D) (kind : TokenKind) (lexeme : StdString) (span : Span)
    (number : D) : (t.push kind lexeme span number).emitted = t.emitted ++ [(kind, lexeme)] := by
  simp [push, emitted]

/-! ### One lexeme -/

/-- A scanning function ends in front of the tail, with one more token. -/
def Yields (t : Tokenizer D) (kind : TokenKind) (lexeme tail : StdString) (t' : Tokenizer D) : Prop :=
  t'.rest = tail ∧ t'.emitted = t.emitted ++ [(kind, lexeme)]

/-- A token for the word that the tokenizer has moved over. -/
theorem Moved.yields_push {word tail : StdString} {t t' : Tokenizer D} (h : Moved word t t')
    (hrest : t.rest = word ++ tail) (kind : TokenKind) (lexeme : StdString) (span : Span)
    (number : D) : Yields t kind lexeme tail (t'.push kind lexeme span number) := by
  constructor
  · rw [push_rest]
    exact h.rest_eq hrest
  · rw [push_emitted, h.emitted]

/-- `add()` makes a token of the character that was read last. -/
theorem yields_add {t : Tokenizer D} {c : Char} {tail : StdString} (hrest : t.rest = c :: tail)
    (kind : TokenKind) : Yields t kind [c] tail (t.advance.add kind) := by
  have hmoved := moved_advance hrest
  have hpos : t.advance.pos - 1 = t.pos := rfl
  have hlength : t.advance.pos - t.pos = 1 := Nat.add_sub_cancel_left ..
  have hsubstr := hmoved.substr
  rw [hlength] at hsubstr
  rw [add, hpos, hsubstr]
  exact hmoved.yields_push hrest kind [c] _ _

/-- `number()` on digits without a fraction behind them. -/
theorem number_integer {t : Tokenizer D} {tail : StdString} (digits : Digits)
    (hrest : t.rest = digits.text ++ tail) (hdigit : isDigit (firstChar tail) = false)
    (hfraction : startsFraction tail = false) :
    ∃ t', Moved digits.text t t' ∧ t.number =
      t'.push .number digits.text t'.here ((Double.fromChars digits.text).getD Double.zero) := by
  have hmoved : Moved digits.text t _ := moved_advanceWhile_left digits.isDigit hdigit hrest
  have hpoint := startsFraction_of_rest (hmoved.rest_eq hrest)
  rw [hfraction] at hpoint
  refine ⟨_, hmoved, ?_⟩
  rw [number]
  simp only [hpoint, Bool.false_eq_true, if_false, hmoved.substr]

/-- `number()` on digits with a fraction. -/
theorem number_decimal {t : Tokenizer D} {tail : StdString} (whole fraction : Digits)
    (hrest : t.rest = whole.text ++ '.' :: fraction.text ++ tail)
    (hdigit : isDigit (firstChar tail) = false) :
    ∃ t', Moved (whole.text ++ '.' :: fraction.text) t t' ∧ t.number =
      t'.push .number (whole.text ++ '.' :: fraction.text) t'.here
        ((Double.fromChars (whole.text ++ '.' :: fraction.text)).getD Double.zero) := by
  have hrest₀ : t.rest = whole.text ++ '.' :: (fraction.text ++ tail) := by simpa using hrest
  have hpointEnds : isDigit (firstChar ('.' :: (fraction.text ++ tail))) = false := by
    rw [firstChar_cons]
    decide
  have hwhole : Moved whole.text t _ := moved_advanceWhile_left whole.isDigit hpointEnds hrest₀
  have hrest₁ := hwhole.rest_eq hrest₀
  have hdot := moved_advance hrest₁
  have hrest₂ : (advanceWhile isDigit t.left t).advance.rest = fraction.text ++ tail :=
    hdot.rest_eq hrest₁
  have hfraction : Moved fraction.text _ _ :=
    moved_advanceWhile_left fraction.isDigit hdigit hrest₂
  have hpoint : (advanceWhile isDigit t.left t).peek = '.' ∧
      isDigit ((advanceWhile isDigit t.left t).peek 1) = true := by
    rw [startsFraction_of_rest hrest₁, startsFraction]
    have hdigit : isDigit fraction.first = true := fraction.isDigit _ List.mem_cons_self
    simpa [Digits.text] using hdigit
  have hmoved : Moved (whole.text ++ '.' :: fraction.text) t _ :=
    hwhole.trans (hdot.trans hfraction)
  refine ⟨_, hmoved, ?_⟩
  rw [number]
  simp only [hpoint, and_self, if_true, hmoved.substr]

/-- `identifierOrKeyword()` on a word. -/
theorem identifierOrKeyword_word {t : Tokenizer D} {word tail : StdString}
    (hword : ∀ c ∈ word, isReferenceChar c = true) (hrest : t.rest = word ++ tail)
    (hend : isReferenceChar (firstChar tail) = false) :
    ∃ t', Moved word t t' ∧ t.identifierOrKeyword =
      if word ∈ keywords then
        t'.push .number word t'.here (if word = "true".toList then Double.one else Double.zero)
      else t'.push .identifier word t'.here := by
  have hmoved := moved_advanceWhile_left hword hend hrest
  have hkeyword : word ∈ keywords ↔ word = "true".toList ∨ word = "false".toList := by
    simp [keywords]
  refine ⟨_, hmoved, ?_⟩
  rw [identifierOrKeyword]
  simp only [hmoved.substr, hkeyword]

/-- `nodeReference()` on a name in angle brackets. -/
theorem nodeReference_name {t : Tokenizer D} {name tail : StdString}
    (hname : ∀ c ∈ name, isReferenceChar c = true)
    (hrest : t.rest = '<' :: (name ++ ['>']) ++ tail) :
    ∃ t', Moved ('<' :: (name ++ ['>'])) t t' ∧
      t.nodeReference = .ok (t'.push .nodeRef name t.here) := by
  have hrest₀ : t.rest = '<' :: (name ++ '>' :: tail) := by simpa using hrest
  have hopening := moved_advance hrest₀
  have hrest₁ : t.advance.rest = name ++ '>' :: tail := hopening.rest_eq hrest₀
  have hcloses : isReferenceChar (firstChar ('>' :: tail)) = false := by
    rw [firstChar_cons]
    decide
  have hmiddle := moved_advanceWhile_left hname hcloses hrest₁
  have hrest₂ := hmiddle.rest_eq hrest₁
  have hclosing := moved_advance hrest₂
  have hpeek : (advanceWhile isReferenceChar t.advance.left t.advance).peek = '>' :=
    peek_of_rest hrest₂
  refine ⟨_, hopening.trans (hmiddle.trans hclosing), ?_⟩
  rw [nodeReference]
  simp only [hmiddle.substr, hpeek, ne_eq, not_true_eq_false, if_false]

theorem yields_number_integer {t : Tokenizer D} {tail : StdString} (digits : Digits)
    (hrest : t.rest = digits.text ++ tail) (hend : EndsLexeme (firstChar tail)) :
    Yields t .number digits.text tail t.number := by
  obtain ⟨t', hmoved, hnumber⟩ :=
    number_integer digits hrest hend.not_isDigit hend.not_startsFraction
  rw [hnumber]
  exact hmoved.yields_push hrest _ _ _ _

theorem yields_number_decimal {t : Tokenizer D} {tail : StdString} (whole fraction : Digits)
    (hrest : t.rest = whole.text ++ '.' :: fraction.text ++ tail)
    (hend : EndsLexeme (firstChar tail)) :
    Yields t .number (whole.text ++ '.' :: fraction.text) tail t.number := by
  obtain ⟨t', hmoved, hnumber⟩ := number_decimal whole fraction hrest hend.not_isDigit
  rw [hnumber]
  exact hmoved.yields_push hrest _ _ _ _

theorem isReferenceChar_of_mem_keywords {word : StdString} (hword : word ∈ keywords) :
    ∀ c ∈ word, isReferenceChar c = true := by
  have hkeywords : keywords.all (·.all isReferenceChar) = true := rfl
  exact List.all_eq_true.mp (List.all_eq_true.mp hkeywords word hword)

theorem yields_keyword {t : Tokenizer D} {word tail : StdString} (hword : word ∈ keywords)
    (hrest : t.rest = word ++ tail) (hend : EndsLexeme (firstChar tail)) :
    Yields t .number word tail t.identifierOrKeyword := by
  obtain ⟨t', hmoved, hkeyword⟩ := identifierOrKeyword_word
    (isReferenceChar_of_mem_keywords hword) hrest hend.not_isReferenceChar
  rw [hkeyword, if_pos hword]
  exact hmoved.yields_push hrest _ _ _ _

theorem yields_identifier {t : Tokenizer D} {tail : StdString} (name : Identifier)
    (hrest : t.rest = name.first :: name.more ++ tail) (hend : EndsLexeme (firstChar tail)) :
    Yields t .identifier (name.first :: name.more) tail t.identifierOrKeyword := by
  have hchars : ∀ c ∈ name.first :: name.more, isReferenceChar c = true :=
    List.forall_mem_cons.mpr ⟨isReferenceChar_of_starts name.starts, name.isReferenceChar⟩
  obtain ⟨t', hmoved, hidentifier⟩ :=
    identifierOrKeyword_word hchars hrest hend.not_isReferenceChar
  rw [hidentifier, if_neg name.notKeyword]
  exact hmoved.yields_push hrest _ _ _ _

theorem yields_nodeReference {t : Tokenizer D} {tail : StdString} (name : ReferenceName)
    (hrest : t.rest = '<' :: (name.first :: name.more ++ ['>']) ++ tail) :
    ∃ t', t.nodeReference = .ok t' ∧ Yields t .nodeRef (name.first :: name.more) tail t' := by
  have hchars : ∀ c ∈ name.first :: name.more, isReferenceChar c = true :=
    List.forall_mem_cons.mpr ⟨isReferenceChar_of_isAlpha name.isAlpha, name.isReferenceChar⟩
  obtain ⟨t', hmoved, hreference⟩ := nodeReference_name hchars hrest
  exact ⟨_, hreference, hmoved.yields_push hrest _ _ _ _⟩

/-- The `default` of the `switch`, on a character of a name. -/
theorem scan_of_isReferenceChar {t : Tokenizer D} (h : isReferenceChar t.peek = true) :
    t.scan = .ok (if isDigit t.peek then t.number else t.identifierOrKeyword) := by
  have hspace := isSpace_of_isReferenceChar h
  have hcases := notMem_switchCases h
  have hunread : t.advance.unread = t := by
    apply unread_advance
    intro hline
    rw [hline] at hspace
    cases hspace
  simp only [switchCases, List.mem_cons, List.not_mem_nil, or_false, not_or] at hcases
  by_cases hdigit : isDigit t.peek = true
  · simp [scan, hspace, hcases, hunread, hdigit]
  · have hname : isAlpha t.peek = true ∨ t.peek = '_' := by
      simpa [isReferenceChar, isAlnum, hdigit] using h
    simp [scan, hspace, hcases, hunread, hdigit, hname]

theorem scan_of_isDigit {t : Tokenizer D} (h : isDigit t.peek = true) : t.scan = .ok t.number := by
  rw [scan_of_isReferenceChar (isReferenceChar_of_isDigit h), if_pos h]

theorem scan_of_starts {t : Tokenizer D} (h : isAlpha t.peek = true ∨ t.peek = '_') :
    t.scan = .ok t.identifierOrKeyword := by
  rw [scan_of_isReferenceChar (isReferenceChar_of_starts h), isDigit_of_starts h]
  rfl

/-- A symbol of two characters. -/
theorem yields_two {t : Tokenizer D} {first second : Char} {tail : StdString}
    (hrest : t.rest = first :: second :: tail) (kind : TokenKind) (span : Span) :
    Yields t kind [first, second] tail (t.advance.advance.push kind [first, second] span) := by
  have hfirst := moved_advance hrest
  have hrest₁ : t.advance.rest = second :: tail := hfirst.rest_eq hrest
  exact (hfirst.trans (moved_advance hrest₁)).yields_push hrest _ _ _ _

/-- The operators and the punctuation. -/
theorem scan_symbol {t : Tokenizer D} {tail : StdString} {kind : TokenKind} {spelling : StdString}
    (h : (kind, spelling) ∈ symbols) (hrest : t.rest = spelling ++ tail)
    (hend : EndsLexeme (firstChar tail)) :
    ∃ t', t.scan = .ok t' ∧ Yields t kind spelling tail t' := by
  have hequals : firstChar tail ≠ '=' := hend.ne (by decide) (by decide)
  have halpha := hend.not_isAlpha
  simp only [symbols, List.mem_cons, Prod.mk.injEq, List.not_mem_nil, or_false] at h
  rcases h with ⟨rfl, rfl⟩ | ⟨rfl, rfl⟩ | ⟨rfl, rfl⟩ | ⟨rfl, rfl⟩ | ⟨rfl, rfl⟩ | ⟨rfl, rfl⟩ |
    ⟨rfl, rfl⟩ | ⟨rfl, rfl⟩ | ⟨rfl, rfl⟩ | ⟨rfl, rfl⟩ | ⟨rfl, rfl⟩ | ⟨rfl, rfl⟩ | ⟨rfl, rfl⟩ | h
  -- The characters that stand alone.
  iterate 10
    · have hpeek := peek_of_rest hrest
      refine ⟨_, ?_, yields_add hrest _⟩
      simp [scan, hpeek, isSpace]
  -- `!`, `<` and `>`, behind which no `=` stands.
  iterate 3
    · have hpeek := peek_of_rest hrest
      have hnext : t.advance.peek = firstChar tail :=
        peek_of_rest ((moved_advance hrest).rest_eq hrest)
      refine ⟨_, ?_, yields_add hrest _⟩
      simp [scan, hpeek, isSpace, addOrEqual, matchChar, hnext, hequals, halpha]
  -- The symbols of two characters.
  rcases h with ⟨rfl, rfl⟩ | ⟨rfl, rfl⟩ | ⟨rfl, rfl⟩ | ⟨rfl, rfl⟩ | ⟨rfl, rfl⟩ | ⟨rfl, rfl⟩
  all_goals
    have hpeek := peek_of_rest hrest
    have hnext := peek_of_rest ((moved_advance hrest).rest_eq hrest)
    refine ⟨_, ?_, yields_two hrest _ t.advance.advance.here⟩
    simp [scan, hpeek, isSpace, addOrEqual, addDouble, matchChar, hnext]

/-- **One lexeme.**  A lexeme in front of a blank or of the end of the source is scanned to its
token. -/
theorem scan_lexeme {t : Tokenizer D} {tail : StdString} (lexeme : Lexeme)
    (hrest : t.rest = lexeme.text ++ tail) (hend : EndsLexeme (firstChar tail)) :
    ∃ t', t.scan = .ok t' ∧ Yields t lexeme.kind lexeme.lexeme tail t' := by
  cases lexeme with
  | symbol kind spelling h => exact scan_symbol h hrest hend
  | integer digits =>
      have hpeek : t.peek = digits.first := peek_of_rest hrest
      have hdigit : isDigit t.peek = true := hpeek ▸ digits.isDigit _ List.mem_cons_self
      exact ⟨_, scan_of_isDigit hdigit, yields_number_integer digits hrest hend⟩
  | decimal whole fraction =>
      have hpeek : t.peek = whole.first := peek_of_rest hrest
      have hdigit : isDigit t.peek = true := hpeek ▸ whole.isDigit _ List.mem_cons_self
      exact ⟨_, scan_of_isDigit hdigit, yields_number_decimal whole fraction hrest hend⟩
  | keyword word h =>
      have hpeek : isAlpha t.peek = true := by
        rw [peek_of_rest hrest]
        simp only [keywords, List.mem_cons, List.not_mem_nil, or_false] at h
        rcases h with rfl | rfl <;> rfl
      exact ⟨_, scan_of_starts (Or.inl hpeek), yields_keyword h hrest hend⟩
  | identifier name =>
      have hpeek : t.peek = name.first := peek_of_rest hrest
      exact ⟨_, scan_of_starts (hpeek ▸ name.starts), yields_identifier name hrest hend⟩
  | reference name =>
      have hpeek : t.peek = '<' := peek_of_rest hrest
      have hnext : t.advance.peek = name.first :=
        peek_of_rest ((moved_advance hrest).rest_eq hrest)
      have hunread : t.advance.unread = t := unread_advance (by simp [hpeek])
      have hequals : name.first ≠ '=' := ne_of_test name.isAlpha (by decide)
      obtain ⟨t', hscan, hyields⟩ := yields_nodeReference name hrest
      refine ⟨t', ?_, hyields⟩
      simp [scan, hpeek, isSpace, matchChar, hnext, hequals, name.isAlpha, hunread, hscan]

/-! ### The whole source -/

/-- A lexeme starts with a character that does not end the source. -/
theorem firstChar_text (lexeme : Lexeme) (tail : StdString) :
    firstChar (lexeme.text ++ tail) ≠ nul := by
  have hname : ∀ c : Char, isReferenceChar c = true → c ≠ nul := fun c hc => ne_of_test hc (by decide)
  cases lexeme with
  | symbol kind spelling h =>
      have hall : ∀ symbol ∈ symbols, symbol.2 ≠ [] ∧ firstChar symbol.2 ≠ nul := by decide
      obtain ⟨hne, hfirst⟩ := hall _ h
      obtain ⟨c, more, rfl⟩ := List.exists_cons_of_ne_nil hne
      exact hfirst
  | integer digits =>
      exact hname _ (isReferenceChar_of_isDigit (digits.isDigit _ List.mem_cons_self))
  | decimal whole fraction =>
      exact hname _ (isReferenceChar_of_isDigit (whole.isDigit _ List.mem_cons_self))
  | keyword word h =>
      simp only [keywords, List.mem_cons, List.not_mem_nil, or_false] at h
      rcases h with rfl | rfl <;> exact hname _ rfl
  | identifier name => exact hname _ (isReferenceChar_of_starts name.starts)
  | reference name =>
      show '<' ≠ nul
      decide

theorem text_length_pos (lexeme : Lexeme) : 0 < lexeme.text.length := by
  apply List.length_pos_iff.mpr
  intro hnil
  apply firstChar_text lexeme []
  rw [hnil]
  rfl

/-- The blanks that stand in front of a text are skipped, one in each round. -/
theorem scanAll_blanks {blanks tail : StdString} (hblanks : Blank blanks) {fuel : Nat}
    {t : Tokenizer D} (hrest : t.rest = blanks ++ tail) (hfuel : blanks.length ≤ fuel) :
    ∃ t', Moved blanks t t' ∧ scanAll fuel t = scanAll (fuel - blanks.length) t' := by
  induction blanks generalizing fuel t with
  | nil => exact ⟨t, .refl t, rfl⟩
  | cons c blanks ih =>
      rw [List.length_cons] at hfuel ⊢
      obtain ⟨fuel, rfl⟩ : ∃ n, fuel = n + 1 := ⟨fuel - 1, by omega⟩
      have hpeek : t.peek = c := peek_of_rest hrest
      have hspace := hblanks c List.mem_cons_self
      have hnul : c ≠ nul := ne_of_test hspace (by decide)
      have hscan : t.scan = .ok t.advance := by
        simp [scan, hpeek, hspace]
      have hfirst := moved_advance hrest
      obtain ⟨t', hmoved, hrun⟩ := ih (fun d hd => hblanks d (List.mem_cons_of_mem c hd))
        (hfirst.rest_eq hrest) (Nat.le_of_succ_le_succ hfuel)
      refine ⟨t', hfirst.trans hmoved, ?_⟩
      rw [Nat.add_sub_add_right, scanAll, if_neg (hpeek ▸ hnul), hscan]
      exact hrun

/-- **All lexemes.**  By induction on the separated text: the loop makes one token of every lexeme. -/
theorem scanAll_separated {lexemes : List Lexeme} {text : StdString}
    (htext : Separated lexemes text) {fuel : Nat} {t : Tokenizer D} (hrest : t.rest = text)
    (hfuel : text.length ≤ fuel) :
    ∃ t', scanAll fuel t = .ok t' ∧
      t'.emitted = t.emitted ++ lexemes.map fun lexeme => (lexeme.kind, lexeme.lexeme) := by
  induction htext generalizing fuel t with
  | nil =>
      refine ⟨t, ?_, by simp⟩
      cases fuel with
      | zero => rfl
      | succ fuel =>
          have hpeek : t.peek = nul := peek_of_rest hrest
          rw [scanAll, if_pos hpeek]
  | @cons lexemes text lexeme blanks hblanks hseparate hrest' ih =>
      have hpos := text_length_pos lexeme
      simp only [List.length_append] at hfuel
      obtain ⟨fuel, rfl⟩ : ∃ n, fuel = n + 1 := ⟨fuel - 1, by omega⟩
      obtain ⟨t₁, hscan, hrest₁, hemitted₁⟩ :=
        scan_lexeme lexeme hrest (hrest'.endsLexeme hblanks hseparate)
      obtain ⟨t₂, hmoved, hrun⟩ := scanAll_blanks hblanks hrest₁ (by omega : blanks.length ≤ fuel)
      obtain ⟨t', hrest₂, hemitted₂⟩ := ih (hmoved.rest_eq hrest₁)
        (by omega : text.length ≤ fuel - blanks.length)
      have hpeek : t.peek ≠ nul := by
        rw [peek_of_rest hrest]
        exact firstChar_text lexeme _
      refine ⟨t', ?_, ?_⟩
      · rw [scanAll, if_neg hpeek, hscan]
        exact hrun.trans hrest₂
      · rw [hemitted₂, hmoved.emitted, hemitted₁, List.map_cons, List.append_assoc]
        rfl

end Tokenizer

/-- **Separated lexemes.**  The tokenizer accepts every source of separated lexemes and gives their
kinds and lexemes back, followed by one `EndOfFile`. -/
theorem tokenize_separated {D : Type} [Double D] {lexemes : List Lexeme} {leading text : StdString}
    (hleading : Blank leading) (htext : Separated lexemes text) :
    ∃ tokens : List (Token D), tokenize (leading ++ text) = .ok tokens ∧
      tokens.map (fun token => (token.kind, token.lexeme)) =
        lexemes.map (fun lexeme => (lexeme.kind, lexeme.lexeme)) ++ [(.endOfFile, [])] := by
  have hstart : ({ source := leading ++ text } : Tokenizer D).rest = leading ++ text := rfl
  obtain ⟨t, hmoved, hrun⟩ := Tokenizer.scanAll_blanks hleading hstart
    (by simp : leading.length ≤ (leading ++ text).length)
  obtain ⟨t', hscan, hemitted⟩ := Tokenizer.scanAll_separated htext (hmoved.rest_eq hstart)
    (by simp : text.length ≤ (leading ++ text).length - leading.length)
  refine ⟨(t'.push .endOfFile [] t'.here).tokens, ?_, ?_⟩
  · rw [tokenize, hrun, hscan]
  · show (t'.push .endOfFile [] t'.here).emitted = _
    rw [Tokenizer.push_emitted, hemitted, hmoved.emitted]
    rfl

section Instances

/-- The reference `<a1>`. -/
private def inputLexeme : Lexeme := .reference ⟨'a', ['1'], rfl, List.forall_mem_singleton.mpr rfl⟩

private def atLeastLexeme : Lexeme := .symbol .greaterEqual ['>', '='] (by decide)

/-- The number `2.5`. -/
private def boundLexeme : Lexeme :=
  .decimal ⟨'2', [], List.forall_mem_singleton.mpr rfl⟩ ⟨'5', [], List.forall_mem_singleton.mpr rfl⟩

/-- A comparison with a tab, a line end and blanks at both ends. -/
theorem comparison_is_given_back :
    ∃ tokens : List (Token NanRat), tokenize " <a1>\t>=\n2.5 ".toList = .ok tokens ∧
      tokens.map (fun token => (token.kind, token.lexeme)) =
        [(.nodeRef, "a1".toList), (.greaterEqual, ">=".toList), (.number, "2.5".toList),
          (.endOfFile, [])] := by
  have hblank : Blank [' '] := List.forall_mem_singleton.mpr rfl
  have htab : Blank ['\t'] := List.forall_mem_singleton.mpr rfl
  have hline : Blank ['\n'] := List.forall_mem_singleton.mpr rfl
  have htext : Separated [inputLexeme, atLeastLexeme, boundLexeme] "<a1>\t>=\n2.5 ".toList :=
    .cons inputLexeme ['\t'] htab (by simp)
      (.cons atLeastLexeme ['\n'] hline (by simp)
        (.cons boundLexeme [' '] hblank (by simp) .nil))
  exact tokenize_separated hblank htext

end Instances

end StatForge.Dsl
