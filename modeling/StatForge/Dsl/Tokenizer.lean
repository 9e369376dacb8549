import StatForge.Types

/-!
# The tokenizer

`dsl/tokenizer.cpp` on an explicit tokenizer state: the source, the tokens so far, the position and
the line and column.  A scanning loop gets the number of characters left as its bound; since `peek`
yields `'\0'` at the end of the source, every loop has left by then.
-/

namespace StatForge.Dsl

inductive TokenKind
  | endOfFile
  | leftParen
  | rightParen
  | comma
  | question
  | colon
  | plus
  | minus
  | star
  | slash
  | caret
  | bang
  | less
  | greater
  | lessEqual
  | greaterEqual
  | equalEqual
  | bangEqual
  | andAnd
  | orOr
  | number
  | identifier
  | nodeRef
  deriving DecidableEq, Repr

structure Token (D : Type) where
  kind : TokenKind
  lexeme : StdString
  span : Span
  number : D
  deriving DecidableEq

/-- The classification of `<cctype>` in the "C" locale. -/
def isDigit (c : Char) : Bool := '0' ≤ c && c ≤ '9'

def isAlpha (c : Char) : Bool := ('a' ≤ c && c ≤ 'z') || ('A' ≤ c && c ≤ 'Z')

def isAlnum (c : Char) : Bool := isAlpha c || isDigit c

/-- Blank, `\t`, `\n`, `\v`, `\f` and `\r`. -/
def isSpace (c : Char) : Bool := c == ' ' || ('\t' ≤ c && c ≤ '\r')

def isReferenceChar (c : Char) : Bool := isAlnum c || c == '_'

/-- The character `'\0'`. -/
def nul : Char := Char.ofNat 0

structure Tokenizer (D : Type) where
  source : StdString
  tokens : List (Token D) := []
  pos : Nat := 0
  here : Span := {}

namespace Tokenizer

variable {D : Type} [Double D]

def peek (t : Tokenizer D) (off : Nat := 0) : Char := (t.source[t.pos + off]?).getD nul

def advance (t : Tokenizer D) : Tokenizer D :=
  { t with
    here := if t.peek = '\n' then ⟨t.here.line + 1, 1⟩ else ⟨t.here.line, t.here.column + 1⟩
    pos := t.pos + 1 }

/-- `match(expected)`: the answer and the tokenizer afterwards. -/
def matchChar (t : Tokenizer D) (expected : Char) : Bool × Tokenizer D :=
  if t.peek ≠ expected then (false, t) else (true, t.advance)

/-- `_source.substr(start, length)`. -/
def substr (t : Tokenizer D) (start length : Nat) : StdString := (t.source.drop start).take length

/-- `_tokens.push_back(Token{...})`; the `number` field defaults to `0.0`. -/
def push (t : Tokenizer D) (kind : TokenKind) (lexeme : StdString) (span : Span)
    (number : D := Double.zero) : Tokenizer D :=
  { t with tokens := t.tokens ++ [⟨kind, lexeme, span, number⟩] }

def add (t : Tokenizer D) (kind : TokenKind) : Tokenizer D :=
  t.push kind (t.substr (t.pos - 1) 1) t.here

/-- `_pos--; _here.column--`, giving the current character back. -/
def unread (t : Tokenizer D) : Tokenizer D :=
  { t with pos := t.pos - 1, here := ⟨t.here.line, t.here.column - 1⟩ }

/-- `while (p(peek())) advance();` for at most `fuel` characters. -/
def advanceWhile (p : Char → Bool) : Nat → Tokenizer D → Tokenizer D
  | 0, t => t
  | fuel + 1, t => if p t.peek then advanceWhile p fuel t.advance else t

/-- The number of characters left. -/
def left (t : Tokenizer D) : Nat := t.source.length - t.pos

def number (t : Tokenizer D) : Tokenizer D :=
  let start := t.pos
  let t := advanceWhile isDigit t.left t
  let t :=
    if t.peek = '.' ∧ isDigit (t.peek 1) then
      let t := t.advance
      advanceWhile isDigit t.left t
    else t
  let lex := t.substr start (t.pos - start)
  -- `from_chars` leaves the zero-initialised output alone when it reports an error.
  t.push .number lex t.here ((Double.fromChars lex).getD Double.zero)

def identifierOrKeyword (t : Tokenizer D) : Tokenizer D :=
  let start := t.pos
  let t := advanceWhile isReferenceChar t.left t
  let lex := t.substr start (t.pos - start)
  if lex = "true".toList ∨ lex = "false".toList then
    t.push .number lex t.here (if lex = "true".toList then Double.one else Double.zero)
  else
    t.push .identifier lex t.here

def nodeReference (t : Tokenizer D) : Result (Tokenizer D) :=
  let beginSpan := t.here
  let t := t.advance
  let start := t.pos
  let t := advanceWhile isReferenceChar t.left t
  let name := t.substr start (t.pos - start)
  if t.peek ≠ '>' then
    .error (buildErrorInfo .invalidDsl "Unterminated node reference" t.here)
  else
    .ok (t.advance.push .nodeRef name beginSpan)

/-- A two-character operator that may be followed by `'='`, or the one-character one. -/
def addOrEqual (t : Tokenizer D) (two : TokenKind) (lexeme : StdString) (one : TokenKind) :
    Tokenizer D :=
  match t.matchChar '=' with
  | (true, t) => t.push two lexeme t.here
  | (false, t) => t.add one

/-- An operator of which only the doubled form exists. -/
def addDouble (t : Tokenizer D) (second : Char) (kind : TokenKind) (lexeme : StdString)
    (message : String) : Result (Tokenizer D) :=
  match t.matchChar second with
  | (true, t) => .ok (t.push kind lexeme t.here)
  | (false, t) => .error (buildErrorInfo .invalidDsl message t.here)

/-- The body of the loop of `tokenize()` on a character that is not `'\0'`. -/
def scan (t : Tokenizer D) : Result (Tokenizer D) :=
  let currentCharacter := t.peek
  let t := t.advance
  if isSpace currentCharacter then .ok t
  else if currentCharacter = '(' then .ok (t.add .leftParen)
  else if currentCharacter = ')' then .ok (t.add .rightParen)
  else if currentCharacter = ',' then .ok (t.add .comma)
  else if currentCharacter = '?' then .ok (t.add .question)
  else if currentCharacter = ':' then .ok (t.add .colon)
  else if currentCharacter = '+' then .ok (t.add .plus)
  else if currentCharacter = '-' then .ok (t.add .minus)
  else if currentCharacter = '*' then .ok (t.add .star)
  else if currentCharacter = '/' then .ok (t.add .slash)
  else if currentCharacter = '^' then .ok (t.add .caret)
  else if currentCharacter = '!' then .ok (t.addOrEqual .bangEqual "!=".toList .bang)
  else if currentCharacter = '<' then
    match t.matchChar '=' with
    | (true, t) => .ok (t.push .lessEqual "<=".toList t.here)
    | (false, t) => if isAlpha t.peek then t.unread.nodeReference else .ok (t.add .less)
  else if currentCharacter = '>' then .ok (t.addOrEqual .greaterEqual ">=".toList .greater)
  else if currentCharacter = '=' then
    t.addDouble '=' .equalEqual "==".toList "'=' is invalid in formulas (did you mean '=='?)"
  else if currentCharacter = '&' then
    t.addDouble '&' .andAnd "&&".toList "Single '&' not supported"
  else if currentCharacter = '|' then
    t.addDouble '|' .orOr "||".toList "Single '|' not supported"
  else if currentCharacter = '"' then
    .error (buildErrorInfo .invalidDsl "String literals not supported" t.here)
  else if isDigit currentCharacter then .ok t.unread.number
  else if isAlpha currentCharacter ∨ currentCharacter = '_' then .ok t.unread.identifierOrKeyword
  else .error (buildErrorInfo .invalidDsl "Unknown character in formula" t.here)

/-- The loop of `tokenize()`, for at most `fuel` tokens or blanks. -/
def scanAll : Nat → Tokenizer D → Result (Tokenizer D)
  | 0, t => .ok t
  | fuel + 1, t =>
      if t.peek = nul then .ok t
      else
        match t.scan with
        | .error error => .error error
        | .ok t => scanAll fuel t

end Tokenizer

/-- `Tokenizer{source}.tokenize()`. -/
def tokenize {D : Type} [Double D] (source : StdString) : Result (List (Token D)) :=
  match Tokenizer.scanAll source.length ({ source := source } : Tokenizer D) with
  | .error error => .error error
  | .ok t => .ok (t.push .endOfFile [] t.here).tokens

end StatForge.Dsl
