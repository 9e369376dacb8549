import StatForge.Dsl.Scanning

/-!
# Positions

The lines and columns that the tokenizer counts, and the spans that it writes from them.

* `positionAfter` — the line and the column behind a text.
* `Tokenizer.PlacedIn` — the counted position is the one behind the characters that have been read.
* `Laid` — the tokens stand in the source one behind the other, each with its span.
* `laid_of_tokenize`, `blames_of_tokenize` — the tokens and the errors of a tokenization.
-/

namespace StatForge.Dsl

variable {D : Type}

/-- The position behind one more character. -/
def moveOver (span : Span) (c : Char) : Span :=
  if c = '\n' then ⟨span.line + 1, 1⟩ else ⟨span.line, span.column + 1⟩

/-- The position behind a text. -/
def positionAfter (text : StdString) : Span := text.foldl moveOver {}

theorem positionAfter_concat (text : StdString) (c : Char) :
    positionAfter (text ++ [c]) = moveOver (positionAfter text) c := by
  rw [positionAfter, List.foldl_append]
  rfl

/-- A place in the source. -/
def PointsInto (source : StdString) (span : Span) : Prop :=
  ∃ before, before <+: source ∧ span = positionAfter before

/-- The tokens are laid out in the text that follows what has been read: in order and with nothing but
blanks in between.  The span of a token is the position behind its text; of a reference it is the
position in front. -/
inductive Laid : StdString → StdString → List (Token D) → Prop
  | done {read text} : Laid read text []
  | blank {read text tokens} (c : Char) (hspace : isSpace c = true)
      (hrest : Laid (read ++ [c]) text tokens) : Laid read (c :: text) tokens
  | token {read text tokens} (token : Token D)
      (hspan : token.span =
        positionAfter (if token.kind = .nodeRef then read else read ++ token.text))
      (hrest : Laid (read ++ token.text) text tokens) :
      Laid read (token.text ++ text) (token :: tokens)

/-- The spans are places in the source. -/
theorem Laid.pointsInto {read text : StdString} {tokens : List (Token D)} (h : Laid read text tokens) :
    ∀ token ∈ tokens, PointsInto (read ++ text) token.span := by
  induction h with
  | done => simp
  | blank c _ _ ih => simpa using ih
  | @token read text tokens token hspan _ ih =>
      rw [← List.append_assoc]
      refine List.forall_mem_cons.mpr ⟨⟨_, ?_, hspan⟩, ih⟩
      split
      · rw [List.append_assoc]
        exact List.prefix_append _ _
      · exact List.prefix_append _ _

/-- An error in the formula, with a span that has the property. -/
def Blames (property : Span → Prop) (info : ErrorInfo) : Prop :=
  info.errorCode = .invalidDsl ∧ ∃ span, info.span = some span ∧ property span

namespace Tokenizer

variable {source : StdString} {t t' : Tokenizer D}

/-- The tokenizer reads this source, and counts its position. -/
structure PlacedIn (source : StdString) (t : Tokenizer D) : Prop where
  source_eq : t.source = source
  inside : t.pos ≤ source.length
  here : t.here = positionAfter (source.take t.pos)

theorem PlacedIn.pointsInto (h : t.PlacedIn source) : PointsInto source t.here :=
  ⟨_, List.take_prefix _ _, h.here⟩

/-- The source is what has been read and what has not. -/
theorem PlacedIn.split (h : t.PlacedIn source) : source = source.take t.pos ++ t.rest := by
  rw [rest, h.source_eq, List.take_append_drop]

theorem PlacedIn.advance (h : t.PlacedIn source) (hpeek : t.peek ≠ nul) :
    t.advance.PlacedIn source := by
  cases hrest : t.rest with
  | nil => exact absurd (peek_of_rest hrest) hpeek
  | cons c tail =>
      have hlength : t.pos < source.length := by
        have hdrop := congrArg List.length hrest
        rw [rest, h.source_eq, List.length_drop, List.length_cons] at hdrop
        omega
      have htake : source.take (t.pos + 1) = source.take t.pos ++ [c] := by
        have hget : source[t.pos]? = some c := by
          rw [← List.head?_drop, ← h.source_eq]
          show t.rest.head? = some c
          rw [hrest]
          rfl
        rw [List.take_add_one, hget]
        rfl
      have hc : t.peek = c := peek_of_rest hrest
      refine ⟨h.source_eq, hlength, ?_⟩
      show (if t.peek = '\n' then _ else _) = positionAfter (source.take (t.pos + 1))
      rw [htake, positionAfter_concat, moveOver, hc, h.here]

theorem PlacedIn.advanceWhile {p : Char → Bool} (hp : p nul = false) (h : t.PlacedIn source)
    (fuel : Nat) : (advanceWhile p fuel t).PlacedIn source := by
  induction fuel generalizing t with
  | zero => exact h
  | succ fuel ih =>
      rw [Tokenizer.advanceWhile]
      by_cases hpeek : p t.peek = true
      · rw [if_pos hpeek]
        exact ih (h.advance (by rintro hnul; rw [hnul, hp] at hpeek; cases hpeek))
      · rw [if_neg hpeek]
        exact h

@[simp] theorem advance_tokens (t : Tokenizer D) : t.advance.tokens = t.tokens := rfl

@[simp] theorem advanceWhile_tokens (p : Char → Bool) (fuel : Nat) (t : Tokenizer D) :
    (advanceWhile p fuel t).tokens = t.tokens := by
  induction fuel generalizing t with
  | zero => rfl
  | succ fuel ih =>
      rw [Tokenizer.advanceWhile]
      split
      · exact ih _
      · rfl

/-- What one round makes of the position: the next one and, for a new token, its span, or an error at
a place in the source. -/
def Places (source : StdString) (t : Tokenizer D) : Result (Tokenizer D) → Prop
  | .ok t' => t'.PlacedIn source ∧ ∀ token, t'.tokens = t.tokens ++ [token] →
      token.span = if token.kind = .nodeRef then t.here else t'.here
  | .error info => Blames (PointsInto source) info

theorem Places.ite {condition : Prop} [Decidable condition] {a b : Result (Tokenizer D)}
    (ha : condition → Places source t a) (hb : ¬ condition → Places source t b) :
    Places source t (if condition then a else b) := by
  by_cases h : condition
  · rw [if_pos h]
    exact ha h
  · rw [if_neg h]
    exact hb h

theorem PlacedIn.reports (h : t'.PlacedIn source) (message : String) :
    Places source t (.error (buildErrorInfo .invalidDsl message t'.here)) :=
  ⟨rfl, t'.here, rfl, h.pointsInto⟩

theorem PlacedIn.matchChar (h : t.PlacedIn source) {c : Char} (hc : c ≠ nul) :
    (t.matchChar c).2.PlacedIn source ∧ (t.matchChar c).2.tokens = t.tokens := by
  unfold Tokenizer.matchChar
  by_cases hpeek : t.peek = c
  · rw [if_neg (not_not.mpr hpeek)]
    exact ⟨h.advance (hpeek ▸ hc), rfl⟩
  · rw [if_pos hpeek]
    exact ⟨h, rfl⟩

variable [Double D]

/-- A token that is pushed at the position reached. -/
theorem PlacedIn.places (h : t'.PlacedIn source) (htokens : t'.tokens = t.tokens) {kind : TokenKind}
    (hkind : kind ≠ .nodeRef) (lexeme : StdString) (number : D) :
    Places source t (.ok (t'.push kind lexeme t'.here number)) := by
  refine ⟨⟨h.source_eq, h.inside, h.here⟩, fun token htoken => ?_⟩
  have hlast : [⟨kind, lexeme, t'.here, number⟩] = [token] := by
    apply List.append_cancel_left
    rw [← htoken, push, htokens]
  cases hlast
  exact (if_neg hkind).symm

theorem places_add (h : t'.PlacedIn source) (htokens : t'.tokens = t.tokens) {kind : TokenKind}
    (hkind : kind ≠ .nodeRef) : Places source t (.ok (t'.add kind)) :=
  h.places htokens hkind _ _

theorem places_addOrEqual (h : t'.PlacedIn source) (htokens : t'.tokens = t.tokens)
    {one two : TokenKind} (hone : one ≠ .nodeRef) (htwo : two ≠ .nodeRef) (lexeme : StdString) :
    Places source t (.ok (t'.addOrEqual two lexeme one)) := by
  obtain ⟨hplaced, hsame⟩ := h.matchChar (c := '=') (by decide)
  rw [addOrEqual]
  cases hmatch : t'.matchChar '=' with
  | mk found t'' =>
      rw [hmatch] at hplaced hsame
      cases found
      · exact places_add hplaced (hsame.trans htokens) hone
      · exact hplaced.places (hsame.trans htokens) htwo _ _

theorem places_addDouble (h : t'.PlacedIn source) (htokens : t'.tokens = t.tokens) {second : Char}
    (hsecond : second ≠ nul) {kind : TokenKind} (hkind : kind ≠ .nodeRef) (lexeme : StdString)
    (message : String) : Places source t (t'.addDouble second kind lexeme message) := by
  obtain ⟨hplaced, hsame⟩ := h.matchChar hsecond
  rw [addDouble]
  cases hmatch : t'.matchChar second with
  | mk found t'' =>
      rw [hmatch] at hplaced hsame
      cases found
      · exact hplaced.reports message
      · exact hplaced.places (hsame.trans htokens) hkind _ _

theorem places_number (h : t.PlacedIn source) : Places source t (.ok t.number) := by
  have hwhole := h.advanceWhile (p := isDigit) (by decide) t.left
  rw [number]
  dsimp only
  by_cases hpoint : (Tokenizer.advanceWhile isDigit t.left t).peek = '.' ∧
      isDigit ((Tokenizer.advanceWhile isDigit t.left t).peek 1) = true
  · rw [if_pos hpoint]
    have hfraction := (hwhole.advance (by rw [hpoint.1]; decide)).advanceWhile (p := isDigit)
      (by decide) (Tokenizer.advanceWhile isDigit t.left t).advance.left
    exact hfraction.places (by simp) (by simp) _ _
  · rw [if_neg hpoint]
    exact hwhole.places (by simp) (by simp) _ _

theorem places_identifierOrKeyword (h : t.PlacedIn source) :
    Places source t (.ok t.identifierOrKeyword) := by
  have hword := h.advanceWhile (p := isReferenceChar) (by decide) t.left
  rw [identifierOrKeyword]
  split
  · exact hword.places (by simp) (by simp) _ _
  · exact hword.places (by simp) (by simp) _ _

/-- The span of a reference is the position in front of it. -/
theorem places_nodeReference (h : t.PlacedIn source) (hpeek : t.peek ≠ nul) :
    Places source t t.nodeReference := by
  have hname := (h.advance hpeek).advanceWhile (p := isReferenceChar) (by decide) t.advance.left
  rw [nodeReference]
  refine .ite (fun _ => hname.reports _) fun hclosing => ?_
  have hend := hname.advance (by rw [not_not.mp hclosing]; decide)
  refine ⟨⟨hend.source_eq, hend.inside, hend.here⟩, fun token htoken => ?_⟩
  simp only [push, advance_tokens, advanceWhile_tokens] at htoken
  cases List.append_cancel_left htoken
  exact (if_pos rfl).symm

/-- **One round**, by the cases of the `switch`. -/
theorem places_scan (h : t.PlacedIn source) (hpeek : t.peek ≠ nul) : Places source t t.scan := by
  have hnext := h.advance hpeek
  have htokens : t.advance.tokens = t.tokens := rfl
  rw [scan]
  refine .ite (fun _ => ⟨hnext, fun token htoken => ?_⟩) fun hspace => ?_
  · -- A blank makes no token.
    have hlength := congrArg List.length htoken
    simp at hlength
  have hunread : t.advance.unread = t := unread_advance fun hline => hspace (by rw [hline]; decide)
  iterate 10 refine .ite (fun _ => places_add hnext htokens (by simp)) fun _ => ?_
  refine .ite (fun _ => places_addOrEqual hnext htokens (by simp) (by simp) _) fun _ => ?_
  refine .ite (fun _ => ?_) fun _ => ?_
  · obtain ⟨hplaced, hsame⟩ := hnext.matchChar (c := '=') (by decide)
    cases hmatch : t.advance.matchChar '=' with
    | mk found t'' =>
        rw [hmatch] at hplaced hsame
        have htokens' : t''.tokens = t.tokens := hsame
        cases found
        · refine .ite (fun _ => ?_) fun _ => places_add hplaced htokens' (by simp)
          have hsame'' : t'' = t.advance := by
            rw [matchChar] at hmatch
            split at hmatch <;> cases hmatch
            rfl
          rw [hsame'', hunread]
          exact places_nodeReference h hpeek
        · exact hplaced.places htokens' (by simp) _ _
  refine .ite (fun _ => places_addOrEqual hnext htokens (by simp) (by simp) _) fun _ => ?_
  iterate 3
    refine .ite (fun _ => places_addDouble hnext htokens (by decide) (by simp) _ _) fun _ => ?_
  refine .ite (fun _ => hnext.reports _) fun _ => ?_
  rw [hunread]
  refine .ite (fun _ => places_number h) fun _ => ?_
  exact .ite (fun _ => places_identifierOrKeyword h) fun _ => hnext.reports _

/-- A round lays out its token, or moves over a blank. -/
theorem laid_of_scan (h : t.PlacedIn source) (hpeek : t.peek ≠ nul) (hscan : t.scan = .ok t') :
    t'.PlacedIn source ∧ ∃ new, t'.tokens = t.tokens ++ new ∧ ∀ tokens,
      Laid (source.take t'.pos) t'.rest tokens → Laid (source.take t.pos) t.rest (new ++ tokens) := by
  have hplaces := places_scan h hpeek
  rw [hscan] at hplaces
  obtain ⟨hplaced, hspan⟩ := hplaces
  -- The text that the round has read follows what had been read before.
  have hread {word : StdString} (hrest : t.rest = word ++ t'.rest) :
      source.take t'.pos = source.take t.pos ++ word := by
    apply List.append_cancel_right
    calc source.take t'.pos ++ t'.rest = source := hplaced.split.symm
      _ = source.take t.pos ++ t.rest := h.split
      _ = source.take t.pos ++ word ++ t'.rest := by rw [hrest, List.append_assoc]
  refine ⟨hplaced, ?_⟩
  cases scanned_of_scan hpeek hscan with
  | blank c hspace hrest hsame =>
      refine ⟨[], by rw [hsame, List.append_nil], fun tokens hlaid => ?_⟩
      rw [hrest]
      have hpos : source.take t'.pos = source.take t.pos ++ [c] := hread hrest
      exact .blank c hspace (hpos ▸ hlaid)
  | lexeme lexeme span hrest hnew hends =>
      refine ⟨_, hnew, fun tokens hlaid => ?_⟩
      have htext : (lexeme.token span : Token D).text = lexeme.text := lexeme.text_token span
      rw [hrest, ← htext]
      refine .token _ ?_ ?_
      · rw [hspan _ hnew, htext, ← hread hrest, h.here, hplaced.here]
        split <;> rfl
      · rw [htext, ← hread hrest]
        exact hlaid

/-- **All rounds** lay out the tokens, and an error points into the source. -/
theorem laid_of_scanAll (fuel : Nat) (h : t.PlacedIn source) :
    match scanAll fuel t with
    | .ok t' => t'.PlacedIn source ∧ ∃ new, t'.tokens = t.tokens ++ new ∧ ∀ tokens,
        Laid (source.take t'.pos) t'.rest tokens → Laid (source.take t.pos) t.rest (new ++ tokens)
    | .error info => Blames (PointsInto source) info := by
  induction fuel generalizing t with
  | zero => exact ⟨h, [], (List.append_nil _).symm, fun _ hlaid => hlaid⟩
  | succ fuel ih =>
      rw [scanAll]
      by_cases hnul : t.peek = nul
      · rw [if_pos hnul]
        exact ⟨h, [], (List.append_nil _).symm, fun _ hlaid => hlaid⟩
      rw [if_neg hnul]
      cases hscan : t.scan with
      | error info =>
          have hplaces := places_scan h hnul
          rw [hscan] at hplaces
          exact hplaces
      | ok t₁ =>
          obtain ⟨hplaced, new, hnew, hlaid⟩ := laid_of_scan h hnul hscan
          have hrest := ih hplaced
          dsimp only
          cases hrun : scanAll fuel t₁ with
          | error info =>
              rw [hrun] at hrest
              exact hrest
          | ok t' =>
              rw [hrun] at hrest
              obtain ⟨hplaced', new', hnew', hlaid'⟩ := hrest
              refine ⟨hplaced', new ++ new', by rw [hnew', hnew, List.append_assoc], ?_⟩
              intro tokens htokens
              rw [List.append_assoc]
              exact hlaid _ (hlaid' tokens htokens)

end Tokenizer

theorem placedIn_start (source : StdString) :
    ({ source := source } : Tokenizer D).PlacedIn source :=
  ⟨rfl, Nat.zero_le _, rfl⟩

variable [Double D]

/-- The tokens of a formula are laid out in its source. -/
theorem laid_of_tokenize {source : StdString} {tokens : List (Token D)}
    (h : tokenize source = .ok tokens) : Laid [] source tokens := by
  have hscan := Tokenizer.laid_of_scanAll source.length (placedIn_start (D := D) source)
  rw [tokenize] at h
  cases hrun : Tokenizer.scanAll source.length ({ source := source } : Tokenizer D) with
  | error info => rw [hrun] at h; cases h
  | ok t =>
      rw [hrun] at h hscan
      obtain ⟨hplaced, new, hnew, hlaid⟩ := hscan
      obtain rfl := Except.ok.inj h
      rw [Tokenizer.push, hnew]
      have hend : t.here = positionAfter (source.take t.pos ++ []) := by
        rw [List.append_nil]
        exact hplaced.here
      exact hlaid _ (.token ⟨.endOfFile, [], t.here, Double.zero⟩ hend .done)

theorem blames_of_tokenize {source : StdString} {info : ErrorInfo}
    (h : (tokenize source : Result (List (Token D))) = .error info) :
    Blames (PointsInto source) info := by
  have hscan := Tokenizer.laid_of_scanAll source.length (placedIn_start (D := D) source)
  rw [tokenize] at h
  cases hrun : Tokenizer.scanAll source.length ({ source := source } : Tokenizer D) with
  | error info' =>
      rw [hrun] at h hscan
      obtain rfl := Except.error.inj h
      exact hscan
  | ok t => rw [hrun] at h; cases h

end StatForge.Dsl
