import StatForge.Dsl.Folding
import StatForge.Dsl.Writing
import StatForge.Lib.SExpr

/-!
# The dump of a tree

`dumpSExpr` of `dsl/ast.cpp` writes a tree as an S-expression, without positions and with its literals
as the stream prints them.  Trees of the parser are told apart by their dumps.

* `dump`, `dumpSExpr` — the functions of the source.
* `toSExpr`, `ofSExpr` — the S-expression of a tree, and how a tree is read back.
* `Spelled` — the names and operators for which the reading works; the parser builds nothing else.
* `dumpSExpr_eq_iff` — when two dumps are the same.
-/

namespace StatForge.Dsl

open ExpressionTree

/-- `operator<<` of a stream for `double`.  The standard leaves open what it writes for a value, but it
writes something, of letters, digits, signs and points. -/
structure Ostream (D : Type) where
  print : D → StdString
  print_ne_nil : ∀ value, print value ≠ []
  print_chars : ∀ value, ∀ c ∈ print value, isAlnum c = true ∨ c ∈ ['+', '-', '.']

def opName : TokenKind → StdString
  | .plus => "+".toList
  | .minus => "-".toList
  | .star => "*".toList
  | .slash => "/".toList
  | .caret => "^".toList
  | .less => "<".toList
  | .lessEqual => "<=".toList
  | .greater => ">".toList
  | .greaterEqual => ">=".toList
  | .equalEqual => "==".toList
  | .bangEqual => "!=".toList
  | .andAnd => "&&".toList
  | .orOr => "||".toList
  | .bang => "!".toList
  | _ => "?".toList

variable {D : Type} (stream : Ostream D)

mutual
/-- The tree, written behind what the stream has already. -/
def dump : ExpressionTree D → StdString → StdString
  | .literal value _, out => out ++ stream.print value
  | .ref name _, out => out ++ ['<'] ++ name ++ ['>']
  | .unary op rhs _, out =>
      let out := out ++ ['('] ++ opName op ++ [' ']
      let out := dump rhs out
      out ++ [')']
  | .binary op lhs rhs _, out =>
      let out := out ++ ['('] ++ opName op ++ [' ']
      let out := dump lhs out
      let out := out ++ [' ']
      let out := dump rhs out
      out ++ [')']
  | .ternary cond thenExpr elseExpr _, out =>
      let out := out ++ "(? ".toList
      let out := dump cond out
      let out := out ++ [' ']
      let out := dump thenExpr out
      let out := out ++ [' ']
      let out := dump elseExpr out
      out ++ [')']
  | .call name args _, out =>
      let out := out ++ "(call ".toList ++ name
      let out := dumpArgs args out
      out ++ [')']

/-- The loop over the arguments. -/
def dumpArgs : List (ExpressionTree D) → StdString → StdString
  | [], out => out
  | arg :: args, out =>
      let out := out ++ [' ']
      let out := dump arg out
      dumpArgs args out
end

def dumpSExpr (expression : ExpressionTree D) : StdString := dump stream expression []

/-! ### The dump as an S-expression -/

def parentheses : Delimiters Char where
  opening := '('
  closing := ')'
  blank := ' '
  closing_ne_blank := by decide

mutual
/-- What is dumped: a leaf as a word, every other node with its operator or with `?` or `call`. -/
def toSExpr (print : D → StdString) : ExpressionTree D → SExpr Char
  | .literal value _ => .word (print value)
  | .ref name _ => .word ('<' :: (name ++ ['>']))
  | .unary op rhs _ => .node (opName op) [toSExpr print rhs]
  | .binary op lhs rhs _ => .node (opName op) [toSExpr print lhs, toSExpr print rhs]
  | .ternary cond thenExpr elseExpr _ =>
      .node "?".toList [toSExpr print cond, toSExpr print thenExpr, toSExpr print elseExpr]
  | .call name args _ => .node "call".toList (.word name :: toSExprs print args)

def toSExprs (print : D → StdString) : List (ExpressionTree D) → List (SExpr Char)
  | [] => []
  | arg :: args => toSExpr print arg :: toSExprs print args
end

theorem toSExprs_eq_map (print : D → StdString) (args : List (ExpressionTree D)) :
    toSExprs print args = args.map (toSExpr print) := by
  induction args with
  | nil => rfl
  | cons arg args ih => rw [toSExprs, ih, List.map_cons]

/-- The loop writes the items of the call. -/
theorem dumpArgs_eq {args : List (ExpressionTree D)}
    (h : ∀ arg ∈ args, ∀ out,
      dump stream arg out = out ++ (toSExpr stream.print arg).render parentheses)
    (out : StdString) : dumpArgs stream args out ++ [')'] =
      out ++ SExpr.renderItems parentheses (toSExprs stream.print args) := by
  induction args generalizing out with
  | nil => rfl
  | cons arg args ih =>
      rw [dumpArgs, ih fun arg harg => h arg (List.mem_cons_of_mem _ harg), h arg List.mem_cons_self]
      simp [toSExprs, SExpr.renderItems, parentheses]

/-- **A dump is a rendering**, behind what the stream has already. -/
theorem dump_eq (e : ExpressionTree D) (out : StdString) :
    dump stream e out = out ++ (toSExpr stream.print e).render parentheses := by
  induction e generalizing out with
  | literal value span => rfl
  | ref name span => simp [dump, toSExpr, SExpr.render]
  | unary op rhs span ih =>
      simp [dump, ih, toSExpr, SExpr.render, SExpr.renderItems, parentheses]
  | binary op lhs rhs span ihl ihr =>
      simp [dump, ihl, ihr, toSExpr, SExpr.render, SExpr.renderItems, parentheses]
  | ternary cond thenExpr elseExpr span ihc iht ihe =>
      simp [dump, ihc, iht, ihe, toSExpr, SExpr.render, SExpr.renderItems, parentheses]
  | call name args span ih =>
      rw [dump, dumpArgs_eq stream ih]
      simp [toSExpr, SExpr.render, SExpr.renderItems, parentheses]

theorem dumpSExpr_eq_render (e : ExpressionTree D) :
    dumpSExpr stream e = (toSExpr stream.print e).render parentheses :=
  dump_eq stream e []

/-! ### Reading a dump back -/

namespace ExpressionTree

variable {E : Type}

mutual
/-- The tree with other literals. -/
def mapLiteral (f : D → E) : ExpressionTree D → ExpressionTree E
  | .literal value span => .literal (f value) span
  | .ref name span => .ref name span
  | .unary op rhs span => .unary op (rhs.mapLiteral f) span
  | .binary op lhs rhs span => .binary op (lhs.mapLiteral f) (rhs.mapLiteral f) span
  | .ternary cond thenExpr elseExpr span =>
      .ternary (cond.mapLiteral f) (thenExpr.mapLiteral f) (elseExpr.mapLiteral f) span
  | .call name args span => .call name (mapLiterals f args) span

def mapLiterals (f : D → E) : List (ExpressionTree D) → List (ExpressionTree E)
  | [] => []
  | arg :: args => arg.mapLiteral f :: mapLiterals f args
end

theorem mapLiterals_eq_map {f : D → E} (args : List (ExpressionTree D)) :
    mapLiterals f args = args.map (mapLiteral f) := by
  induction args with
  | nil => rfl
  | cons arg args ih => rw [mapLiterals, ih, List.map_cons]

/-- A name that is a word, and not one of a reference. -/
def IsCallName (name : StdString) : Prop :=
  parentheses.Free name ∧ name ≠ [] ∧ name.head? ≠ some '<'

mutual
/-- Names of characters that words may have, and operators with a name of their own. -/
def Spelled : ExpressionTree D → Prop
  | .literal _ _ => True
  | .ref name _ => parentheses.Free name
  | .unary op rhs _ => opName op ≠ "?".toList ∧ rhs.Spelled
  | .binary op lhs rhs _ => opName op ≠ "?".toList ∧ lhs.Spelled ∧ rhs.Spelled
  | .ternary cond thenExpr elseExpr _ => cond.Spelled ∧ thenExpr.Spelled ∧ elseExpr.Spelled
  | .call name args _ => IsCallName name ∧ SpelledArgs args

def SpelledArgs : List (ExpressionTree D) → Prop
  | [] => True
  | arg :: args => arg.Spelled ∧ SpelledArgs args
end

theorem spelledArgs_iff {args : List (ExpressionTree D)} :
    SpelledArgs args ↔ ∀ arg ∈ args, arg.Spelled := by
  induction args with
  | nil => simp [SpelledArgs]
  | cons arg args ih => simp [SpelledArgs, ih]

end ExpressionTree

/-- The operator with this name. -/
def opOfName (name : StdString) : Option TokenKind :=
  (symbols.find? fun symbol => symbol.2 = name).map Prod.fst

theorem opOfName_opName {op : TokenKind} (h : opName op ≠ "?".toList) :
    opOfName (opName op) = some op := by
  cases op <;> first | rfl | exact absurd rfl h

/-- The node with this head and these children. -/
def ofNode (head : StdString) (children : List (ExpressionTree StdString)) :
    Option (ExpressionTree StdString) :=
  if head = "call".toList then
    match children with
    | .literal name _ :: args => some (.call name args {})
    | _ => none
  else
    match children with
    | [rhs] => (opOfName head).map fun op => .unary op rhs {}
    | [lhs, rhs] => (opOfName head).map fun op => .binary op lhs rhs {}
    | [cond, thenExpr, elseExpr] => some (.ternary cond thenExpr elseExpr {})
    | _ => none

mutual
/-- The tree of an S-expression, with its literals as they are printed. -/
def ofSExpr : SExpr Char → Option (ExpressionTree StdString)
  | .word text =>
      if text.head? = some '<' then some (.ref text.tail.dropLast {}) else some (.literal text {})
  | .node head items => do
      let children ← ofSExprs items
      ofNode head children

def ofSExprs : List (SExpr Char) → Option (List (ExpressionTree StdString))
  | [] => some []
  | item :: items => do
      let child ← ofSExpr item
      let children ← ofSExprs items
      some (child :: children)
end

/-- What a printed number consists of is free of parentheses and blanks, and no `<` starts it. -/
theorem Ostream.free_print (value : D) : parentheses.Free (stream.print value) := by
  intro c hc
  rcases stream.print_chars value c hc with halnum | hsign
  · refine ⟨?_, ?_, ?_⟩ <;> exact ne_of_test halnum (by decide)
  · simp only [List.mem_cons, List.not_mem_nil, or_false] at hsign
    rcases hsign with rfl | rfl | rfl <;> decide

theorem Ostream.head_print (value : D) : (stream.print value).head? ≠ some '<' := by
  intro hhead
  have hmem : '<' ∈ stream.print value := List.mem_of_mem_head? hhead
  exact absurd (stream.print_chars value _ hmem) (by decide)

theorem opName_ne_call (op : TokenKind) : opName op ≠ "call".toList := by
  cases op <;> decide

theorem free_opName (op : TokenKind) : parentheses.Free (opName op) := by
  cases op <;> simp [opName, Delimiters.Free, parentheses]

theorem ofNode_unary {op : TokenKind} (h : opName op ≠ "?".toList)
    (rhs : ExpressionTree StdString) : ofNode (opName op) [rhs] = some (.unary op rhs {}) := by
  simp only [ofNode, opName_ne_call, if_false, opOfName_opName h, Option.map_some]

theorem ofNode_binary {op : TokenKind} (h : opName op ≠ "?".toList)
    (lhs rhs : ExpressionTree StdString) :
    ofNode (opName op) [lhs, rhs] = some (.binary op lhs rhs {}) := by
  simp only [ofNode, opName_ne_call, if_false, opOfName_opName h, Option.map_some]

theorem ofSExpr_word {text : StdString} (h : text.head? ≠ some '<') :
    ofSExpr (.word text) = some (.literal text {}) := by
  rw [ofSExpr, if_neg h]

theorem ofSExprs_toSExprs {args : List (ExpressionTree D)}
    (h : ∀ arg ∈ args, ofSExpr (toSExpr stream.print arg) =
      some ((arg.mapLiteral stream.print).mapSpan forget)) :
    ofSExprs (toSExprs stream.print args) =
      some (mapSpanArgs forget (mapLiterals stream.print args)) := by
  induction args with
  | nil => rfl
  | cons arg args ih =>
      rw [toSExprs, ofSExprs, h arg List.mem_cons_self,
        ih fun arg harg => h arg (List.mem_cons_of_mem _ harg)]
      rfl

/-- **A dump can be read back**, up to positions and to what is not printed of a literal. -/
theorem ofSExpr_toSExpr {e : ExpressionTree D} (h : e.Spelled) :
    ofSExpr (toSExpr stream.print e) = some ((e.mapLiteral stream.print).mapSpan forget) := by
  induction e with
  | literal value span => exact ofSExpr_word (stream.head_print value)
  | ref name span => simp [toSExpr, ofSExpr, mapLiteral, ExpressionTree.mapSpan, forget]
  | unary op rhs span ih =>
      rw [toSExpr, ofSExpr, ofSExprs, ih h.2]
      exact ofNode_unary h.1 _
  | binary op lhs rhs span ihl ihr =>
      rw [toSExpr, ofSExpr, ofSExprs, ofSExprs, ihl h.2.1, ihr h.2.2]
      exact ofNode_binary h.1 _ _
  | ternary cond thenExpr elseExpr span ihc iht ihe =>
      rw [toSExpr, ofSExpr, ofSExprs, ofSExprs, ofSExprs, ihc h.1, iht h.2.1, ihe h.2.2]
      rfl
  | call name args span ih =>
      rw [Spelled, spelledArgs_iff] at h
      have hargs := ofSExprs_toSExprs stream fun arg harg => ih arg harg (h.2 arg harg)
      rw [toSExpr, ofSExpr, ofSExprs, ofSExpr_word h.1.2.2, hargs]
      rfl

/-! ### Dumps that are the same -/

/-- The arguments of a call as words and nodes. -/
theorem wellFormedItems_toSExprs {args : List (ExpressionTree D)}
    (h : ∀ arg ∈ args, (toSExpr stream.print arg).WellFormed parentheses) :
    SExpr.WellFormedItems parentheses (toSExprs stream.print args) := by
  induction args with
  | nil => exact trivial
  | cons arg args ih =>
      exact ⟨h arg List.mem_cons_self, ih fun arg harg => h arg (List.mem_cons_of_mem _ harg)⟩

theorem free_ref {name : StdString} (h : parentheses.Free name) :
    parentheses.Free ('<' :: (name ++ ['>'])) := by
  intro c hc
  simp only [List.mem_cons, List.mem_append, List.not_mem_nil, or_false] at hc
  rcases hc with rfl | hc | rfl
  · decide
  · exact h c hc
  · decide

theorem wellFormed_toSExpr {e : ExpressionTree D} (h : e.Spelled) :
    (toSExpr stream.print e).WellFormed parentheses := by
  induction e with
  | literal value span => exact ⟨stream.free_print value, stream.print_ne_nil value⟩
  | ref name span => exact ⟨free_ref h, List.cons_ne_nil _ _⟩
  | unary op rhs span ih => exact ⟨free_opName op, ih h.2, trivial⟩
  | binary op lhs rhs span ihl ihr => exact ⟨free_opName op, ihl h.2.1, ihr h.2.2, trivial⟩
  | ternary cond thenExpr elseExpr span ihc iht ihe =>
      exact ⟨by simp [Delimiters.Free, parentheses], ihc h.1, iht h.2.1, ihe h.2.2, trivial⟩
  | call name args span ih =>
      rw [Spelled, spelledArgs_iff] at h
      refine ⟨by simp [Delimiters.Free, parentheses], ⟨h.1.1, h.1.2.1⟩, ?_⟩
      exact wellFormedItems_toSExprs stream fun arg harg => ih arg harg (h.2 arg harg)

/-- What is dumped does not depend on positions, nor on more of a literal than is printed. -/
theorem toSExpr_printed (e : ExpressionTree D) :
    toSExpr id ((e.mapLiteral stream.print).mapSpan forget) = toSExpr stream.print e := by
  induction e with
  | literal value span => rfl
  | ref name span => rfl
  | unary op rhs span ih => simp only [mapLiteral, ExpressionTree.mapSpan, toSExpr, ih]
  | binary op lhs rhs span ihl ihr =>
      simp only [mapLiteral, ExpressionTree.mapSpan, toSExpr, ihl, ihr]
  | ternary cond thenExpr elseExpr span ihc iht ihe =>
      simp only [mapLiteral, ExpressionTree.mapSpan, toSExpr, ihc, iht, ihe]
  | call name args span ih =>
      simp only [mapLiteral, ExpressionTree.mapSpan, toSExpr, mapLiterals_eq_map,
        mapSpanArgs_eq_map, toSExprs_eq_map, List.map_map]
      have hargs : args.map (toSExpr id ∘ ExpressionTree.mapSpan forget ∘ mapLiteral stream.print) =
          args.map (toSExpr stream.print) := List.map_congr_left ih
      rw [hargs]

/-- The S-expression of a tree tells all of it that is printed, and nothing else. -/
theorem toSExpr_eq_iff {e e' : ExpressionTree D} (h : e.Spelled) (h' : e'.Spelled) :
    toSExpr stream.print e = toSExpr stream.print e' ↔
      (e.mapLiteral stream.print).mapSpan forget = (e'.mapLiteral stream.print).mapSpan forget := by
  constructor
  · intro hsame
    have hread := ofSExpr_toSExpr stream h
    rw [hsame, ofSExpr_toSExpr stream h'] at hread
    exact (Option.some.inj hread).symm
  · intro hsame
    rw [← toSExpr_printed stream e, hsame, toSExpr_printed]

/-- Two trees have the same dump if they are the same up to positions and printed literals. -/
theorem dumpSExpr_eq_iff {e e' : ExpressionTree D} (h : e.Spelled) (h' : e'.Spelled) :
    dumpSExpr stream e = dumpSExpr stream e' ↔
      (e.mapLiteral stream.print).mapSpan forget = (e'.mapLiteral stream.print).mapSpan forget := by
  rw [dumpSExpr_eq_render, dumpSExpr_eq_render, ← toSExpr_eq_iff stream h h']
  exact SExpr.render_injOn.eq_iff (wellFormed_toSExpr stream h) (wellFormed_toSExpr stream h')

/-! ### The trees of the parser -/

theorem free_of_isReferenceChar {text : StdString} (h : ∀ c ∈ text, isReferenceChar c = true) :
    parentheses.Free text := by
  intro c hc
  refine ⟨?_, ?_, ?_⟩ <;> exact ne_of_test (h c hc) (by decide)

theorem ReferenceName.free (word : ReferenceName) : parentheses.Free (word.first :: word.more) :=
  free_of_isReferenceChar (List.forall_mem_cons.mpr
    ⟨isReferenceChar_of_isAlpha word.isAlpha, word.isReferenceChar⟩)

theorem Identifier.isCallName (word : Identifier) : IsCallName (word.first :: word.more) := by
  have hfirst := isReferenceChar_of_starts word.starts
  refine ⟨?_, List.cons_ne_nil _ _, ?_⟩
  · exact free_of_isReferenceChar (List.forall_mem_cons.mpr ⟨hfirst, word.isReferenceChar⟩)
  · rw [List.head?_cons, Ne, Option.some.injEq]
    exact ne_of_test hfirst (by decide)

variable [Double D]

theorem ExpressionTree.Writable.spelled {e : ExpressionTree D} (h : e.Writable) : e.Spelled := by
  induction e with
  | literal value span => exact trivial
  | ref name span =>
      obtain ⟨word, rfl⟩ := h
      exact word.free
  | unary op rhs span ih => exact ⟨by rcases h.1 with rfl | rfl | rfl <;> decide, ih h.2⟩
  | binary op lhs rhs span ihl ihr =>
      refine ⟨?_, ihl h.2.1, ihr h.2.2⟩
      have hop := h.1
      cases op <;> first | decide | cases hop
  | ternary cond thenExpr elseExpr span ihc iht ihe => exact ⟨ihc h.1, iht h.2.1, ihe h.2.2⟩
  | call name args span ih =>
      rw [Writable, writableArgs_iff] at h
      obtain ⟨⟨word, rfl⟩, hargs⟩ := h
      rw [Spelled, spelledArgs_iff]
      exact ⟨word.isCallName, fun arg harg => ih arg harg (hargs arg harg)⟩

/-- Folding spells nothing new. -/
theorem spelled_of_foldConstants {e e' : ExpressionTree D} (hfold : Parser.foldConstants e = .ok e')
    (h : e.Spelled) : e'.Spelled := by
  induction e generalizing e' with
  | literal value span =>
      cases hfold
      exact h
  | ref name span =>
      cases hfold
      exact h
  | unary op rhs span ih =>
      obtain ⟨rhs', hrhs, rfl⟩ := foldConstants_unary hfold
      split
      · exact trivial
      · exact ⟨h.1, ih hrhs h.2⟩
  | binary op lhs rhs span ihl ihr =>
      obtain ⟨lhs', rhs', hlhs, hrhs, rfl⟩ := foldConstants_binary hfold
      split
      · exact trivial
      · exact ⟨h.1, ihl hlhs h.2.1, ihr hrhs h.2.2⟩
  | ternary cond thenExpr elseExpr span ihc iht ihe =>
      obtain ⟨cond', then', else', hcond, hthen, helse, rfl⟩ := foldConstants_ternary hfold
      split
      · split
        · exact iht hthen h.2.1
        · exact ihe helse h.2.2
      · exact ⟨ihc hcond h.1, iht hthen h.2.1, ihe helse h.2.2⟩
  | call name args span ih =>
      obtain ⟨args', hargs, rfl⟩ := foldConstants_call hfold
      rw [Spelled, spelledArgs_iff] at h ⊢
      refine ⟨h.1, fun arg' harg' => ?_⟩
      obtain ⟨arg, harg, hargFold⟩ := exists_left_of_forall₂ hargs harg'
      exact ih arg harg hargFold (h.2 arg harg)

/-- The parser builds spelled trees. -/
theorem spelled_of_parse {source : StdString} {tokens : List (Token D)} {fold : Bool}
    {e : ExpressionTree D} (htokenize : tokenize source = .ok tokens)
    (hparse : Parser.parse tokens fold = .ok e) : e.Spelled := by
  cases fold with
  | false => exact (writable_of_parse htokenize hparse).spelled
  | true =>
      obtain ⟨unfolded, hunfolded, hfold⟩ := Parser.parse_folded.mp hparse
      exact spelled_of_foldConstants hfold (writable_of_parse htokenize hunfolded).spelled

/-- **A dump tells a tree.**  The trees of two sources, folded or not, have the same dump exactly if
they are the same up to the positions of their nodes and up to literals that the stream prints alike. -/
theorem dumpSExpr_tells_trees_apart (stream : Ostream D) {source source' : StdString}
    {tokens tokens' : List (Token D)} {fold fold' : Bool} {e e' : ExpressionTree D}
    (htokenize : tokenize source = .ok tokens) (hparse : Parser.parse tokens fold = .ok e)
    (htokenize' : tokenize source' = .ok tokens') (hparse' : Parser.parse tokens' fold' = .ok e') :
    dumpSExpr stream e = dumpSExpr stream e' ↔
      (e.mapLiteral stream.print).mapSpan forget = (e'.mapLiteral stream.print).mapSpan forget :=
  dumpSExpr_eq_iff stream (spelled_of_parse htokenize hparse) (spelled_of_parse htokenize' hparse')

/-- A stream for numbers of one digit. -/
private def digitStream : Ostream NanRat where
  print
    | none => "nan".toList
    | some value => [Nat.digitChar (value.num.natAbs % 10)]
  print_ne_nil value := by cases value <;> simp
  print_chars value c hc := by
    have hdigits : ∀ n < 10, isAlnum (Nat.digitChar n) = true := by decide
    cases value with
    | none => exact Or.inl (List.all_eq_true.mp (by decide : "nan".toList.all isAlnum = true) c hc)
    | some value =>
        obtain rfl := List.mem_singleton.mp hc
        exact Or.inl (hdigits _ (Nat.mod_lt _ (by decide)))

private def two : NanRat := numberOf (.number, "2".toList)

/-- The tokens of `-2`. -/
private def bareTokens : List (Token NanRat) :=
  [⟨.minus, "-".toList, ⟨1, 2⟩, Double.zero⟩, ⟨.number, "2".toList, ⟨1, 3⟩, two⟩,
    ⟨.endOfFile, [], ⟨1, 3⟩, Double.zero⟩]

/-- The tokens of `(- 2)`, which is also how the tree is dumped. -/
private def bracketTokens : List (Token NanRat) :=
  [⟨.leftParen, "(".toList, ⟨1, 2⟩, Double.zero⟩, ⟨.minus, "-".toList, ⟨1, 3⟩, Double.zero⟩,
    ⟨.number, "2".toList, ⟨1, 5⟩, two⟩, ⟨.rightParen, ")".toList, ⟨1, 6⟩, Double.zero⟩,
    ⟨.endOfFile, [], ⟨1, 6⟩, Double.zero⟩]

/-- A sign with and without parentheses. -/
theorem signs_dump_alike : ∃ e e', Parser.parse bareTokens false = .ok e ∧
    Parser.parse bracketTokens false = .ok e' ∧
      dumpSExpr digitStream e = dumpSExpr digitStream e' := by
  have hbare : tokenize "-2".toList = .ok bareTokens := rfl
  have hbracket : tokenize "(- 2)".toList = .ok bracketTokens := rfl
  have he : Parser.parse bareTokens false =
      .ok (.unary .minus (.literal two ⟨1, 3⟩) ⟨1, 2⟩) := rfl
  have he' : Parser.parse bracketTokens false =
      .ok (.unary .minus (.literal two ⟨1, 5⟩) ⟨1, 3⟩) := rfl
  exact ⟨_, _, he, he', (dumpSExpr_tells_trees_apart digitStream hbare he hbracket he').mpr rfl⟩

end StatForge.Dsl
