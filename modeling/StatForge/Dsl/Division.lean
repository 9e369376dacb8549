import StatForge.Dsl.Folding

/-!
# Division by a constant zero

`foldConstants` refuses a division by zero where both operands have become literals, and nowhere
else.  A zero divisor under a dividend that reads a node stays in the tree.

* `ne_zero_of_foldConstants` — what the check establishes.
* `parse_keeps_no_zero_divisor_iff` — the folded tree has no division by the literal zero exactly if
  no surviving division of a non-constant has a constant divisor of value zero.
* `zero_divisor_escapes` — `<a> / 0` is accepted with its divisor.
-/

namespace StatForge.Dsl

open ExpressionTree ExceptBind StatForge.Dsl.Parser

variable {D : Type} [Double D]

namespace ExpressionTree

/-- A division whose right operand is the literal zero. -/
def dividesByZeroLiteral : ExpressionTree D → Bool
  | .binary op _ rhs _ => op = .slash && rhs.asLiteral.any (Double.eq · Double.zero)
  | _ => false

/-- A division of a non-constant by a constant subexpression of value zero. -/
def escapesZeroCheck : ExpressionTree D → Bool
  | .binary op lhs rhs _ =>
      op = .slash && lhs.constantValue.isNone && rhs.constantValue.any (Double.eq · Double.zero)
  | _ => false

end ExpressionTree

/-- A division of constants can be folded only if the divisor is not zero. -/
theorem ne_zero_of_foldConstants {lhs rhs e' : ExpressionTree D} {span : Span} {l r : D}
    (h : foldConstants (.binary .slash lhs rhs span) = .ok e') (hl : lhs.constantValue = some l)
    (hr : rhs.constantValue = some r) : Double.eq r Double.zero = false := by
  rw [foldConstants, bind_eq_ok] at h
  obtain ⟨lhs', hlhs, h⟩ := h
  rw [bind_eq_ok] at h
  obtain ⟨rhs', hrhs, h⟩ := h
  -- Both operands have become literals, so the check applies.
  rw [← asLiteral_of_foldConstants hlhs, asLiteral_eq_some] at hl
  rw [← asLiteral_of_foldConstants hrhs, asLiteral_eq_some] at hr
  obtain ⟨span', rfl⟩ := hl
  obtain ⟨span'', rfl⟩ := hr
  by_contra hzero
  rw [Bool.not_eq_false] at hzero
  simp [hzero] at h

theorem foldTest_dividesByZeroLiteral :
    FoldTest (D := D) (fun e => !e.dividesByZeroLiteral) fun e => e.escapesZeroCheck = false where
  literal _ _ := rfl
  constant {e _ _} _ hvalue := by
    cases e with
    | binary op lhs rhs span =>
        obtain ⟨l, hl, -⟩ := Option.bind_eq_some_iff.mp hvalue
        simp [escapesZeroCheck, hl]
    | _ => rfl
  choice _ _ _ _ _ := rfl
  kept {e e'} h hkept := by
    cases hkept with
    | @binary lhs lhs' rhs rhs' op span hlhs hrhs =>
        simp only [dividesByZeroLiteral, escapesZeroCheck, asLiteral_of_foldConstants hrhs]
        cases hl : lhs.constantValue with
        | none => simp [imp_iff_not_or]
        | some l =>
            -- Under a constant dividend the folder has refused a zero divisor.
            cases hr : rhs.constantValue with
            | none => simp
            | some r =>
                by_cases hop : op = .slash
                · subst hop
                  simp [ne_zero_of_foldConstants h hl hr]
                · simp [hop]
    | _ => simp [dividesByZeroLiteral, escapesZeroCheck]

/-- **Which zero divisors remain.**  A formula that parses with folding parses without; and the folded
tree has no division by the literal zero exactly if, outside excluded branches, no division of a
non-constant has a constant subexpression of value zero as its divisor. -/
theorem parse_keeps_no_zero_divisor_iff {tokens : List (Token D)} {e' : ExpressionTree D}
    (hparse : parse tokens = .ok e') :
    ∃ e, parse tokens false = .ok e ∧
      (e'.all (fun node => !node.dividesByZeroLiteral) = true ↔
        ∀ part ∈ e.survivors, part.escapesZeroCheck = false) := by
  obtain ⟨e, hunfolded, hfold⟩ := parse_folded.mp hparse
  exact ⟨e, hunfolded, foldTest_dividesByZeroLiteral.all_iff hfold⟩

section Instances

/-- The text `<a> / 0` is accepted, and its tree divides by the literal zero. -/
theorem zero_divisor_escapes : ∃ (tokens : List (Token NanRat)) (e' : ExpressionTree NanRat),
    tokenize "<a> / 0".toList = .ok tokens ∧ parse tokens = .ok e' ∧
      e'.all (fun node => !node.dividesByZeroLiteral) = false :=
  ⟨_, _, rfl, rfl, by decide +kernel⟩

/-- The tokens of `<a> / (2 - 1)`. -/
private def divisionTokens : List (Token NanRat) :=
  [⟨.nodeRef, "a".toList, {}, Double.zero⟩, ⟨.slash, [], {}, Double.zero⟩,
    ⟨.leftParen, [], {}, Double.zero⟩, ⟨.number, [], {}, Double.ofNat 2⟩,
    ⟨.minus, [], {}, Double.zero⟩, ⟨.number, [], {}, Double.ofNat 1⟩,
    ⟨.rightParen, [], {}, Double.zero⟩, ⟨.endOfFile, [], {}, Double.zero⟩]

/-- In `<a> / (2 - 1)` the divisor folds to `1`. -/
theorem nonzero_divisor_folds : ∃ e', parse divisionTokens = .ok e' ∧
    e'.all (fun node => !node.dividesByZeroLiteral) = true := by
  have hone : Double.eq (Double.sub (Double.ofNat 2) (Double.ofNat 1) : NanRat) Double.zero = false := by
    decide +kernel
  have hparse : parse divisionTokens = .ok (.binary .slash (.ref "a".toList {})
      (.literal (Double.sub (Double.ofNat 2) (Double.ofNat 1)) {}) {}) := rfl
  have htree : parse divisionTokens false = .ok (.binary .slash (.ref "a".toList {})
      (.binary .minus (.literal (Double.ofNat 2) {}) (.literal (Double.ofNat 1) {}) {}) {}) := rfl
  obtain ⟨e, hunfolded, hiff⟩ := parse_keeps_no_zero_divisor_iff hparse
  obtain rfl := Except.ok.inj (hunfolded.symm.trans htree)
  refine ⟨_, hparse, hiff.mpr ?_⟩
  simp [survivors, escapesZeroCheck, constantValue, foldBinary, hone]

end Instances

end StatForge.Dsl
