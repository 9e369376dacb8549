import StatForge.Dsl.Folding

/-!
# The normal form that folding reaches

One pass of `foldConstants` leaves nothing to fold, and a tree with nothing to fold is left as it is.

* `all_normal_of_foldConstants` — no constant operation remains in a folded tree.
* `foldConstants_eq_self` — a tree without one is left as it is.
* `refs_subset_of_foldConstants` — folding adds no reference.
* `foldConstants_reaches_normal_form` — the three together.
-/

namespace StatForge.Dsl

open ExpressionTree ExceptBind StatForge.Dsl.Parser

variable {D : Type}

/-- The operators that are computed on two literals: `+`, `-`, `*`, `/` and `^`. -/
def isArithmetic : TokenKind → Bool
  | .plus | .minus | .star | .slash | .caret => true
  | _ => false

namespace ExpressionTree

/-- No unary over a literal, no arithmetic on two literals, and no ternary with a literal condition. -/
def normal : ExpressionTree D → Bool
  | .unary _ rhs _ => rhs.asLiteral.isNone
  | .binary op lhs rhs _ => !(isArithmetic op && lhs.asLiteral.isSome && rhs.asLiteral.isSome)
  | .ternary cond _ _ _ => cond.asLiteral.isNone
  | _ => true

end ExpressionTree

variable [Double D] {e e' : ExpressionTree D}

theorem isSome_foldBinary (op : TokenKind) (l r : D) : (foldBinary op l r).isSome = isArithmetic op := by
  cases op <;> rfl

theorem foldBinary_eq_none {op : TokenKind} (h : isArithmetic op = false) (l r : D) :
    foldBinary op l r = none := by
  rw [← Option.isNone_iff_eq_none, ← Option.not_isSome, isSome_foldBinary, h]
  rfl

/-! ### The folded tree is normal -/

theorem foldTest_normal : FoldTest (D := D) normal fun _ => True where
  literal _ _ := rfl
  constant _ _ := trivial
  choice _ _ _ _ _ := trivial
  kept {e e'} h hkept := by
    -- The root that stays is no literal, so the original has no constant value.
    have hvalue : e'.asLiteral = e.constantValue := asLiteral_of_foldConstants h
    refine iff_true_intro ?_
    cases hkept with
    | ref => rfl
    | @unary rhs rhs' op span hrhs =>
        rw [normal, asLiteral_of_foldConstants hrhs]
        cases hr : rhs.constantValue with
        | none => rfl
        | some r => simp [asLiteral, constantValue, hr] at hvalue
    | @binary lhs lhs' rhs rhs' op span hlhs hrhs =>
        rw [normal, asLiteral_of_foldConstants hlhs, asLiteral_of_foldConstants hrhs]
        cases hl : lhs.constantValue with
        | none => simp
        | some l =>
            cases hr : rhs.constantValue with
            | none => simp
            | some r =>
                have hnone : foldBinary op l r = none := by
                  simpa [asLiteral, constantValue, hl, hr] using hvalue.symm
                simp [← isSome_foldBinary op l r, hnone]
    | ternary span hcond _ _ hnone =>
        rw [normal, asLiteral_of_foldConstants hcond, hnone]
        rfl
    | call => rfl

/-- No constant operation remains in a folded tree. -/
theorem all_normal_of_foldConstants (h : foldConstants e = .ok e') : e'.all normal = true :=
  (foldTest_normal.all_iff h).mpr fun _ _ => trivial

/-! ### Normal trees stay as they are -/

theorem foldArguments_eq_self {args : List (ExpressionTree D)}
    (h : ∀ arg ∈ args, foldConstants arg = .ok arg) : foldArguments args = .ok args := by
  induction args with
  | nil => rfl
  | cons arg args ih =>
      rw [foldArguments, h arg List.mem_cons_self, ih fun arg harg => h arg (List.mem_cons_of_mem _ harg)]
      rfl

/-- Folding finds nothing to do in a normal tree. -/
theorem foldConstants_eq_self (h : e.all normal = true) : foldConstants e = .ok e := by
  induction e with
  | literal value span => rfl
  | ref name span => rfl
  | unary op rhs span ih =>
      simp only [all, Bool.and_eq_true] at h
      rw [foldConstants, ih h.2]
      have hnone : rhs.asLiteral = none := by simpa [normal] using h.1
      cases rhs with
      | literal value span' => cases hnone
      | _ => rfl
  | binary op lhs rhs span ih ih' =>
      simp only [all, Bool.and_eq_true] at h
      rw [foldConstants, ih h.1.2, ih' h.2]
      have hnormal := h.1.1
      cases lhs with
      | literal l span' =>
          cases rhs with
          | literal r span'' =>
              -- Two literals are left only under an operator that is not computed.
              have hop : isArithmetic op = false := by simpa [normal, asLiteral] using hnormal
              have hslash : op ≠ .slash := by
                intro hop'
                rw [hop'] at hop
                cases hop
              simp [bind, Except.bind, hslash, foldBinary_eq_none hop]
          | _ => rfl
      | _ => rfl
  | ternary cond thenExpr elseExpr span ih ih' ih'' =>
      simp only [all, Bool.and_eq_true] at h
      rw [foldConstants, ih h.1.1.2, ih' h.1.2, ih'' h.2]
      have hnone : cond.asLiteral = none := by simpa [normal] using h.1.1.1
      cases cond with
      | literal value span' => cases hnone
      | _ => rfl
  | call name args span ih =>
      simp only [all, Bool.and_eq_true, allArgs_eq_true] at h
      rw [foldConstants, foldArguments_eq_self fun arg harg => ih arg harg (h.2 arg harg)]
      rfl

/-! ### References -/

/-- The parts that survive read nothing that the tree does not read. -/
theorem refName_subset_refs {part : ExpressionTree D} (hpart : part ∈ e.survivors) :
    part.refName ⊆ e.refs := by
  have hsubset : part.refs ⊆ e.refs := by
    refine survivors_induction (fun inner => inner.refs ⊆ e.refs) ?_ (List.Subset.refl _) hpart
    intro inner child hinner hchild name hname
    refine hinner ((mem_refs_iff name inner).mpr (Or.inr ?_))
    exact mem_refsArgs.mpr ⟨child, children_of_survivingChildren hchild, hname⟩
  intro name hname
  exact hsubset ((mem_refs_iff name part).mpr (Or.inl hname))

/-- Folding adds no reference. -/
theorem refs_subset_of_foldConstants (h : foldConstants e = .ok e') : e'.refs ⊆ e.refs := by
  intro name hname
  obtain ⟨part, hpart, hname⟩ := (mem_refs_foldConstants_iff h).mp hname
  exact refName_subset_refs hpart hname

/-- **One pass reaches the normal form.**  A folded tree has no unary over a literal, no arithmetic on
two literals and no ternary with a literal condition; folding it once more changes nothing; and it
reads no node that the original tree does not read. -/
theorem foldConstants_reaches_normal_form (h : foldConstants e = .ok e') :
    e'.all normal = true ∧ foldConstants e' = .ok e' ∧ e'.refs ⊆ e.refs :=
  have hnormal := all_normal_of_foldConstants h
  ⟨hnormal, foldConstants_eq_self hnormal, refs_subset_of_foldConstants h⟩

section Instances

/-- The tree of `!(<a> + 0 ? 1 : 2) + (0 ? <b> : -1)`. -/
private def nestedTree : ExpressionTree NanRat :=
  .binary .plus
    (.unary .bang (.ternary (.binary .plus (.ref "a".toList {}) (.literal (Double.ofNat 0) {}) {})
      (.literal (Double.ofNat 1) {}) (.literal (Double.ofNat 2) {}) {}) {})
    (.ternary (.literal (Double.ofNat 0) {}) (.ref "b".toList {})
      (.unary .minus (.literal (Double.ofNat 1) {}) {}) {}) {}

/-- The right operand folds to `-1` and with it the reference to `b` goes; the left one stays. -/
theorem nested_constants_fold : ∃ e', foldConstants nestedTree = .ok e' ∧
    e'.all normal = true ∧ foldConstants e' = .ok e' ∧ e'.refs ⊆ nestedTree.refs := by
  cases hfold : foldConstants nestedTree with
  | error info =>
      have hok : (foldConstants nestedTree).isOk = true := by decide +kernel
      rw [hfold] at hok
      cases hok
  | ok e' => exact ⟨e', rfl, foldConstants_reaches_normal_form hfold⟩

end Instances

end StatForge.Dsl
