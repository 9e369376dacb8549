import StatForge.Dsl.Operators
import StatForge.NanRat

/-!
# Constant folding and evaluation

What `Parser::foldConstants` does to a tree, and when the folded tree has the values of the original.

* `asLiteral_of_foldConstants` — a tree folds to a literal exactly if it has a `constantValue`.
* `all_callSupported_iff` — the calls of the folded tree are those of the `survivors`, the parts that
  no constant condition excludes.
* `foldConstants_keeps_meaning_iff` — the survivors keep their meaning exactly if no truth test of a
  NaN constant among them decides anything; then the tree keeps its meaning as well.
* `nan_test_changes_meaning` — the folder takes `!NaN` to `0`, the evaluator to `1`.
-/

namespace StatForge.Dsl

open ExpressionTree ExceptBind StatForge.Dsl.Parser

variable {D : Type}

namespace ExpressionTree

/-- `std::get_if<Literal>`. -/
def asLiteral : ExpressionTree D → Option D
  | .literal value _ => some value
  | _ => none

theorem asLiteral_eq_some {e : ExpressionTree D} {value : D} :
    e.asLiteral = some value ↔ ∃ span, e = .literal value span := by
  cases e <;> simp [asLiteral]

/-- A test that holds at literals holds everywhere in a tree that is one. -/
theorem all_of_asLiteral {test : ExpressionTree D → Bool}
    (htest : ∀ value span, test (.literal value span)) {e : ExpressionTree D} {value : D}
    (h : e.asLiteral = some value) : e.all test := by
  obtain ⟨span, rfl⟩ := asLiteral_eq_some.mp h
  exact htest value span

variable [Double D]

/-- The value of a constant subexpression: literals, signs, `!` and arithmetic on constants, and
choices of a constant by a constant. -/
def constantValue : ExpressionTree D → Option D
  | .literal value _ => some value
  | .ref _ _ => none
  | .unary op rhs _ => do
      let value ← rhs.constantValue
      some (foldUnary op value)
  | .binary op lhs rhs _ => do
      let l ← lhs.constantValue
      let r ← rhs.constantValue
      foldBinary op l r
  | .ternary cond thenExpr elseExpr _ => do
      let value ← cond.constantValue
      if !Double.eq value Double.zero then thenExpr.constantValue else elseExpr.constantValue
  | .call _ _ _ => none

/-- The children, without a branch that a constant condition excludes. -/
def survivingChildren : ExpressionTree D → List (ExpressionTree D)
  | .ternary cond thenExpr elseExpr _ =>
      match cond.constantValue with
      | none => [cond, thenExpr, elseExpr]
      | some value => [cond, if !Double.eq value Double.zero then thenExpr else elseExpr]
  | e => e.children

mutual
/-- The parts of a tree that are not in an excluded branch. -/
def survivors : ExpressionTree D → List (ExpressionTree D)
  | .literal value span => [.literal value span]
  | .ref name span => [.ref name span]
  | .unary op rhs span => .unary op rhs span :: rhs.survivors
  | .binary op lhs rhs span => .binary op lhs rhs span :: (lhs.survivors ++ rhs.survivors)
  | .ternary cond thenExpr elseExpr span =>
      .ternary cond thenExpr elseExpr span :: (cond.survivors ++
        match cond.constantValue with
        | none => thenExpr.survivors ++ elseExpr.survivors
        | some value =>
            if !Double.eq value Double.zero then thenExpr.survivors else elseExpr.survivors)
  | .call name args span => .call name args span :: survivorsArgs args

def survivorsArgs : List (ExpressionTree D) → List (ExpressionTree D)
  | [] => []
  | arg :: args => arg.survivors ++ survivorsArgs args
end

@[simp] theorem mem_survivorsArgs {part : ExpressionTree D} {args : List (ExpressionTree D)} :
    part ∈ survivorsArgs args ↔ ∃ arg ∈ args, part ∈ arg.survivors := by
  induction args with
  | nil => simp [survivorsArgs]
  | cons arg args ih => simp [survivorsArgs, ih]

theorem mem_survivors_iff {part : ExpressionTree D} (e : ExpressionTree D) :
    part ∈ e.survivors ↔ part = e ∨ ∃ child ∈ e.survivingChildren, part ∈ child.survivors := by
  cases e with
  | ternary cond thenExpr elseExpr span =>
      cases hcond : cond.constantValue with
      | none => simp [survivors, survivingChildren, hcond]
      | some value => cases hzero : Double.eq value Double.zero <;>
          simp [survivors, survivingChildren, hcond, hzero]
  | _ => simp [survivors, survivingChildren, children]

theorem self_mem_survivors (e : ExpressionTree D) : e ∈ e.survivors :=
  (mem_survivors_iff e).mpr (Or.inl rfl)

theorem survivors_of_child {e child part : ExpressionTree D} (hchild : child ∈ e.survivingChildren)
    (hpart : part ∈ child.survivors) : part ∈ e.survivors :=
  (mem_survivors_iff e).mpr (Or.inr ⟨child, hchild, hpart⟩)

/-- What holds of all survivors holds of the root and of the survivors of the surviving children. -/
theorem forall_survivors_iff {property : ExpressionTree D → Prop} (e : ExpressionTree D) :
    (∀ part ∈ e.survivors, property part) ↔
      property e ∧ ∀ child ∈ e.survivingChildren, ∀ part ∈ child.survivors, property part := by
  constructor
  · intro h
    exact ⟨h e e.self_mem_survivors, fun child hchild part hpart =>
      h part (survivors_of_child hchild hpart)⟩
  · rintro ⟨hroot, hchildren⟩ part hpart
    rcases (mem_survivors_iff e).mp hpart with rfl | ⟨child, hchild, hpart⟩
    · exact hroot
    · exact hchildren child hchild part hpart

theorem cond_mem_survivingChildren (cond thenExpr elseExpr : ExpressionTree D) (span : Span) :
    cond ∈ (ternary cond thenExpr elseExpr span).survivingChildren := by
  cases hcond : cond.constantValue <;> simp [survivingChildren, hcond]

/-- Surviving children are children. -/
theorem children_of_survivingChildren {e child : ExpressionTree D}
    (hchild : child ∈ e.survivingChildren) : child ∈ e.children := by
  cases e with
  | ternary cond thenExpr elseExpr span =>
      cases hcond : cond.constantValue with
      | none => simpa only [survivingChildren, hcond, children] using hchild
      | some value =>
          simp only [survivingChildren, hcond, children, List.mem_cons, List.not_mem_nil,
            or_false] at hchild ⊢
          split at hchild <;> tauto
  | _ => exact hchild

/-- What holds of a tree and passes to surviving children holds of the survivors. -/
theorem survivors_induction (property : ExpressionTree D → Prop)
    (hchild : ∀ e child, property e → child ∈ e.survivingChildren → property child)
    {e part : ExpressionTree D} (he : property e) (hpart : part ∈ e.survivors) : property part := by
  induction hsize : e.size using Nat.strong_induction_on generalizing e with
  | _ size ih =>
      rcases (mem_survivors_iff e).mp hpart with rfl | ⟨child, hmem, hpart⟩
      · exact he
      · refine ih child.size ?_ (hchild e child he hmem) hpart rfl
        rw [← hsize]
        exact size_lt_of_mem_children (children_of_survivingChildren hmem)

theorem survivors_trans {e part part' : ExpressionTree D} (hpart : part ∈ e.survivors)
    (hpart' : part' ∈ part.survivors) : part' ∈ e.survivors :=
  survivors_induction (fun inner => ∀ part' ∈ inner.survivors, part' ∈ e.survivors)
    (fun _ _ h hmem part' hpart' => h part' (survivors_of_child hmem hpart')) (fun _ h => h) hpart
    part' hpart'

end ExpressionTree

/-! ### What folding does -/

variable [Double D] {e' : ExpressionTree D}

theorem foldConstants_unary {op : TokenKind} {rhs : ExpressionTree D} {span : Span}
    (h : foldConstants (.unary op rhs span) = .ok e') :
    ∃ rhs', foldConstants rhs = .ok rhs' ∧
      e' = match rhs'.asLiteral with
        | some value => .literal (foldUnary op value) span
        | none => .unary op rhs' span := by
  rw [foldConstants, bind_eq_ok] at h
  obtain ⟨rhs', hrhs, h⟩ := h
  refine ⟨rhs', hrhs, ?_⟩
  cases rhs' <;> exact (Except.ok.inj h).symm

theorem foldConstants_binary {op : TokenKind} {lhs rhs : ExpressionTree D} {span : Span}
    (h : foldConstants (.binary op lhs rhs span) = .ok e') :
    ∃ lhs' rhs', foldConstants lhs = .ok lhs' ∧ foldConstants rhs = .ok rhs' ∧
      e' = match (do foldBinary op (← lhs'.asLiteral) (← rhs'.asLiteral)) with
        | some value => .literal value span
        | none => .binary op lhs' rhs' span := by
  rw [foldConstants, bind_eq_ok] at h
  obtain ⟨lhs', hlhs, h⟩ := h
  rw [bind_eq_ok] at h
  obtain ⟨rhs', hrhs, h⟩ := h
  refine ⟨lhs', rhs', hlhs, hrhs, ?_⟩
  split at h
  · split at h
    · cases h
    · split at h
      · rename_i hvalue
        simp [asLiteral, hvalue, Except.ok.inj h]
      · rename_i hvalue
        simp [asLiteral, hvalue, ← Except.ok.inj h]
  · rename_i hliterals
    have hnone : (do foldBinary op (← lhs'.asLiteral) (← rhs'.asLiteral)) = none := by
      cases lhs' <;> cases rhs' <;> first | rfl | exact absurd rfl (hliterals _ _ _ _ rfl)
    rw [hnone]
    exact (Except.ok.inj h).symm

theorem foldConstants_ternary {cond thenExpr elseExpr : ExpressionTree D} {span : Span}
    (h : foldConstants (.ternary cond thenExpr elseExpr span) = .ok e') :
    ∃ cond' thenExpr' elseExpr', foldConstants cond = .ok cond' ∧
      foldConstants thenExpr = .ok thenExpr' ∧ foldConstants elseExpr = .ok elseExpr' ∧
      e' = match cond'.asLiteral with
        | some value => if !Double.eq value Double.zero then thenExpr' else elseExpr'
        | none => .ternary cond' thenExpr' elseExpr' span := by
  rw [foldConstants, bind_eq_ok] at h
  obtain ⟨cond', hcond, h⟩ := h
  rw [bind_eq_ok] at h
  obtain ⟨thenExpr', hthen, h⟩ := h
  rw [bind_eq_ok] at h
  obtain ⟨elseExpr', helse, h⟩ := h
  refine ⟨cond', thenExpr', elseExpr', hcond, hthen, helse, ?_⟩
  cases cond' with
  | literal value span' =>
      dsimp only [asLiteral] at h ⊢
      cases hzero : Double.eq value Double.zero with
      | true =>
          rw [hzero] at h
          exact (Except.ok.inj h).symm
      | false =>
          rw [hzero] at h
          exact (Except.ok.inj h).symm
  | _ => exact (Except.ok.inj h).symm

theorem exists_right_of_forall₂ {α β : Type*} {related : α → β → Prop} {xs : List α} {ys : List β}
    (h : List.Forall₂ related xs ys) {x : α} (hx : x ∈ xs) : ∃ y ∈ ys, related x y := by
  induction h with
  | nil => exact absurd hx List.not_mem_nil
  | cons hhead _ ih =>
      rcases List.mem_cons.mp hx with rfl | hx
      · exact ⟨_, by simp, hhead⟩
      · obtain ⟨y, hy, hrelated⟩ := ih hx
        exact ⟨y, List.mem_cons_of_mem _ hy, hrelated⟩

theorem exists_left_of_forall₂ {α β : Type*} {related : α → β → Prop} {xs : List α} {ys : List β}
    (h : List.Forall₂ related xs ys) {y : β} (hy : y ∈ ys) : ∃ x ∈ xs, related x y :=
  exists_right_of_forall₂ h.flip hy

theorem foldArguments_forall₂ {args args' : List (ExpressionTree D)}
    (h : foldArguments args = .ok args') :
    List.Forall₂ (fun arg arg' => foldConstants arg = .ok arg') args args' := by
  induction args generalizing args' with
  | nil =>
      cases h
      exact .nil
  | cons arg args ih =>
      rw [foldArguments, bind_eq_ok] at h
      obtain ⟨arg', harg, h⟩ := h
      rw [bind_eq_ok] at h
      obtain ⟨args', hargs, h⟩ := h
      cases h
      exact .cons harg (ih hargs)

theorem foldConstants_call {name : StdString} {args : List (ExpressionTree D)} {span : Span}
    (h : foldConstants (.call name args span) = .ok e') :
    ∃ args', List.Forall₂ (fun arg arg' => foldConstants arg = .ok arg') args args' ∧
      e' = .call name args' span := by
  rw [foldConstants, bind_eq_ok] at h
  obtain ⟨args', hargs, h⟩ := h
  exact ⟨args', foldArguments_forall₂ hargs, (Except.ok.inj h).symm⟩

/-- **Folding finds the constants**: a tree folds to a literal exactly if it has a constant value. -/
theorem asLiteral_of_foldConstants {e : ExpressionTree D} (h : foldConstants e = .ok e') :
    e'.asLiteral = e.constantValue := by
  induction e generalizing e' with
  | literal value span =>
      cases h
      rfl
  | ref name span =>
      cases h
      rfl
  | unary op rhs span ih =>
      obtain ⟨rhs', hrhs, rfl⟩ := foldConstants_unary h
      rw [constantValue, ← ih hrhs]
      cases rhs'.asLiteral <;> rfl
  | binary op lhs rhs span ih ih' =>
      obtain ⟨lhs', rhs', hlhs, hrhs, rfl⟩ := foldConstants_binary h
      rw [constantValue, ← ih hlhs, ← ih' hrhs]
      split
      · rename_i hvalue
        exact hvalue.symm
      · rename_i hvalue
        exact hvalue.symm
  | ternary cond thenExpr elseExpr span ih ih' ih'' =>
      obtain ⟨cond', thenExpr', elseExpr', hcond, hthen, helse, rfl⟩ := foldConstants_ternary h
      rw [constantValue, ← ih hcond, ← ih' hthen, ← ih'' helse]
      cases cond'.asLiteral with
      | none => rfl
      | some value =>
          dsimp only [Option.bind_eq_bind, Option.bind_some]
          split <;> rfl
  | call name args span ih =>
      obtain ⟨args', -, rfl⟩ := foldConstants_call h
      rfl

/-! ### The operators and calls that remain -/

/-- Folding keeps the operators handled. -/
theorem all_operatorHandled_of_foldConstants {e : ExpressionTree D} (h : foldConstants e = .ok e')
    (hoperators : e.all operatorHandled) : e'.all operatorHandled := by
  induction e generalizing e' with
  | literal value span =>
      cases h
      exact hoperators
  | ref name span =>
      cases h
      exact hoperators
  | unary op rhs span ih =>
      obtain ⟨rhs', hrhs, rfl⟩ := foldConstants_unary h
      simp only [all, Bool.and_eq_true] at hoperators
      split
      · rfl
      · simpa only [all, Bool.and_eq_true] using ⟨hoperators.1, ih hrhs hoperators.2⟩
  | binary op lhs rhs span ih ih' =>
      obtain ⟨lhs', rhs', hlhs, hrhs, rfl⟩ := foldConstants_binary h
      simp only [all, Bool.and_eq_true] at hoperators
      split
      · rfl
      · simpa only [all, Bool.and_eq_true] using
          ⟨⟨hoperators.1.1, ih hlhs hoperators.1.2⟩, ih' hrhs hoperators.2⟩
  | ternary cond thenExpr elseExpr span ih ih' ih'' =>
      obtain ⟨cond', thenExpr', elseExpr', hcond, hthen, helse, rfl⟩ := foldConstants_ternary h
      simp only [all, Bool.and_eq_true] at hoperators
      obtain ⟨⟨⟨-, hcond'⟩, hthen'⟩, helse'⟩ := hoperators
      split
      · split
        · exact ih' hthen hthen'
        · exact ih'' helse helse'
      · simpa only [all, Bool.and_eq_true] using
          ⟨⟨⟨rfl, ih hcond hcond'⟩, ih' hthen hthen'⟩, ih'' helse helse'⟩
  | call name args span ih =>
      obtain ⟨args', hargs, rfl⟩ := foldConstants_call h
      simp only [all, Bool.and_eq_true, allArgs_eq_true] at hoperators ⊢
      refine ⟨rfl, fun arg' harg' => ?_⟩
      obtain ⟨arg, harg, hfold⟩ := exists_left_of_forall₂ hargs harg'
      exact ih arg harg hfold (hoperators.2 arg harg)

/-- The children of a tree that can be folded can be folded. -/
theorem exists_foldConstants_child {e child : ExpressionTree D} (h : foldConstants e = .ok e')
    (hchild : child ∈ e.children) : ∃ child', foldConstants child = .ok child' := by
  cases e with
  | literal value span => exact absurd hchild List.not_mem_nil
  | ref name span => exact absurd hchild List.not_mem_nil
  | unary op rhs span =>
      obtain ⟨rhs', hrhs, -⟩ := foldConstants_unary h
      exact ⟨rhs', List.mem_singleton.mp hchild ▸ hrhs⟩
  | binary op lhs rhs span =>
      obtain ⟨lhs', rhs', hlhs, hrhs, -⟩ := foldConstants_binary h
      rcases List.mem_pair.mp hchild with rfl | rfl
      · exact ⟨lhs', hlhs⟩
      · exact ⟨rhs', hrhs⟩
  | ternary cond thenExpr elseExpr span =>
      obtain ⟨cond', thenExpr', elseExpr', hcond, hthen, helse, -⟩ := foldConstants_ternary h
      simp only [children, List.mem_cons, List.not_mem_nil, or_false] at hchild
      rcases hchild with rfl | rfl | rfl
      · exact ⟨cond', hcond⟩
      · exact ⟨thenExpr', hthen⟩
      · exact ⟨elseExpr', helse⟩
  | call name args span =>
      obtain ⟨args', hargs, -⟩ := foldConstants_call h
      obtain ⟨child', -, hfold⟩ := exists_right_of_forall₂ hargs hchild
      exact ⟨child', hfold⟩

/-- The parts of a constant subexpression are constant, apart from excluded branches. -/
theorem constantValue_child {e child : ExpressionTree D} {value : D}
    (h : e.constantValue = some value) (hchild : child ∈ e.survivingChildren) :
    ∃ value', child.constantValue = some value' := by
  cases e with
  | literal => exact absurd hchild List.not_mem_nil
  | ref => cases h
  | unary op rhs span =>
      obtain ⟨value', hvalue', -⟩ := Option.bind_eq_some_iff.mp h
      exact ⟨value', List.mem_singleton.mp hchild ▸ hvalue'⟩
  | binary op lhs rhs span =>
      obtain ⟨l, hl, h⟩ := Option.bind_eq_some_iff.mp h
      obtain ⟨r, hr, -⟩ := Option.bind_eq_some_iff.mp h
      rcases List.mem_pair.mp hchild with rfl | rfl
      · exact ⟨l, hl⟩
      · exact ⟨r, hr⟩
  | ternary cond thenExpr elseExpr span =>
      obtain ⟨c, hc, h⟩ := Option.bind_eq_some_iff.mp h
      simp only [survivingChildren, hc] at hchild
      rcases List.mem_pair.mp hchild with rfl | rfl
      · exact ⟨c, hc⟩
      · refine ⟨value, ?_⟩
        split <;> simp_all
  | call => cases h

/-- The root of a tree stays when it is folded, over the folded children. -/
inductive KeptRoot : ExpressionTree D → ExpressionTree D → Prop
  | ref (name span) : KeptRoot (.ref name span) (.ref name span)
  | unary {rhs rhs'} (op span) (hrhs : foldConstants rhs = .ok rhs') :
      KeptRoot (.unary op rhs span) (.unary op rhs' span)
  | binary {lhs lhs' rhs rhs'} (op span) (hlhs : foldConstants lhs = .ok lhs')
      (hrhs : foldConstants rhs = .ok rhs') :
      KeptRoot (.binary op lhs rhs span) (.binary op lhs' rhs' span)
  | ternary {cond cond' thenExpr thenExpr' elseExpr elseExpr'} (span)
      (hcond : foldConstants cond = .ok cond') (hthen : foldConstants thenExpr = .ok thenExpr')
      (helse : foldConstants elseExpr = .ok elseExpr') (hvalue : cond.constantValue = none) :
      KeptRoot (.ternary cond thenExpr elseExpr span) (.ternary cond' thenExpr' elseExpr' span)
  | call {args args'} (name span)
      (hargs : List.Forall₂ (fun arg arg' => foldConstants arg = .ok arg') args args') :
      KeptRoot (.call name args span) (.call name args' span)

theorem KeptRoot.children {e : ExpressionTree D} (h : KeptRoot e e') :
    List.Forall₂ (fun child child' => foldConstants child = .ok child') e.survivingChildren
      e'.children := by
  cases h with
  | ref => exact .nil
  | unary _ _ hrhs => exact .cons hrhs .nil
  | binary _ _ hlhs hrhs => exact .cons hlhs (.cons hrhs .nil)
  | ternary _ hcond hthen helse hvalue =>
      rw [survivingChildren, hvalue]
      exact .cons hcond (.cons hthen (.cons helse .nil))
  | call _ _ hargs => exact hargs

/-- The three things that folding makes of a tree: the value of a constant, the branch that a constant
chooses, or the same root. -/
theorem foldConstants_cases {e : ExpressionTree D} (h : foldConstants e = .ok e') :
    (∃ value, e.constantValue = some value) ∨
    (∃ cond thenExpr elseExpr span value, e = .ternary cond thenExpr elseExpr span ∧
      cond.constantValue = some value ∧
        foldConstants (if !Double.eq value Double.zero then thenExpr else elseExpr) = .ok e') ∨
    KeptRoot e e' := by
  cases e with
  | literal value span => exact Or.inl ⟨value, rfl⟩
  | ref name span =>
      cases h
      exact Or.inr (Or.inr (.ref name span))
  | unary op rhs span =>
      obtain ⟨rhs', hrhs, rfl⟩ := foldConstants_unary h
      rw [asLiteral_of_foldConstants hrhs]
      cases hvalue : rhs.constantValue with
      | none => exact Or.inr (Or.inr (.unary op span hrhs))
      | some value => exact Or.inl ⟨foldUnary op value, by simp [constantValue, hvalue]⟩
  | binary op lhs rhs span =>
      obtain ⟨lhs', rhs', hlhs, hrhs, rfl⟩ := foldConstants_binary h
      rw [asLiteral_of_foldConstants hlhs, asLiteral_of_foldConstants hrhs]
      split
      · rename_i value hvalue
        exact Or.inl ⟨value, hvalue⟩
      · exact Or.inr (Or.inr (.binary op span hlhs hrhs))
  | ternary cond thenExpr elseExpr span =>
      obtain ⟨cond', thenExpr', elseExpr', hcond, hthen, helse, rfl⟩ := foldConstants_ternary h
      rw [asLiteral_of_foldConstants hcond]
      cases hvalue : cond.constantValue with
      | none => exact Or.inr (Or.inr (.ternary span hcond hthen helse hvalue))
      | some value =>
          refine Or.inr (Or.inl ⟨cond, thenExpr, elseExpr, span, value, rfl, hvalue, ?_⟩)
          dsimp only
          split
          · exact hthen
          · exact helse
  | call name args span =>
      obtain ⟨args', hargs, rfl⟩ := foldConstants_call h
      exact Or.inr (Or.inr (.call name span hargs))

/-- A test of the nodes of folded trees, and the property of the original nodes that it amounts to. -/
structure FoldTest (test : ExpressionTree D → Bool) (property : ExpressionTree D → Prop) : Prop where
  literal : ∀ value span, test (.literal value span)
  /-- A constant leaves its value only. -/
  constant : ∀ {e e' : ExpressionTree D} {value}, foldConstants e = .ok e' →
    e.constantValue = some value → property e
  /-- A choice by a constant leaves the chosen branch only. -/
  choice : ∀ {cond : ExpressionTree D} (thenExpr elseExpr span) {value},
    cond.constantValue = some value → property (.ternary cond thenExpr elseExpr span)
  kept : ∀ {e e' : ExpressionTree D}, foldConstants e = .ok e' → KeptRoot e e' →
    (test e' = true ↔ property e)

/-- **What remains of a tree.**  A test holds everywhere in the folded tree exactly if the property that
it amounts to holds of the survivors. -/
theorem FoldTest.all_iff {test : ExpressionTree D → Bool} {property : ExpressionTree D → Prop}
    (htest : FoldTest test property) {e : ExpressionTree D} (h : foldConstants e = .ok e') :
    e'.all test = true ↔ ∀ part ∈ e.survivors, property part := by
  -- Every survivor of a constant is a constant, which leaves its value only.
  have hconstant {e e' : ExpressionTree D} {value : D} (h : foldConstants e = .ok e')
      (hvalue : e.constantValue = some value) : ∀ part ∈ e.survivors, property part := by
    intro part hpart
    obtain ⟨⟨part', hpart'⟩, value', hvalue'⟩ := survivors_induction
      (fun e => (∃ e', foldConstants e = .ok e') ∧ ∃ value, e.constantValue = some value)
      (fun e child he hchild => ⟨he.1.elim fun e' he =>
          exists_foldConstants_child he (children_of_survivingChildren hchild),
        he.2.elim fun value hvalue => constantValue_child hvalue hchild⟩)
      ⟨⟨e', h⟩, value, hvalue⟩ hpart
    exact htest.constant hpart' hvalue'
  induction hsize : e.size using Nat.strong_induction_on generalizing e e' with
  | _ size ih =>
      have hchild {child child' : ExpressionTree D} (hmem : child ∈ e.survivingChildren)
          (hfold : foldConstants child = .ok child') :
          child'.all test = true ↔ ∀ part ∈ child.survivors, property part := by
        refine ih child.size ?_ hfold rfl
        rw [← hsize]
        exact size_lt_of_mem_children (children_of_survivingChildren hmem)
      rcases foldConstants_cases h with
        ⟨value, hvalue⟩ | ⟨cond, thenExpr, elseExpr, span, value, rfl, hvalue, hfold⟩ | hkept
      · have hliteral : e'.asLiteral = some value := by rw [asLiteral_of_foldConstants h, hvalue]
        exact iff_of_true (all_of_asLiteral htest.literal hliteral) (hconstant h hvalue)
      · have hchildren : (ternary cond thenExpr elseExpr span).survivingChildren =
            [cond, if !Double.eq value Double.zero then thenExpr else elseExpr] := by
          simp only [survivingChildren, hvalue]
        have hmem : cond ∈ (ternary cond thenExpr elseExpr span).children := by simp [children]
        obtain ⟨cond', hcond⟩ := exists_foldConstants_child h hmem
        rw [hchild (by simp [hchildren]) hfold, forall_survivors_iff (ternary _ _ _ _), hchildren]
        have hroot := htest.choice thenExpr elseExpr span hvalue
        have hcond' := hconstant hcond hvalue
        simp only [List.forall_mem_cons, List.not_mem_nil, false_imp_iff, implies_true, and_true]
        exact ⟨fun hchosen => ⟨hroot, hcond', hchosen⟩, fun hall => hall.2.2⟩
      · rw [ExpressionTree.all_iff, forall_survivors_iff, htest.kept h hkept]
        apply and_congr_right
        intro _
        constructor
        · intro hall child hmem
          obtain ⟨child', hmem', hfold⟩ := exists_right_of_forall₂ hkept.children hmem
          exact (hchild hmem hfold).mp (hall child' hmem')
        · intro hall child' hmem'
          obtain ⟨child, hmem, hfold⟩ := exists_left_of_forall₂ hkept.children hmem'
          exact (hchild hmem hfold).mpr (hall child hmem)

theorem foldTest_callSupported : FoldTest (D := D) callSupported fun e => e.callSupported = true where
  literal _ _ := rfl
  constant {e _ _} _ hvalue := by
    cases e with
    | call => cases hvalue
    | _ => rfl
  choice _ _ _ _ _ := rfl
  kept _ hkept := by
    cases hkept with
    | call name span hargs => simp [callSupported, hargs.length_eq]
    | _ => rfl

/-- **The calls that remain** in the folded tree are supported exactly if those among the survivors
are. -/
theorem all_callSupported_iff {e : ExpressionTree D} (h : foldConstants e = .ok e') :
    e'.all callSupported ↔ ∀ part ∈ e.survivors, part.callSupported :=
  foldTest_callSupported.all_iff h

theorem foldTest_refName (name : NodeId) :
    FoldTest (D := D) (fun e => name ∉ e.refName) fun e => name ∉ e.refName where
  literal _ _ := by simp [refName]
  constant {e _ _} _ hvalue := by
    cases e with
    | ref => cases hvalue
    | _ => simp [refName]
  choice _ _ _ _ _ := by simp [refName]
  kept _ hkept := by cases hkept <;> simp [refName]

/-- **The references that remain** in the folded tree are those among the survivors. -/
theorem mem_refs_foldConstants_iff {e : ExpressionTree D} (h : foldConstants e = .ok e')
    {name : NodeId} : name ∈ e'.refs ↔ ∃ part ∈ e.survivors, name ∈ part.refName := by
  have hnone := (foldTest_refName name).all_iff h
  rw [all_notMem_refName] at hnone
  have hsome := not_congr hnone
  simpa only [not_not, not_forall, exists_prop] using hsome

/-! ### Meaning -/

/-- What folding and evaluation take for granted about `0.0`, `1.0` and NaN. -/
structure TruthValues (D : Type) [Double D] : Prop where
  zero_eq_zero : Double.eq (Double.zero : D) Double.zero = true
  zero_eq_one : Double.eq (Double.zero : D) Double.one = false
  one_eq_zero : Double.eq (Double.one : D) Double.zero = false
  one_eq_one : Double.eq (Double.one : D) Double.one = true
  nan_eq_zero : ∀ value : D, Double.isNan value = true → Double.eq value Double.zero = false

section TruthValues

variable {value : D}

theorem logicalValue_of_zero (h : Double.eq value Double.zero = true) :
    logicalValue value = Double.zero := by
  simp [logicalValue, boolValue, h]

theorem logicalValue_of_nan (h : Double.isNan value = true) : logicalValue value = Double.zero := by
  simp [logicalValue, boolValue, h]

theorem logicalValue_of_nonzero (h : Double.eq value Double.zero = false)
    (hnan : Double.isNan value = false) : logicalValue value = Double.one := by
  simp [logicalValue, boolValue, h, hnan]

/-- Apart from `!` on a NaN, the folder computes unary operators as the evaluator does. -/
theorem evaluateUnary_eq_foldUnary (htruth : TruthValues D) {op : TokenKind}
    (hop : op = .plus ∨ op = .minus ∨ op = .bang)
    (hnan : op = .bang → Double.isNan value = false) :
    evaluateUnary op value = .ok (foldUnary op value) := by
  rcases hop with rfl | rfl | rfl
  · rfl
  · rfl
  · cases hzero : Double.eq value Double.zero with
    | true =>
        simp [evaluateUnary, foldUnary, logicalValue_of_zero hzero, hzero, boolValue,
          htruth.zero_eq_zero]
    | false =>
        simp [evaluateUnary, foldUnary, logicalValue_of_nonzero hzero (hnan rfl), hzero, boolValue,
          htruth.one_eq_zero]

/-- `!` on a NaN is `0` for the folder and `1` for the evaluator. -/
theorem evaluateUnary_ne_foldUnary (htruth : TruthValues D) (hnan : Double.isNan value = true) :
    evaluateUnary .bang value ≠ .ok (foldUnary .bang value) := by
  simp only [evaluateUnary, foldUnary, logicalValue_of_nan hnan, htruth.zero_eq_zero,
    htruth.nan_eq_zero value hnan, boolValue]
  intro h
  have hone : (Double.one : D) = Double.zero := Except.ok.inj h
  have heq := htruth.one_eq_zero
  rw [hone, htruth.zero_eq_zero] at heq
  cases heq

theorem evaluateBinary_of_foldBinary {op : TokenKind} {l r : D} (h : foldBinary op l r = some value) :
    evaluateBinary op l r = .ok value := by
  cases op <;> cases h <;> rfl

end TruthValues

/-- Folding gives the tree a tree with the same value, or the same abort, under every lookup. -/
def MeaningKept (e : ExpressionTree D) : Prop :=
  ∀ e', foldConstants e = .ok e' → ∀ context, evaluate context e' = evaluate context e

namespace ExpressionTree

/-- The root is no `!` on a NaN constant, and no choice by a NaN constant between branches that
differ. -/
def NanTestHarmless : ExpressionTree D → Prop
  | .unary op rhs _ => op = .bang → ∀ value, rhs.constantValue = some value →
      Double.isNan value = false
  | .ternary cond thenExpr elseExpr _ => ∀ value, cond.constantValue = some value →
      Double.isNan value = true → ∀ context, evaluate context thenExpr = evaluate context elseExpr
  | _ => True

end ExpressionTree

/-- A part that folds to a literal has that value everywhere, if it keeps its meaning. -/
theorem MeaningKept.evaluate_eq {e : ExpressionTree D} (h : MeaningKept e)
    (hfold : foldConstants e = .ok e') {value : D} (hvalue : e.constantValue = some value)
    (context : Context D) : evaluate context e = .ok value := by
  rw [← asLiteral_of_foldConstants hfold, asLiteral_eq_some] at hvalue
  obtain ⟨span, rfl⟩ := hvalue
  exact (h _ hfold context).symm

theorem evaluate_ternary {cond thenExpr elseExpr : ExpressionTree D} {span : Span} {value : D}
    {context : Context D} (hcond : evaluate context cond = .ok value) :
    evaluate context (.ternary cond thenExpr elseExpr span) =
      if Double.eq (logicalValue value) Double.one then evaluate context thenExpr
      else evaluate context elseExpr := by
  rw [evaluate, hcond, ok_bind]

section Roots

variable {op : TokenKind} {lhs rhs cond thenExpr elseExpr : ExpressionTree D} {name : StdString}
  {args : List (ExpressionTree D)} {span : Span}

theorem MeaningKept.unary (htruth : TruthValues D)
    (hoperator : op = .plus ∨ op = .minus ∨ op = .bang)
    (hroot : (ExpressionTree.unary op rhs span).NanTestHarmless) (hrhs : MeaningKept rhs) :
    MeaningKept (.unary op rhs span) := by
  intro e' hfold context
  obtain ⟨rhs', hrhs', rfl⟩ := foldConstants_unary hfold
  rw [asLiteral_of_foldConstants hrhs']
  cases hvalue : rhs.constantValue with
  | none => rw [evaluate, evaluate, hrhs rhs' hrhs']
  | some value =>
      have hnan (hbang : op = .bang) : Double.isNan value = false := hroot hbang value hvalue
      rw [evaluate, evaluate, hrhs.evaluate_eq hrhs' hvalue, ok_bind,
        evaluateUnary_eq_foldUnary htruth hoperator hnan]

theorem MeaningKept.binary (hlhs : MeaningKept lhs) (hrhs : MeaningKept rhs) :
    MeaningKept (.binary op lhs rhs span) := by
  intro e' hfold context
  obtain ⟨lhs', rhs', hlhs', hrhs', rfl⟩ := foldConstants_binary hfold
  rw [asLiteral_of_foldConstants hlhs', asLiteral_of_foldConstants hrhs']
  split
  · rename_i value hvalue
    simp only [Option.bind_eq_bind, Option.bind_eq_some_iff] at hvalue
    obtain ⟨l, hl, r, hr, hvalue⟩ := hvalue
    rw [evaluate, evaluate, hlhs.evaluate_eq hlhs' hl, ok_bind, hrhs.evaluate_eq hrhs' hr, ok_bind,
      evaluateBinary_of_foldBinary hvalue]
  · rw [evaluate, evaluate, hlhs lhs' hlhs', hrhs rhs' hrhs']

theorem MeaningKept.ternary (htruth : TruthValues D)
    (hroot : (ExpressionTree.ternary cond thenExpr elseExpr span).NanTestHarmless)
    (hchildren : ∀ child ∈ (ExpressionTree.ternary cond thenExpr elseExpr span).survivingChildren,
      MeaningKept child) :
    MeaningKept (.ternary cond thenExpr elseExpr span) := by
  intro e' hfold context
  obtain ⟨cond', thenExpr', elseExpr', hcond, hthen, helse, rfl⟩ := foldConstants_ternary hfold
  have hkept : MeaningKept cond := hchildren cond (cond_mem_survivingChildren ..)
  rw [asLiteral_of_foldConstants hcond]
  cases hvalue : cond.constantValue with
  | none =>
      have hkept' : MeaningKept thenExpr := hchildren _ (by simp [survivingChildren, hvalue])
      have hkept'' : MeaningKept elseExpr := hchildren _ (by simp [survivingChildren, hvalue])
      rw [evaluate, evaluate, hkept cond' hcond, hkept' thenExpr' hthen, hkept'' elseExpr' helse]
  | some value =>
      rw [evaluate_ternary (hkept.evaluate_eq hcond hvalue context)]
      dsimp only
      -- The folder tests for `0`, the evaluator for a truth value of `1`.
      cases hzero : Double.eq value Double.zero with
      | true =>
          have hkept'' : MeaningKept elseExpr :=
            hchildren _ (by simp [survivingChildren, hvalue, hzero])
          rw [logicalValue_of_zero hzero, htruth.zero_eq_one]
          exact hkept'' elseExpr' helse context
      | false =>
          have hkept' : MeaningKept thenExpr :=
            hchildren _ (by simp [survivingChildren, hvalue, hzero])
          have hfolded := hkept' thenExpr' hthen context
          cases hnan : Double.isNan value with
          | false =>
              rw [logicalValue_of_nonzero hzero hnan, htruth.one_eq_one]
              exact hfolded
          | true =>
              -- The evaluator takes the other branch, which has the same value.
              rw [logicalValue_of_nan hnan, htruth.zero_eq_one]
              exact hfolded.trans (hroot value hvalue hnan context)

theorem MeaningKept.call (hargs : ∀ arg ∈ args, MeaningKept arg) :
    MeaningKept (.call name args span) := by
  intro e' hfold context
  obtain ⟨args', hargs', rfl⟩ := foldConstants_call hfold
  have hsame : List.Forall₂ (fun arg arg' => evaluate context arg' = evaluate context arg) args
      args' := by
    apply ((List.forall₂_and_left args args').mpr ⟨hargs, hargs'⟩).imp
    rintro arg arg' ⟨hkept, hfold⟩
    exact hkept arg' hfold context
  -- Only a call with exactly two arguments evaluates them.
  cases hsame with
  | nil => rfl
  | cons h₁ hrest =>
      cases hrest with
      | nil => simp [evaluate]
      | cons h₂ hrest =>
          cases hrest with
          | nil => simp [evaluate, h₁, h₂]
          | cons => simp [evaluate]

/-- A harmless root keeps its meaning if its surviving children do. -/
theorem meaningKept_of_children (htruth : TruthValues D) {e : ExpressionTree D}
    (hoperator : e.operatorHandled) (hroot : e.NanTestHarmless)
    (hchildren : ∀ child ∈ e.survivingChildren, MeaningKept child) : MeaningKept e := by
  cases e with
  | literal value span =>
      intro e' hfold context
      cases hfold
      rfl
  | ref name span =>
      intro e' hfold context
      cases hfold
      rfl
  | unary op rhs span =>
      simp only [operatorHandled, Bool.or_eq_true, decide_eq_true_eq, or_assoc] at hoperator
      exact .unary htruth hoperator hroot (hchildren rhs (by simp [survivingChildren, children]))
  | binary op lhs rhs span =>
      exact .binary (hchildren lhs (by simp [survivingChildren, children]))
        (hchildren rhs (by simp [survivingChildren, children]))
  | ternary cond thenExpr elseExpr span => exact .ternary htruth hroot hchildren
  | call name args span => exact .call hchildren

end Roots

/-- **Folding keeps the meaning** of a tree in which no surviving NaN test decides anything. -/
theorem meaningKept_of_harmless (htruth : TruthValues D) {e : ExpressionTree D}
    (hoperators : e.all operatorHandled) (h : ∀ part ∈ e.survivors, part.NanTestHarmless) :
    MeaningKept e := by
  -- By induction on the size: the children need not all survive.
  induction hsize : e.size using Nat.strong_induction_on generalizing e with
  | _ size ih =>
      obtain ⟨hoperator, hoperators'⟩ := (all_iff e).mp hoperators
      apply meaningKept_of_children htruth hoperator (h e e.self_mem_survivors)
      intro child hsurviving
      have hchild := children_of_survivingChildren hsurviving
      have hlt : child.size < size := hsize ▸ size_lt_of_mem_children hchild
      exact ih child.size hlt (hoperators' child hchild)
        (fun part hpart => h part (survivors_of_child hsurviving hpart)) rfl

/-- A root whose folding keeps the meaning, with children whose folding does. -/
theorem harmless_of_meaningKept (htruth : TruthValues D) {e : ExpressionTree D}
    (hfold : foldConstants e = .ok e') (hkept : MeaningKept e)
    (hchildren : ∀ child ∈ e.survivingChildren, MeaningKept child) : e.NanTestHarmless := by
  have hsame := hkept e' hfold
  cases e with
  | unary op rhs span =>
      rintro rfl value hvalue
      by_contra hnan
      obtain ⟨rhs', hrhs, rfl⟩ := foldConstants_unary hfold
      rw [asLiteral_of_foldConstants hrhs, hvalue] at hsame
      have hrhsKept := hchildren rhs (by simp [survivingChildren, children])
      -- The values differ in every context, so one of them is enough.
      have heval := hsame ⟨none⟩
      rw [evaluate, evaluate, hrhsKept.evaluate_eq hrhs hvalue, ok_bind] at heval
      exact evaluateUnary_ne_foldUnary htruth (by simpa using hnan) heval.symm
  | ternary cond thenExpr elseExpr span =>
      intro value hvalue hnan context
      obtain ⟨cond', thenExpr', elseExpr', hcond, hthen, helse, rfl⟩ := foldConstants_ternary hfold
      have hzero := htruth.nan_eq_zero value hnan
      have hcondKept := hchildren cond (cond_mem_survivingChildren ..)
      have hthenKept := hchildren thenExpr (by simp [survivingChildren, hvalue, hzero])
      have heval := hsame context
      rw [asLiteral_of_foldConstants hcond, hvalue,
        evaluate_ternary (hcondKept.evaluate_eq hcond hvalue context), logicalValue_of_nan hnan,
        htruth.zero_eq_one] at heval
      simp only [hzero, Bool.not_false, if_true, Bool.false_eq_true, if_false] at heval
      rw [← hthenKept thenExpr' hthen context, heval]
  | _ => trivial

/-- **Constant folding and NaN.**  Let the parser build a tree that can be folded.  If no surviving
NaN test decides anything, the folded tree has the value of the tree, or its abort, under every
lookup.  And the survivors all keep their meaning exactly in that case. -/
theorem foldConstants_keeps_meaning_iff (htruth : TruthValues D) {tokens : List (Token D)}
    {e : ExpressionTree D} (hparse : parse tokens false = .ok e) (hfold : foldConstants e = .ok e') :
    ((∀ part ∈ e.survivors, part.NanTestHarmless) →
      ∀ context, evaluate context e' = evaluate context e) ∧
    ((∀ part ∈ e.survivors, MeaningKept part) ↔ ∀ part ∈ e.survivors, part.NanTestHarmless) := by
  have hoperators := parse_operatorHandled hparse
  refine ⟨fun h => meaningKept_of_harmless htruth hoperators h e' hfold, fun h part hpart => ?_,
    fun h part hpart => ?_⟩
  · have hpartFold : ∃ part', foldConstants part = .ok part' :=
      survivors_induction (fun e => ∃ e', foldConstants e = .ok e')
        (fun e child he hmem => he.elim fun e' he =>
          exists_foldConstants_child he (children_of_survivingChildren hmem)) ⟨e', hfold⟩ hpart
    obtain ⟨part', hpartFold⟩ := hpartFold
    refine harmless_of_meaningKept htruth hpartFold (h part hpart) fun child hchild => h child ?_
    exact survivors_trans hpart (survivors_of_child hchild child.self_mem_survivors)
  · refine meaningKept_of_harmless htruth ?_ fun part' hpart' => h part' (survivors_trans hpart hpart')
    exact survivors_induction (fun e => e.all operatorHandled = true)
      (fun e child he hmem =>
        ((all_iff e).mp he).2 child (children_of_survivingChildren hmem)) hoperators hpart

section Instances

theorem truthValues_nanRat : TruthValues NanRat where
  zero_eq_zero := by decide +kernel
  zero_eq_one := by decide +kernel
  one_eq_zero := by decide +kernel
  one_eq_one := by decide +kernel
  nan_eq_zero value hnan := by
    cases value with
    | none => rfl
    | some rational => cases hnan

private def operand (value : NanRat) : Token NanRat := ⟨.number, [], {}, value⟩

private def symbol (kind : TokenKind) : Token NanRat := ⟨kind, [], {}, Double.zero⟩

private def half : NanRat := some (1 / 2)

/-- The tokens of `!((0 - 8) ^ 0.5)`: a negative base has no real square root. -/
private def nanTokens : List (Token NanRat) :=
  [symbol .bang, symbol .leftParen, symbol .leftParen, operand (Double.ofNat 0), symbol .minus,
    operand (Double.ofNat 8), symbol .rightParen, symbol .caret, operand half, symbol .rightParen,
    symbol .endOfFile]

/-- The tree of `!((0 - 8) ^ 0.5)` folds to `0` and evaluates to `1`. -/
theorem nan_test_changes_meaning : ∃ e e' : ExpressionTree NanRat,
    parse nanTokens false = .ok e ∧ foldConstants e = .ok e' ∧
      ∀ context, evaluate context e' = .ok Double.zero ∧ evaluate context e = .ok Double.one ∧
        evaluate context e' ≠ evaluate context e := by
  have hsub : Double.sub (Double.ofNat 0) (Double.ofNat 8) = (some (-8) : NanRat) := by decide +kernel
  have hpow : Double.pow (some (-8)) half = none := by decide +kernel
  have hfold : foldUnary .bang (none : NanRat) = Double.zero := by decide +kernel
  have heval : evaluateUnary .bang (none : NanRat) = .ok Double.one := by decide +kernel
  have hne : (Double.zero : NanRat) ≠ Double.one := by decide +kernel
  refine ⟨_, .literal Double.zero {}, rfl, ?_, fun context => ?_⟩
  · simp only [foldConstants, symbol, operand]
    simp [foldBinary, hsub, hpow, hfold]
  · simp only [evaluate, symbol, operand]
    simp [evaluateBinary, arithmetic, hsub, hpow, heval, hne]

/-- The tokens of `(1 - 1) ? 5 : <a>`. -/
private def zeroTokens : List (Token NanRat) :=
  [symbol .leftParen, operand (Double.ofNat 1), symbol .minus, operand (Double.ofNat 1),
    symbol .rightParen, symbol .question, operand (Double.ofNat 5), symbol .colon,
    ⟨.nodeRef, "a".toList, {}, Double.zero⟩, symbol .endOfFile]

/-- In `(1 - 1) ? 5 : <a>` the condition folds to `0`, and the lookup of `a` remains. -/
theorem zero_test_keeps_meaning : ∃ e : ExpressionTree NanRat, parse zeroTokens false = .ok e ∧
    ∀ context, evaluate context (.ref "a".toList {}) = evaluate context e := by
  have hsub : Double.sub (Double.ofNat 1) (Double.ofNat 1) = (Double.zero : NanRat) := by
    decide +kernel
  have hzero := truthValues_nanRat.zero_eq_zero
  have hnan : Double.isNan (Double.zero : NanRat) = false := by decide +kernel
  have hparse : parse zeroTokens false = .ok (.ternary (.binary .minus (.literal (Double.ofNat 1) {})
      (.literal (Double.ofNat 1) {}) {}) (.literal (Double.ofNat 5) {}) (.ref "a".toList {}) {}) := rfl
  refine ⟨_, hparse, (foldConstants_keeps_meaning_iff truthValues_nanRat hparse ?_).1 ?_⟩
  · simp [foldConstants, foldBinary, hsub, hzero]
  · simp [survivors, constantValue, foldBinary, hsub, hzero, NanTestHarmless, hnan]

end Instances

end StatForge.Dsl
