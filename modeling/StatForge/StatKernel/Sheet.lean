import Mathlib.Data.Set.Finite.Basic
import StatForge.Lib.Successors
import StatForge.StatKernel.Definitions
import StatForge.StatKernel.StatKernel

/-!
# The sheet

What the kernel is for, without its cache.  A sheet has the definitions of its nodes and nothing
else: no stored results, no dirty flags, no list of leaves and no map of dependents.  Its values are
those that the definitions yield, and the questions that the kernel answers by searching its maps are
put to the dependency relation itself.

* `Sheet` — finitely many definitions, which refer to existing nodes and to none in a circle.
* `Sheet.Yields` — the value of a node, from the values of all nodes that its definition needs.
* `Sheet.step` — the calls of the kernel, answered by a sheet.
-/

namespace StatForge.StatKernel

open Relation Successors Dsl

variable {D : Type}

namespace Definition

/-- The nodes that a definition needs.  All of them are computed before it is evaluated, whether or not
the evaluation then reads them. -/
def dependencies : Definition D → List NodeId
  | .value _ => []
  | .formula ast => extractDependencies ast
  | .collection _ dependencies => dependencies

/-- The definition once the node `id` has gone. -/
def without (id : NodeId) : Definition D → Definition D
  | .collection operation dependencies => .collection operation (dependencies.erase id)
  | own => own

theorem reads_subset {own : Definition D} {d : NodeId} (hd : d ∈ own.reads) :
    d ∈ own.dependencies := by
  cases own with
  | value stored => exact hd
  | formula ast => exact mem_extractDependencies.mpr hd
  | collection operation dependencies => exact hd

end Definition

/-- The definition of `n` needs the node `d`. -/
def Needs (definition : NodeId → Option (Definition D)) (n d : NodeId) : Prop :=
  ∃ own, definition n = some own ∧ d ∈ own.dependencies

/-- Finitely many definitions that refer to existing nodes, and to none in a circle. -/
@[ext] structure Sheet (D : Type) where
  definition : NodeId → Option (Definition D)
  finite : {id | definition id ≠ none}.Finite
  exist : ∀ n d, Needs definition n d → definition d ≠ none
  acyclic : Acyclic (Needs definition)
  nodup : ∀ id own, definition id = some own → own.dependencies.Nodup

namespace Sheet

variable {sheet : Sheet D} {id n d : NodeId} {own : Definition D}

def Has (sheet : Sheet D) (id : NodeId) : Prop := sheet.definition id ≠ none

abbrev Needs (sheet : Sheet D) : NodeId → NodeId → Prop := StatKernel.Needs sheet.definition

theorem has_of_definition (h : sheet.definition id = some own) : sheet.Has id := by
  rw [Has, h]
  exact Option.some_ne_none own

/-! ### Changing a sheet -/

def empty : Sheet D where
  definition _ := none
  finite := by simp
  exist n d h := by
    obtain ⟨own, hown, -⟩ := h
    cases hown
  acyclic a ha := by
    obtain ⟨b, hb, -⟩ := TransGen.head'_iff.mp ha
    obtain ⟨own, hown, -⟩ := hb
    cases hown
  nodup id own hown := by cases hown

/-- The node `id` may be given a definition with these dependencies. -/
structure Acceptable (sheet : Sheet D) (id : NodeId) (dependencies : List NodeId) : Prop where
  exist : ∀ d ∈ dependencies, sheet.Has d
  self : id ∉ dependencies
  noPath : ∀ d ∈ dependencies, ¬ ReflTransGen sheet.Needs d id
  nodup : dependencies.Nodup

theorem Acceptable.nil (sheet : Sheet D) (id : NodeId) : sheet.Acceptable id [] :=
  ⟨by simp, by simp, by simp, List.nodup_nil⟩

/-- A new definition redirects the needs of its node. -/
theorem needs_update (definition : NodeId → Option (Definition D)) (id : NodeId)
    (own : Definition D) :
    StatKernel.Needs (Function.update definition id (some own)) =
      redirect (StatKernel.Needs definition) id (· ∈ own.dependencies) := by
  funext n d
  apply propext
  by_cases hn : n = id
  · subst hn
    simp [StatKernel.Needs, redirect]
  · simp [StatKernel.Needs, redirect, hn]

/-- Give the node `id` a new definition, its first one or another one. -/
def define (sheet : Sheet D) (id : NodeId) (own : Definition D)
    (h : sheet.Acceptable id own.dependencies) : Sheet D where
  definition := Function.update sheet.definition id (some own)
  finite := by
    refine (sheet.finite.insert id).subset fun n hn => ?_
    by_cases hid : n = id
    · exact Or.inl hid
    · exact Or.inr (by simpa [hid] using hn)
  exist n d hneeds := by
    rw [needs_update] at hneeds
    have hhas : sheet.definition d ≠ none := by
      rcases hneeds with ⟨-, hd⟩ | ⟨-, hneeds⟩
      · exact h.exist d hd
      · exact sheet.exist n d hneeds
    by_cases hid : d = id
    · simp [hid]
    · simpa [hid] using hhas
  acyclic := by
    rw [needs_update]
    exact (acyclic_redirect_iff sheet.acyclic id _).mpr h.noPath
  nodup n own' hown' := by
    by_cases hn : n = id
    · rw [hn, Function.update_self] at hown'
      exact Option.some.inj hown' ▸ h.nodup
    · rw [Function.update_of_ne hn] at hown'
      exact sheet.nodup n own' hown'

/-- No formula refers to the node. -/
def Removable (sheet : Sheet D) (id : NodeId) : Prop :=
  ∀ n ast, sheet.definition n = some (.formula ast) → id ∉ extractDependencies ast

/-- The definitions without the node `id`. -/
def dropDefinition (definition : NodeId → Option (Definition D)) (id n : NodeId) :
    Option (Definition D) :=
  if n = id then none else (definition n).map (Definition.without id)

theorem needs_dropDefinition (h : StatKernel.Needs (dropDefinition sheet.definition id) n d) :
    sheet.Needs n d := by
  obtain ⟨own, hown, hd⟩ := h
  unfold dropDefinition at hown
  split at hown
  · cases hown
  · obtain ⟨before, hbefore, rfl⟩ := Option.map_eq_some_iff.mp hown
    refine ⟨before, hbefore, ?_⟩
    cases before with
    | collection operation dependencies => exact List.mem_of_mem_erase hd
    | value stored => exact hd
    | formula ast => exact hd

/-- Take the node `id` out of the sheet, and out of the collections that list it. -/
def remove (sheet : Sheet D) (id : NodeId) (h : sheet.Removable id) : Sheet D where
  definition := dropDefinition sheet.definition id
  finite := by
    refine sheet.finite.subset fun n hn hnone => hn ?_
    simp [dropDefinition, hnone]
  exist n d hneeds := by
    have hhas := sheet.exist n d (needs_dropDefinition hneeds)
    obtain ⟨own, hown, hd⟩ := hneeds
    unfold dropDefinition at hown ⊢
    split at hown
    · cases hown
    · obtain ⟨before, hbefore, rfl⟩ := Option.map_eq_some_iff.mp hown
      rw [if_neg]
      · simpa using hhas
      · -- A formula does not refer to the node, and a collection has lost it.
        rintro rfl
        cases before with
        | value stored => exact List.not_mem_nil hd
        | formula ast => exact h n ast hbefore hd
        | collection operation dependencies =>
            exact (sheet.nodup n _ hbefore).not_mem_erase hd
  acyclic := sheet.acyclic.mono fun n d => needs_dropDefinition
  nodup n own hown := by
    unfold dropDefinition at hown
    split at hown
    · cases hown
    · obtain ⟨before, hbefore, rfl⟩ := Option.map_eq_some_iff.mp hown
      have hnodup := sheet.nodup n before hbefore
      cases before with
      | value stored => exact hnodup
      | formula ast => exact hnodup
      | collection operation dependencies => exact hnodup.erase id

/-! ### Objections -/

open Classical in
/-- The objection to one dependency of `id`. -/
noncomputable def objectionTo (sheet : Sheet D) (id d : NodeId) : Option ErrorCode :=
  if d = id then some .selfReference
  else if ¬ sheet.Has d then some .dependencyDoesntExist
  else if ReflTransGen sheet.Needs d id then some .dependencyLoop
  else none

/-- The objection to a list of dependencies: the first one that is not possible decides, and a
duplicate comes last. -/
noncomputable def objection (sheet : Sheet D) (id : NodeId) (dependencies : List NodeId) :
    Option ErrorCode :=
  (dependencies.findSome? (sheet.objectionTo id)).or
    (if dependencies.Nodup then none else some .duplicateDependency)

theorem objectionTo_eq_none : sheet.objectionTo id d = none ↔
    d ≠ id ∧ sheet.Has d ∧ ¬ ReflTransGen sheet.Needs d id := by
  unfold objectionTo
  split_ifs with hself hhas hpath <;> simp_all

theorem objection_eq_none {dependencies : List NodeId} :
    sheet.objection id dependencies = none ↔ sheet.Acceptable id dependencies := by
  have hnodup : (if dependencies.Nodup then none else some ErrorCode.duplicateDependency) = none ↔
      dependencies.Nodup := by split <;> simp_all
  rw [objection, Option.or_eq_none_iff, List.findSome?_eq_none_iff, hnodup]
  simp only [objectionTo_eq_none]
  constructor
  · rintro ⟨hall, hdistinct⟩
    exact ⟨fun d hd => (hall d hd).2.1, fun hself => (hall id hself).1 rfl,
      fun d hd => (hall d hd).2.2, hdistinct⟩
  · rintro ⟨hexist, hself, hpath, hdistinct⟩
    refine ⟨fun d hd => ⟨?_, hexist d hd, hpath d hd⟩, hdistinct⟩
    rintro rfl
    exact hself hd

/-- Define the node `id`, unless there is an objection. -/
noncomputable def tryDefine (sheet : Sheet D) (id : NodeId) (own : Definition D) :
    Except ErrorCode (Sheet D) :=
  match h : sheet.objection id own.dependencies with
  | none => .ok (sheet.define id own (objection_eq_none.mp h))
  | some code => .error code

theorem tryDefine_of_objection (own : Definition D) {code : ErrorCode}
    (h : sheet.objection id own.dependencies = some code) : sheet.tryDefine id own = .error code := by
  unfold tryDefine
  split <;> simp_all

theorem tryDefine_of_acceptable {own : Definition D}
    (h : sheet.Acceptable id own.dependencies) :
    sheet.tryDefine id own = .ok (sheet.define id own h) := by
  have hnone := objection_eq_none.mpr h
  unfold tryDefine
  split <;> simp_all

open Classical in
noncomputable def create (sheet : Sheet D) (id : NodeId) (own : Definition D) :
    Except ErrorCode (Sheet D) :=
  if sheet.Has id then .error .nodeAlreadyExists else sheet.tryDefine id own

/-! ### Values -/

variable [Double D]

/-- The node yields a value if all nodes that its definition needs do, and its definition evaluates to
that value over theirs. -/
inductive Yields (sheet : Sheet D) : NodeId → D → Prop
  | intro {id : NodeId} {own : Definition D} {value : D} (values : NodeId → D)
      (hown : sheet.definition id = some own)
      (hneeds : ∀ d ∈ own.dependencies, Yields sheet d (values d))
      (heval : own.eval (fun d => .ok (values d)) = .ok value) : Yields sheet id value

theorem Yields.has {value : D} (h : sheet.Yields id value) : sheet.Has id := by
  cases h with
  | intro _ hown => exact has_of_definition hown

/-- A node yields one value. -/
theorem Yields.unique {value value' : D} (h : sheet.Yields id value) (h' : sheet.Yields id value') :
    value = value' := by
  induction h generalizing value' with
  | intro values hown _ heval ih =>
      cases h' with
      | intro values' hown' hneeds' heval' =>
          obtain rfl := Option.some.inj (hown.symm.trans hown')
          -- The definition reads only what it needs, and there both evaluations agree.
          have hcongr : ∀ d ∈ Definition.reads _, (Except.ok (values d) : Except Abort D) =
              .ok (values' d) := fun d hd =>
            congrArg _ (ih d (Definition.reads_subset hd) (hneeds' d (Definition.reads_subset hd)))
          rw [Definition.eval_congr hcongr, heval'] at heval
          exact (Except.ok.inj heval).symm

/-- Everything below a node with a value has a value. -/
theorem Yields.reached {value : D} (h : sheet.Yields id value)
    (hpath : ReflTransGen sheet.Needs id n) : ∃ value', sheet.Yields n value' := by
  induction hpath with
  | refl => exact ⟨value, h⟩
  | tail _ hstep ih =>
      obtain ⟨_, hvalue⟩ := ih
      obtain ⟨own, hown, hd⟩ := hstep
      cases hvalue with
      | intro values hown' hneeds =>
          obtain rfl := Option.some.inj (hown.symm.trans hown')
          exact ⟨_, hneeds _ hd⟩

/-! ### Answers -/

/-- What a caller sees of a reply: the value or the error code, without the text of the message. -/
inductive Answer (D : Type)
  | done
  | failed (code : ErrorCode)
  | value (value : D)

/-- Compile a formula text and go on with its tree. -/
def withTree (id : NodeId) (text : StdString)
    (next : ExpressionTree D → Except ErrorCode (Sheet D)) :
    Except Abort (Except ErrorCode (Sheet D)) := do
  match ← compileAst id text with
  | .error info => .ok (.error info.errorCode)
  | .ok ast => .ok (next ast)

open Classical in
/-- What a call makes of the sheet, or the code with which it is refused. -/
noncomputable def change (sheet : Sheet D) : Op D → Except Abort (Except ErrorCode (Sheet D))
  | .createValueNode id value => .ok (sheet.create id (.value value))
  | .createFormulaNode id text =>
      if sheet.Has id then .ok (.error .nodeAlreadyExists)
      else withTree id text fun ast => sheet.tryDefine id (.formula ast)
  | .createCollectionNode id dependencies operation =>
      if isValidCollectionOperation operation then
        .ok (sheet.create id (.collection operation dependencies))
      else .ok (.error .invalidCollectionOperation)
  | .setNodeValue id value =>
      match sheet.definition id with
      | none => .ok (.error .nodeNotFound)
      -- A value that compares equal is not written: negative zero does not replace zero.
      | some (.value stored) =>
          if Double.eq stored value then .ok (.ok sheet) else .ok (sheet.tryDefine id (.value value))
      | some _ => .ok (.error .nodeTypeMismatch)
  | .setNodeFormula id text =>
      match sheet.definition id with
      | none => .ok (.error .nodeNotFound)
      | some (.formula _) => withTree id text fun ast => sheet.tryDefine id (.formula ast)
      | some _ => .ok (.error .nodeTypeMismatch)
  | .setNodeDependencies id dependencies =>
      match sheet.definition id with
      | none => .ok (.error .nodeNotFound)
      | some (.collection operation _) =>
          .ok (sheet.tryDefine id (.collection operation dependencies))
      | some _ => .ok (.error .nodeTypeMismatch)
  | .removeNode id =>
      if ¬ sheet.Has id then .ok (.error .nodeNotFound)
      else if h : sheet.Removable id then .ok (.ok (sheet.remove id h))
      else .ok (.error .dependentFormulaNode)
  | .reset => .ok (.ok empty)
  | .getNodeValue _ | .evaluate | .setEvaluationType _ => .ok (.ok sheet)

open Classical in
/-- Reading a node: the value that it yields. -/
noncomputable def read (sheet : Sheet D) (id : NodeId) : Except Abort (Answer D) :=
  if ¬ sheet.Has id then .ok (.failed .nodeNotFound)
  else if h : ∃ value, sheet.Yields id value then .ok (.value h.choose)
  else .error .unreachable

/-- A refused call leaves the sheet as it is. -/
def conclude (sheet : Sheet D) : Except ErrorCode (Sheet D) → Answer D × Sheet D
  | .ok sheet' => (.done, sheet')
  | .error code => (.failed code, sheet)

/-- A call of the kernel, answered by the sheet. -/
noncomputable def step (sheet : Sheet D) (op : Op D) : Except Abort (Answer D × Sheet D) :=
  match op with
  | .getNodeValue id => (·, sheet) <$> sheet.read id
  | op => sheet.conclude <$> sheet.change op

theorem read_of_yields {value : D} (h : sheet.Yields id value) :
    sheet.read id = .ok (.value value) := by
  have hexists : ∃ value, sheet.Yields id value := ⟨value, h⟩
  rw [read, if_neg (not_not.mpr h.has), dif_pos hexists, hexists.choose_spec.unique h]

end Sheet

end StatForge.StatKernel
