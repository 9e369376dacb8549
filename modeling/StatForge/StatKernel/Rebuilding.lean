import StatForge.StatKernel.Rearrangement

/-!
# Building a state again

* `Definition.Compiled`, `compiled_of_reachable` — every definition of a reachable kernel is one that
  a creation can make.
* `Sheet.built_by_creations` — a sheet of such definitions is built from below, node by node.
* `rebuilt_by_creations` — so is every reachable state, as far as any caller can tell.
-/

namespace StatForge.StatKernel

open Relation Successors StepMachine Dsl StatForge.StatKernel.Graph

variable {D : Type} [Double D]

/-- The calls that create a node. -/
def Op.creates : Op D → Bool
  | .createValueNode _ _ | .createFormulaNode _ _ | .createCollectionNode _ _ _ => true
  | _ => false

/-- A definition that a creation can make: a formula is the tree of some text, and a collection has
one of the seven operations. -/
def Definition.Compiled : Definition D → Prop
  | .value _ => True
  | .formula ast => ∃ text, ∀ id, compileAst (D := D) id text = .ok (.ok ast)
  | .collection operation _ => isValidCollectionOperation operation = true

/-- The name of the node is in the error message only. -/
theorem compileAst_congr {id : NodeId} {text : StdString} {ast : ExpressionTree D}
    (h : compileAst id text = .ok (.ok ast)) (id' : NodeId) :
    compileAst id' text = .ok (.ok ast) := by
  unfold compileAst at h ⊢
  cases htokens : (tokenize text : Result (List (Token D))) with
  | error info => rw [htokens] at h; cases h
  | ok tokens =>
      rw [htokens] at h
      dsimp only at h ⊢
      cases hparse : Parser.parse tokens with
      | ok tree => rwa [hparse] at h
      | error failure => rw [hparse] at h; cases failure <;> cases h

namespace Sheet

variable {sheet sheet' : Sheet D} {op : Op D} {id : NodeId} {own : Definition D}

omit [Double D] in
theorem without_of_notMem (h : id ∉ own.dependencies) : own.without id = own := by
  cases own with
  | collection operation dependencies =>
      exact congrArg (Definition.collection operation) (List.erase_of_not_mem h)
  | value stored => rfl
  | formula ast => rfl

theorem compiled_of_setNodeFormula {text : StdString}
    (h : (Op.setNodeFormula id text).writes none = some own) : own.Compiled := by
  simp only [Op.writes] at h
  split at h
  · rename_i ast hcompile
    obtain rfl := Option.some.inj h
    exact ⟨text, compileAst_congr hcompile⟩
  · cases h

theorem compiled_of_writes (hold : ∀ own, sheet.definition id = some own → own.Compiled)
    (htarget : op.target = some id) (hchange : sheet.change op = .ok (.ok sheet'))
    (hown : op.writes (sheet.definition id) = some own) : own.Compiled := by
  cases op with
  | createValueNode m value => cases hown; trivial
  | createFormulaNode m text => exact compiled_of_setNodeFormula hown
  | setNodeFormula m text => exact compiled_of_setNodeFormula hown
  | createCollectionNode m dependencies operation =>
      cases hown
      simp only [change] at hchange
      split at hchange
      · assumption
      · cases hchange
  | setNodeValue m value =>
      cases hcase : sheet.definition id with
      | none => rw [hcase] at hown; cases hown
      | some before =>
          rw [hcase] at hown
          cases before with
          | value stored =>
              simp only [Op.writes] at hown
              split at hown <;> (cases hown; trivial)
          | formula ast => cases hown
          | collection operation dependencies => cases hown
  | setNodeDependencies m dependencies =>
      cases hcase : sheet.definition id with
      | none => rw [hcase] at hown; cases hown
      | some before =>
          rw [hcase] at hown
          cases before with
          | value stored => cases hown
          | formula ast => cases hown
          | collection operation dependencies =>
              have hcompiled : isValidCollectionOperation operation = true := hold _ hcase
              cases hown
              exact hcompiled
  | removeNode m => cases hown
  | _ => cases htarget

theorem compiled_forgets (op : Op D) (h : own.Compiled) : (op.forgets own).Compiled := by
  cases op with
  | removeNode m => cases own <;> exact h
  | _ => exact h

/-- Every call keeps the definitions compiled. -/
theorem compiled_of_step (hall : ∀ n own, sheet.definition n = some own → own.Compiled)
    {answer : Answer D} (hstep : sheet.step op = .ok (answer, sheet')) :
    ∀ n own, sheet'.definition n = some own → own.Compiled := by
  cases htarget : op.target with
  | none =>
      cases op with
      | reset =>
          obtain ⟨-, rfl⟩ := Prod.mk.inj (Except.ok.inj hstep)
          intro n own hown
          cases hown
      | getNodeValue m => exact step_of_observer rfl hstep ▸ hall
      | evaluate => exact step_of_observer rfl hstep ▸ hall
      | setEvaluationType type => exact step_of_observer rfl hstep ▸ hall
      | _ => cases htarget
  | some id =>
      cases hchange : sheet.change op with
      | error reason =>
          rw [step_of_abort (Op.not_read_of_target htarget) hchange] at hstep
          cases hstep
      | ok verdict =>
          rw [step_of_change (Op.not_read_of_target htarget) hchange] at hstep
          cases verdict with
          | error code =>
              obtain ⟨-, rfl⟩ := Prod.mk.inj (Except.ok.inj hstep)
              exact hall
          | ok changed =>
              obtain ⟨-, rfl⟩ := Prod.mk.inj (Except.ok.inj hstep)
              intro n own hown
              rw [definition_of_change htarget hchange] at hown
              split at hown
              · exact compiled_of_writes (hall id) htarget hchange hown
              · obtain ⟨before, hbefore, rfl⟩ := Option.map_eq_some_iff.mp hown
                exact compiled_forgets op (hall n before hbefore)

omit [Double D] in
/-- If anything is defined at all, then something that nothing else needs is. -/
theorem exists_top (hid : sheet.Has id) : ∃ top, sheet.Has top ∧ ∀ n, ¬ sheet.Needs n top := by
  have hacyclic : Acyclic (Function.swap sheet.Needs) := by
    intro a ha
    exact sheet.acyclic a (transGen_swap.mp ha)
  have hclosed : ∀ a b, Function.swap sheet.Needs a b → b ∈ sheet.finite.toFinset := by
    rintro a b ⟨own, hown, -⟩
    exact sheet.finite.mem_toFinset.mpr (has_of_definition hown)
  obtain ⟨top, hpath, htop⟩ := hacyclic.exists_sink _ hclosed id
  refine ⟨top, ?_, htop⟩
  rcases hpath.cases_tail with rfl | ⟨_, -, hstep⟩
  · exact hid
  · exact sheet.finite.mem_toFinset.mp (hclosed _ _ hstep)

/-- The call that creates a node with a given definition. -/
theorem exists_creation (hcompiled : own.Compiled) (hnew : ¬ sheet.Has id)
    (hacceptable : sheet.Acceptable id own.dependencies) :
    ∃ op : Op D, op.creates = true ∧ op.target = some id ∧
      sheet.step op = .ok (.done, sheet.define id own hacceptable) := by
  have hcreate : sheet.create id own = .ok (sheet.define id own hacceptable) := by
    rw [create, if_neg hnew, tryDefine_of_acceptable hacceptable]
  cases own with
  | value stored =>
      have hchange : sheet.change (.createValueNode id stored) =
          .ok (.ok (sheet.define id (.value stored) hacceptable)) := congrArg Except.ok hcreate
      exact ⟨_, rfl, rfl, step_of_change (by simp) hchange⟩
  | formula ast =>
      obtain ⟨text, htext⟩ := hcompiled
      have hchange : sheet.change (.createFormulaNode id text) =
          .ok (.ok (sheet.define id (.formula ast) hacceptable)) := by
        rw [change, if_neg hnew, withTree_of_ok (htext id), tryDefine_of_acceptable hacceptable]
      exact ⟨_, rfl, rfl, step_of_change (by simp) hchange⟩
  | collection operation dependencies =>
      have hchange : sheet.change (.createCollectionNode id dependencies operation) =
          .ok (.ok (sheet.define id (.collection operation dependencies) hacceptable)) := by
        have hvalid : isValidCollectionOperation operation = true := hcompiled
        rw [change, if_pos hvalid, hcreate]
      exact ⟨_, rfl, rfl, step_of_change (by simp) hchange⟩

omit [Double D] in
/-- Removing a node that nothing needs. -/
theorem definition_remove_top {top : NodeId} (hremovable : sheet.Removable top)
    (htop : ∀ n, ¬ sheet.Needs n top) (n : NodeId) :
    (sheet.remove top hremovable).definition n = if n = top then none else sheet.definition n := by
  unfold remove dropDefinition
  dsimp only
  split
  · rfl
  · cases hown : sheet.definition n with
    | none => rfl
    | some own =>
        exact congrArg some (without_of_notMem fun hmem => htop n ⟨own, hown, hmem⟩)

/-- **A sheet is built by creations**, one for each of its nodes. -/
theorem built_by_creations (sheet : Sheet D)
    (hall : ∀ n own, sheet.definition n = some own → own.Compiled) :
    ∃ ops answers, (∀ op ∈ ops, op.creates = true) ∧ (ops.map Op.target).Nodup ∧
      (∀ n, some n ∈ ops.map Op.target ↔ sheet.Has n) ∧
      run step empty ops = .ok (answers, sheet) ∧ ∀ answer ∈ answers, answer = .done := by
  -- Induction on the number of nodes; the last creation is that of a node that nothing needs.
  induction hcard : sheet.finite.toFinset.card using Nat.strong_induction_on generalizing sheet with
  | _ size ih =>
      by_cases hempty : ∀ n, sheet.definition n = none
      · have hsheet : sheet = empty := Sheet.ext (funext hempty)
        subst hsheet
        exact ⟨[], [], by simp, by simp, by simp [Has, empty], rfl, by simp⟩
      · push Not at hempty
        obtain ⟨id, hid⟩ := hempty
        obtain ⟨top, hhas, htop⟩ := exists_top hid
        obtain ⟨own, hown⟩ := Option.ne_none_iff_exists'.mp hhas
        have hremovable : sheet.Removable top :=
          fun n ast hast hmem => htop n ⟨.formula ast, hast, hmem⟩
        have hrest := definition_remove_top hremovable htop
        have hgone : ¬ (sheet.remove top hremovable).Has top := by simp [Has, hrest]
        have hother {n : NodeId} (hn : n ≠ top) :
            (sheet.remove top hremovable).Has n ↔ sheet.Has n := by simp [Has, hrest, hn]
        have hfewer : (sheet.remove top hremovable).finite.toFinset.card < size := by
          rw [← hcard]
          apply Finset.card_lt_card
          rw [Finset.ssubset_iff_of_subset]
          · exact ⟨top, sheet.finite.mem_toFinset.mpr hhas,
              fun hmem => hgone ((sheet.remove top hremovable).finite.mem_toFinset.mp hmem)⟩
          · intro n hn
            have hmem : (sheet.remove top hremovable).Has n :=
              (sheet.remove top hremovable).finite.mem_toFinset.mp hn
            have hne : n ≠ top := fun heq => hgone (heq ▸ hmem)
            exact sheet.finite.mem_toFinset.mpr ((hother hne).mp hmem)
        obtain ⟨ops, answers, hcreates, hnodup, htargets, hrun, hdone⟩ :=
          ih _ hfewer (sheet.remove top hremovable) (fun n own' hown' => by
            rw [hrest] at hown'
            split at hown'
            · cases hown'
            · exact hall n own' hown') rfl
        have hacceptable : (sheet.remove top hremovable).Acceptable top own.dependencies := by
          have hne : ∀ d ∈ own.dependencies, d ≠ top :=
            fun d hd heq => htop top ⟨own, hown, heq ▸ hd⟩
          refine ⟨fun d hd => (hother (hne d hd)).mpr (sheet.exist top d ⟨own, hown, hd⟩),
            fun hself => hne top hself rfl, fun d hd hpath => ?_, sheet.nodup top own hown⟩
          rcases hpath.cases_tail with heq | ⟨x, -, hstep⟩
          · exact hne d hd heq.symm
          · exact hgone ((sheet.remove top hremovable).exist x top hstep)
        obtain ⟨op, hop, htarget, hstep⟩ := exists_creation (hall top own hown) hgone hacceptable
        have hsheet : (sheet.remove top hremovable).define top own hacceptable = sheet := by
          apply Sheet.ext
          funext n
          by_cases hn : n = top
          · rw [hn, hown]
            exact Function.update_self _ _ _
          · have hupdate := Function.update_of_ne hn (some own) (sheet.remove top hremovable).definition
            exact hupdate.trans (by rw [hrest, if_neg hn])
        rw [hsheet] at hstep
        refine ⟨ops ++ [op], answers ++ [.done], ?_, ?_, ?_, ?_, ?_⟩
        · simpa [hop, or_imp, forall_and] using hcreates
        · rw [List.map_append, List.nodup_append]
          refine ⟨hnodup, by simp, ?_⟩
          rintro _ hmem _ hlast rfl
          have hlast' : some top ∈ ops.map Op.target := by
            rw [← htarget, ← List.mem_singleton.mp hlast]
            exact hmem
          exact hgone ((htargets top).mp hlast')
        · intro n
          rw [List.map_append, List.mem_append, htargets n]
          by_cases hn : n = top
          · simp [hn, htarget, hhas]
          · simp [hother hn, htarget, hn]
        · refine run_append_ok hrun ?_
          rw [run_cons_ok hstep]
          rfl
        · intro answer hanswer
          rcases List.mem_append.mp hanswer with hmem | hmem
          · exact hdone answer hmem
          · exact List.mem_singleton.mp hmem

end Sheet

theorem compiled_of_reachable {kernel : StatKernel D} (hreach : Reachable kernel) :
    ∀ n own, kernel.graph.definition n = some own → own.Compiled := by
  have hinvariant : kernel.Consistent ∧
      ∀ n own, kernel.graph.definition n = some own → own.Compiled := by
    refine Reachable.invariant
      (fun kernel => kernel.Consistent ∧ ∀ n own, kernel.graph.definition n = some own → own.Compiled)
      ⟨.fresh, ?_⟩ ?_ hreach
    · intro n own hown
      simp [fresh, Graph.definition] at hown
    · intro kernel op reply next h _ hstep
      obtain ⟨sheet, hsheet, hnext⟩ := step_returned h.1.represents hstep
      refine ⟨hnext.consistent, ?_⟩
      rw [hnext.definition]
      exact Sheet.compiled_of_step h.2 hsheet
  exact hinvariant.2

/-- The replies of a run of calls on single nodes that is answered as done are successes. -/
theorem replies_of_done {kernel final : StatKernel D} {ops : List (Op D)}
    {replies : List (Reply D)} (htargets : none ∉ ops.map Op.target)
    (hrun : run step kernel ops = .ok (replies, final))
    (hdone : ∀ reply ∈ replies, reply.answer = .done) :
    ∀ reply ∈ replies, reply = .result (.ok ()) := by
  induction ops generalizing kernel replies with
  | nil =>
      cases hrun
      simp
  | cons op ops ih =>
      obtain ⟨reply, next, rest, hstep, hrest, rfl⟩ := run_cons_eq_ok hrun
      obtain ⟨id, htarget⟩ := Option.ne_none_iff_exists'.mp
        (fun hnone => htargets (by simp [hnone]) : op.target ≠ none)
      intro answered hmem
      rcases List.mem_cons.mp hmem with rfl | hmem
      · exact reply_of_done htarget hstep (hdone _ (by simp))
      · exact ih (fun hnone => htargets (by simp [hnone])) hrest
          (fun reply hreply => hdone reply (by simp [hreply])) answered hmem

/-- **Every reachable state can be built again.**  A run of creations, one for each node, succeeds and
leads to a kernel that no later calls but evaluation passes can tell from the given one. -/
theorem rebuilt_by_creations {kernel : StatKernel D} (hreach : Reachable kernel) :
    ∃ (ops : List (Op D)) (replies : List (Reply D)) (rebuilt : StatKernel D),
      (∀ op ∈ ops, op.creates = true) ∧ (ops.map Op.target).Nodup ∧
      (∀ id, some id ∈ ops.map Op.target ↔ id ∈ kernel.graph.nodes) ∧
      run step fresh ops = .ok (replies, rebuilt) ∧
      (∀ reply ∈ replies, reply = .result (.ok ())) ∧
      ∀ later : List (Op D), (∀ op ∈ later, op ≠ .evaluate) →
        rebuilt.answers later = kernel.answers later := by
  have hrepresents := hreach.consistent.represents
  obtain ⟨ops, answers, hcreates, hnodup, htargets, hrun, hdone⟩ :=
    Sheet.built_by_creations (kernel.graph.sheet hreach.consistent.sound)
      (compiled_of_reachable hreach)
  have htargeted : none ∉ ops.map Op.target := by
    intro hmem
    obtain ⟨op, hop, hnone⟩ := List.mem_map.mp hmem
    have hcreate := hcreates op hop
    cases op <;> simp [Op.target, Op.creates] at hnone hcreate
  have hpassless : ∀ op ∈ ops, op ≠ .evaluate := by
    rintro op hop rfl
    exact absurd (hcreates _ hop) (by simp [Op.creates])
  obtain ⟨replies, rebuilt, hrun', hreplies, hrebuilt⟩ :=
    simulation.run_exists Represents.fresh hpassless hrun
  refine ⟨ops, replies, rebuilt, hcreates, hnodup, fun id => ?_, hrun', ?_, fun later hlater => ?_⟩
  · rw [htargets id, hrepresents.has_iff]
  · refine replies_of_done htargeted hrun' fun reply hreply => hdone _ ?_
    rw [← hreplies]
    exact List.mem_map_of_mem hreply
  · exact simulation.indistinguishable hrebuilt hrepresents hlater

/-- A formula that was changed after its creation. -/
private def revisedCalls : List (Op NanRat) :=
  [.createValueNode ['x'] (Double.ofNat 4), .createFormulaNode ['y'] "<x> + 1".toList,
    .getNodeValue ['y'], .setNodeFormula ['y'] "<x> * 2".toList]

theorem revised_state_is_rebuilt : ∃ (ops : List (Op NanRat)) (rebuilt : StatKernel NanRat),
    (∀ op ∈ ops, op.creates = true) ∧
      rebuilt.answers [.getNodeValue ['y']] = (after revisedCalls).answers [.getNodeValue ['y']] := by
  obtain ⟨ops, _, rebuilt, hcreates, -, -, -, -, hsame⟩ :=
    rebuilt_by_creations (reachable_after revisedCalls)
  exact ⟨ops, rebuilt, hcreates, hsame _ (by simp)⟩

end StatForge.StatKernel
