import StatForge.StatKernel.Histories

/-!
# The order of calls

* `Sheet.definition_of_change` — what a call makes of every definition.
* `Sheet.definition_of_run` — what a run of calls on different nodes makes of them, without regard to
  the order of the calls.
* `order_does_not_matter` — the same calls on different nodes, in two orders that both succeed, lead
  to the same definitions.
-/

namespace StatForge.StatKernel

open Relation Successors StepMachine Dsl StatForge.StatKernel.Graph

variable {D : Type} [Double D]

/-! ### What a call writes -/

/-- What a call makes of the definition of its own node. -/
def Op.writes : Op D → Option (Definition D) → Option (Definition D)
  | .createValueNode _ value, _ => some (.value value)
  | .createFormulaNode id text, _ =>
      match compileAst id text with
      | .ok (.ok ast) => some (.formula ast)
      | _ => none
  | .createCollectionNode _ dependencies operation, _ => some (.collection operation dependencies)
  | .setNodeValue _ value, some (.value stored) =>
      if Double.eq stored value then some (.value stored) else some (.value value)
  | .setNodeFormula id text, _ =>
      match compileAst id text with
      | .ok (.ok ast) => some (.formula ast)
      | _ => none
  | .setNodeDependencies _ dependencies, some (.collection operation _) =>
      some (.collection operation dependencies)
  | _, _ => none

/-- What a call does to the definitions of other nodes. -/
def Op.forgets : Op D → Definition D → Definition D
  | .removeNode id => Definition.without id
  | _ => fun own => own

/-- The nodes that a sequence of calls removes. -/
def removals (ops : List (Op D)) : List NodeId :=
  ops.filterMap fun op => match op with
    | .removeNode id => some id
    | _ => none

/-- The definition once all these nodes have gone. -/
def Definition.withoutAll (ids : List NodeId) : Definition D → Definition D
  | .collection operation dependencies =>
      .collection operation (dependencies.filter fun d => !ids.contains d)
  | own => own

namespace Sheet

variable {sheet sheet' final : Sheet D} {id n : NodeId} {op : Op D}

omit [Double D] in
theorem create_eq_ok {own : Definition D} (h : sheet.create id own = .ok sheet') :
    ∃ hacceptable, sheet' = sheet.define id own hacceptable := by
  unfold create at h
  split at h
  · cases h
  · exact tryDefine_eq_ok h

/-- **A call on one node** writes the definition of that node, and otherwise only forgets a removed
one. -/
theorem definition_of_change (htarget : op.target = some id)
    (h : sheet.change op = .ok (.ok sheet')) (n : NodeId) :
    sheet'.definition n =
      if n = id then op.writes (sheet.definition id) else (sheet.definition n).map op.forgets := by
  -- A new definition for the target leaves the other nodes alone.
  have hdefined {own : Definition D} (hwrites : op.writes (sheet.definition id) = some own)
      (hforgets : op.forgets = fun own => own)
      (hsheet : ∃ hacceptable, sheet' = sheet.define id own hacceptable) :
      sheet'.definition n =
        if n = id then op.writes (sheet.definition id) else (sheet.definition n).map op.forgets := by
    obtain ⟨hacceptable, rfl⟩ := hsheet
    rw [hwrites, hforgets, Option.map_id']
    exact Function.update_apply _ _ _ _
  cases op with
  | createValueNode m value =>
      cases htarget
      exact hdefined rfl rfl (create_eq_ok (Except.ok.inj h))
  | createFormulaNode m text =>
      cases htarget
      simp only [change] at h
      split at h
      · cases h
      · obtain ⟨ast, hcompile, hdefine⟩ := withTree_eq_ok h
        exact hdefined (by simp [Op.writes, hcompile]) rfl (tryDefine_eq_ok hdefine)
  | createCollectionNode m dependencies operation =>
      cases htarget
      simp only [change] at h
      split at h
      · exact hdefined rfl rfl (create_eq_ok (Except.ok.inj h))
      · cases h
  | setNodeValue m value =>
      cases htarget
      simp only [change] at h
      split at h
      · cases h
      · rename_i stored hstored
        split at h
        · rename_i heq
          obtain rfl := Except.ok.inj (Except.ok.inj h)
          by_cases hn : n = id
          · simp [hn, Op.writes, hstored, heq]
          · simp [hn, Op.forgets]
        · rename_i hne
          refine hdefined ?_ rfl (tryDefine_eq_ok (Except.ok.inj h))
          simp [Op.writes, hstored, hne]
      · cases h
  | setNodeFormula m text =>
      cases htarget
      simp only [change] at h
      split at h
      · cases h
      · obtain ⟨ast, hcompile, hdefine⟩ := withTree_eq_ok h
        exact hdefined (by simp [Op.writes, hcompile]) rfl (tryDefine_eq_ok hdefine)
      · cases h
  | setNodeDependencies m dependencies =>
      cases htarget
      simp only [change] at h
      split at h
      · cases h
      · rename_i operation before hbefore
        refine hdefined ?_ rfl (tryDefine_eq_ok (Except.ok.inj h))
        simp [Op.writes, hbefore]
      · cases h
  | removeNode m =>
      cases htarget
      simp only [change] at h
      split at h
      · cases h
      · split at h
        · obtain rfl := Except.ok.inj (Except.ok.inj h)
          rfl
        · cases h
  | _ => cases htarget

end Sheet

/-! ### Sequences of calls on different nodes -/

section Writes

variable {id n : NodeId} {op : Op D} {own : Definition D}

/-- What a call writes does not depend on what was removed before. -/
theorem Op.writes_forgets (op op' : Op D) (old : Option (Definition D)) :
    op.writes (old.map op'.forgets) = op.writes old := by
  cases op' with
  | removeNode id =>
      cases old with
      | none => rfl
      | some own => cases op <;> cases own <;> rfl
  | _ => simp [Op.forgets]

omit [Double D] in
theorem Definition.withoutAll_nil (own : Definition D) : own.withoutAll [] = own := by
  cases own <;> simp [withoutAll]

omit [Double D] in
theorem Definition.withoutAll_congr {ids ids' : List NodeId} (h : ∀ id, id ∈ ids ↔ id ∈ ids') :
    (Definition.withoutAll ids : Definition D → Definition D) = Definition.withoutAll ids' := by
  funext own
  cases own <;> simp [withoutAll, h]

omit [Double D] in
/-- Removing one more node, which the definition does not need. -/
theorem Definition.withoutAll_cons {ids : List NodeId}
    (h : id ∉ (own.withoutAll ids).dependencies) :
    own.withoutAll (id :: ids) = own.withoutAll ids := by
  cases own with
  | collection operation dependencies =>
      simp only [withoutAll, collection.injEq, true_and]
      apply List.filter_congr
      intro d hd
      by_cases hmem : d ∈ ids
      · simp [hmem]
      · have hne : d ≠ id := by
          rintro rfl
          exact h (List.mem_filter.mpr ⟨hd, by simpa using hmem⟩)
        simp [hne]
  | value stored => rfl
  | formula ast => rfl

omit [Double D] in
/-- Removing one node and then the others. -/
theorem Definition.withoutAll_without {ids : List NodeId} (h : own.dependencies.Nodup) :
    (own.without id).withoutAll ids = own.withoutAll (id :: ids) := by
  cases own with
  | collection operation dependencies =>
      have hnodup : dependencies.Nodup := h
      simp only [without, withoutAll, hnodup.erase_eq_filter, List.filter_filter]
      congr 2
      funext d
      by_cases hd : d = id <;> simp [hd]
  | value stored => rfl
  | formula ast => rfl

omit [Double D] in
/-- A call removes its target, or it removes and forgets nothing. -/
theorem Op.removes_or_not (htarget : op.target = some id) (ops : List (Op D)) :
    op = .removeNode id ∨
      (op.forgets = fun own => own) ∧ removals (op :: ops) = removals ops := by
  cases op with
  | removeNode m =>
      cases htarget
      exact Or.inl rfl
  | _ => exact Or.inr ⟨rfl, rfl⟩

end Writes

namespace Sheet

variable {sheet sheet' final : Sheet D} {ops : List (Op D)}

/-- A step of a run of successful calls on single nodes. -/
theorem run_cons_done {op : Op D} {id : NodeId} {answers : List (Answer D)}
    (htarget : op.target = some id) (hrun : run step sheet (op :: ops) = .ok (answers, final))
    (hdone : ∀ answer ∈ answers, answer = .done) :
    ∃ sheet' rest, sheet.change op = .ok (.ok sheet') ∧ run step sheet' ops = .ok (rest, final) ∧
      ∀ answer ∈ rest, answer = .done := by
  obtain ⟨answer, sheet', rest, hstep, hrest, rfl⟩ := run_cons_eq_ok hrun
  rw [hdone answer (by simp)] at hstep
  exact ⟨sheet', rest, change_of_step (Op.not_read_of_target htarget) hstep, hrest,
    fun answer hanswer => hdone answer (by simp [hanswer])⟩

/-- **The definitions after a run** of successful calls on different nodes: what the call on the node
writes, or else the old definition, in both cases without the nodes that were removed. -/
theorem definition_of_run {answers : List (Answer D)} (hnodup : (ops.map Op.target).Nodup)
    (htargets : none ∉ ops.map Op.target) (hrun : run step sheet ops = .ok (answers, final))
    (hdone : ∀ answer ∈ answers, answer = .done) (n : NodeId) :
    ((∀ op ∈ ops, op.target ≠ some n) →
      final.definition n = (sheet.definition n).map (Definition.withoutAll (removals ops))) ∧
    ∀ op ∈ ops, op.target = some n → final.definition n =
      (op.writes (sheet.definition n)).map (Definition.withoutAll (removals ops)) := by
  -- Induction on the calls; the removed nodes of the rest are known not to come back.
  induction ops generalizing sheet answers n with
  | nil =>
      cases hrun
      refine ⟨fun _ => ?_, by simp⟩
      have hid : (Definition.withoutAll (removals ([] : List (Op D)))) =
          (fun own : Definition D => own) := funext Definition.withoutAll_nil
      rw [hid, Option.map_id']
  | cons op ops ih =>
      obtain ⟨id, htarget⟩ := Option.ne_none_iff_exists'.mp
        (fun hnone => htargets (by simp [hnone]) : op.target ≠ none)
      obtain ⟨sheet', rest, hchange, hrest, hdone'⟩ := run_cons_done htarget hrun hdone
      have hwritten := definition_of_change htarget hchange
      rw [List.map_cons, List.nodup_cons, htarget] at hnodup
      have hother : ∀ op' ∈ ops, op'.target ≠ some id := fun op' hop' heq =>
        hnodup.1 (List.mem_map.mpr ⟨op', hop', heq⟩)
      have htargets' : none ∉ ops.map Op.target := fun hnone => htargets (by simp [hnone])
      have ih' (n : NodeId) := ih hnodup.2 htargets' hrest hdone' n
      have hself : final.definition id =
          (op.writes (sheet.definition id)).map (Definition.withoutAll (removals ops)) := by
        rw [(ih' id).1 hother, hwritten id, if_pos rfl]
      rcases Op.removes_or_not htarget ops with rfl | ⟨hforgets, hremovals⟩
      · have hgone : final.definition id = none := hself
        constructor
        · intro hall
          have hn : n ≠ id := fun heq => hall _ (by simp) (htarget.trans (congrArg some heq.symm))
          rw [(ih' n).1 fun op' hop' => hall op' (by simp [hop']), hwritten n, if_neg hn]
          cases hown : sheet.definition n with
          | none => rfl
          | some own => exact congrArg some (Definition.withoutAll_without (sheet.nodup n own hown))
        · intro op' hop' htarget'
          rcases List.mem_cons.mp hop' with rfl | hrest'
          · obtain rfl : id = n := Option.some.inj (htarget.symm.trans htarget')
            exact hself
          · have hn : n ≠ id := by
              rintro rfl
              exact hother op' hrest' htarget'
            have hfinal := (ih' n).2 op' hrest' htarget'
            rw [hwritten n, if_neg hn, Op.writes_forgets] at hfinal
            rw [hfinal]
            cases hown : op'.writes (sheet.definition n) with
            | none => rfl
            | some own =>
                rw [hown] at hfinal
                -- The node is gone at the end, so no definition there needs it.
                refine congrArg some (Definition.withoutAll_cons fun hmem => ?_).symm
                exact final.exist n id ⟨_, hfinal, hmem⟩ hgone
      · rw [hremovals]
        constructor
        · intro hall
          have hn : n ≠ id := fun heq => hall _ (by simp) (htarget.trans (congrArg some heq.symm))
          rw [(ih' n).1 fun op' hop' => hall op' (by simp [hop']), hwritten n, if_neg hn, hforgets,
            Option.map_id']
        · intro op' hop' htarget'
          rcases List.mem_cons.mp hop' with rfl | hrest'
          · obtain rfl : id = n := Option.some.inj (htarget.symm.trans htarget')
            exact hself
          · have hn : n ≠ id := by
              rintro rfl
              exact hother op' hrest' htarget'
            rw [(ih' n).2 op' hrest' htarget', hwritten n, if_neg hn, Op.writes_forgets]

/-- Two orders of the same calls. -/
theorem definition_of_perm {ops' : List (Op D)} (hperm : ops.Perm ops')
    {answers answers' : List (Answer D)} (hnodup : (ops.map Op.target).Nodup)
    (htargets : none ∉ ops.map Op.target) (hrun : run step sheet ops = .ok (answers, final))
    (hdone : ∀ answer ∈ answers, answer = .done)
    (hrun' : run step sheet ops' = .ok (answers', sheet'))
    (hdone' : ∀ answer ∈ answers', answer = .done) : final.definition = sheet'.definition := by
  have hmap := hperm.map Op.target
  have hremovals : (Definition.withoutAll (removals ops) : Definition D → Definition D) =
      Definition.withoutAll (removals ops') :=
    Definition.withoutAll_congr fun id => (hperm.filterMap _).mem_iff
  funext n
  have hfirst := definition_of_run hnodup htargets hrun hdone n
  have hsecond := definition_of_run (hmap.nodup_iff.mp hnodup)
    (fun hnone => htargets (hmap.mem_iff.mpr hnone)) hrun' hdone' n
  by_cases htarget : ∃ op ∈ ops, op.target = some n
  · obtain ⟨op, hop, htarget⟩ := htarget
    rw [hfirst.2 op hop htarget, hsecond.2 op (hperm.mem_iff.mp hop) htarget, hremovals]
  · push Not at htarget
    rw [hfirst.1 htarget, hsecond.1 fun op hop => htarget op (hperm.mem_iff.mpr hop), hremovals]

end Sheet

/-- **The order of calls on different nodes does not matter.**  If the same calls, each on a node of
its own, all succeed in two orders from a reachable kernel, then both orders end with the same
definitions, and no later calls but evaluation passes can tell which one it was. -/
theorem order_does_not_matter {kernel kernel₁ kernel₂ : StatKernel D} (hreach : Reachable kernel)
    {ops ops' : List (Op D)} (hperm : ops.Perm ops') (hnodup : (ops.map Op.target).Nodup)
    (htargets : none ∉ ops.map Op.target) {replies₁ replies₂ : List (Reply D)}
    (hrun₁ : run step kernel ops = .ok (replies₁, kernel₁))
    (hsuccess₁ : ∀ reply ∈ replies₁, reply = .result (.ok ()))
    (hrun₂ : run step kernel ops' = .ok (replies₂, kernel₂))
    (hsuccess₂ : ∀ reply ∈ replies₂, reply = .result (.ok ())) :
    kernel₁.graph.definition = kernel₂.graph.definition ∧
      ∀ later : List (Op D), (∀ op ∈ later, op ≠ .evaluate) →
        kernel₁.answers later = kernel₂.answers later := by
  have hrepresents := hreach.consistent.represents
  obtain ⟨sheet₁, hsheet₁, hrepresents₁⟩ := simulation.run_returned hrepresents hrun₁
  obtain ⟨sheet₂, hsheet₂, hrepresents₂⟩ := simulation.run_returned hrepresents hrun₂
  have hdone {replies : List (Reply D)} (hsuccess : ∀ reply ∈ replies, reply = .result (.ok ())) :
      ∀ answer ∈ replies.map Reply.answer, answer = .done := by
    intro answer hanswer
    obtain ⟨reply, hreply, rfl⟩ := List.mem_map.mp hanswer
    rw [hsuccess reply hreply]
    rfl
  have hdefinition : kernel₁.graph.definition = kernel₂.graph.definition := by
    rw [hrepresents₁.definition, hrepresents₂.definition]
    exact Sheet.definition_of_perm hperm hnodup htargets hsheet₁ (hdone hsuccess₁) hsheet₂
      (hdone hsuccess₂)
  exact ⟨hdefinition, fun later hlater => simulation.indistinguishable
    ⟨hrepresents₁.consistent, hdefinition.trans hrepresents₂.definition⟩ hrepresents₂ hlater⟩

private def priceId : NodeId := "price".toList
private def unitsId : NodeId := "units".toList
private def turnoverId : NodeId := "turnover".toList

private def turnoverCalls : List (Op NanRat) :=
  [.createValueNode priceId (Double.ofNat 2), .createValueNode unitsId (Double.ofNat 3),
    .createFormulaNode turnoverId "<price>".toList]

/-- A value is written and a formula changed. -/
private def newPrice : Op NanRat := .setNodeValue priceId (Double.ofNat 5)
private def newTurnover : Op NanRat := .setNodeFormula turnoverId "<price> * <units>".toList

theorem value_and_formula_in_either_order : ∃ replies₁ kernel₁ replies₂ kernel₂,
    run step (after turnoverCalls) [newPrice, newTurnover] = .ok (replies₁, kernel₁) ∧
    run step (after turnoverCalls) [newTurnover, newPrice] = .ok (replies₂, kernel₂) ∧
    kernel₁.graph.definition = kernel₂.graph.definition := by
  have hall {ops : List (Op NanRat)} {replies : List (Reply NanRat)} {kernel : StatKernel NanRat}
      (hrun : run step (after turnoverCalls) ops = .ok (replies, kernel))
      (h : ((run step (after turnoverCalls) ops).toOption.any (·.1.all Reply.isSuccess)) = true) :
      ∀ reply ∈ replies, reply = .result (.ok ()) := by
    rw [hrun] at h
    intro reply hreply
    have hsuccess := List.all_eq_true.mp h reply hreply
    obtain _ | ⟨_ | _⟩ | _ := reply <;> simp_all [Reply.isSuccess]
  obtain ⟨replies₁, kernel₁, hrun₁⟩ := exists_run step (after turnoverCalls)
    [newPrice, newTurnover] (by decide +kernel)
  obtain ⟨replies₂, kernel₂, hrun₂⟩ := exists_run step (after turnoverCalls)
    [newTurnover, newPrice] (by decide +kernel)
  exact ⟨replies₁, kernel₁, replies₂, kernel₂, hrun₁, hrun₂,
    (order_does_not_matter (reachable_after _) (List.Perm.swap _ _ _) (by decide) (by decide) hrun₁
      (hall hrun₁ (by decide +kernel)) hrun₂ (hall hrun₂ (by decide +kernel))).1⟩

end StatForge.StatKernel
