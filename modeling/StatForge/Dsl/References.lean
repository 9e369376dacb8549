import StatForge.Dsl.Evaluator
import StatForge.Lib.ExceptBind
import StatForge.NanRat

/-!
# References of a tree

* `mem_extractDependencies`, `pairwise_extractDependencies` — the queue loop ends, and its result
  lists the names of the references in strictly increasing order.
* `evaluate_congr` — evaluation depends on the lookup at these names only.
* `extractDependencies_determine` — both together, for the list that extraction returns.
* `evaluate_error` — where the lookup succeeds on them, evaluation ends in a value or reaches
  `unreachable()`.
-/

namespace StatForge.Dsl

open ExpressionTree ExceptBind

variable {D : Type}

/-! ### Extraction -/

theorem sortUnique_eq_dedup (names : List NodeId) :
    sortUnique names = (names.insertionSort (· ≤ ·)).dedup :=
  (List.pairwise_insertionSort (· ≤ ·) names).destutter_eq_dedup

theorem mem_sortUnique {name : NodeId} {names : List NodeId} :
    name ∈ sortUnique names ↔ name ∈ names := by
  rw [sortUnique_eq_dedup, List.mem_dedup, List.mem_insertionSort]

theorem pairwise_sortUnique (names : List NodeId) : (sortUnique names).Pairwise (· < ·) := by
  have hsorted : (sortUnique names).Pairwise (· ≤ ·) :=
    (List.pairwise_insertionSort (· ≤ ·) names).sublist (List.destutter_sublist _ _)
  have hnodup : (sortUnique names).Nodup := by
    rw [sortUnique_eq_dedup]
    exact List.nodup_dedup _
  exact hsorted.imp₂ (fun _ _ hle hne => lt_of_le_of_ne hle hne) hnodup

/-- The queue loop visits every node of the tree once and ends. -/
theorem extract_run (e : ExpressionTree D) :
    ∃ names, FuelLoop.run extractStep (e.size + 1) ([], [e]) = some names ∧
      ∀ name, name ∈ names ↔ name ∈ e.refs := by
  refine FuelLoop.run_spec
    (fun state => ∀ name, name ∈ state.1 ∨ name ∈ refsArgs state.2 ↔ name ∈ e.refs) _
    (fun state => sizeArgs state.2) ?_ ?_ ?_ ?_
  · rintro ⟨dependencies, queue⟩ names hinv hstep
    cases queue with
    | nil =>
        obtain rfl := Sum.inl.inj hstep
        simpa [refsArgs] using hinv
    | cons current queue => cases hstep
  · rintro ⟨dependencies, queue⟩ next hinv hstep
    cases queue with
    | nil => cases hstep
    | cons current queue =>
        obtain rfl := Sum.inr.inj hstep
        constructor
        · intro name
          have hcurrent := mem_refs_iff name current
          rw [← hinv name]
          simp only [mem_refsArgs, List.mem_append, List.mem_cons, or_and_right, exists_or,
            exists_eq_left] at hcurrent ⊢
          rw [hcurrent]
          grind
        · simp only [sizeArgs_append, sizeArgs, size_eq current]
          omega
  · intro name
    simp
  · simp [sizeArgs]

theorem mem_extractDependencies {name : NodeId} {e : ExpressionTree D} :
    name ∈ extractDependencies e ↔ name ∈ e.refs := by
  obtain ⟨names, hrun, hnames⟩ := extract_run e
  rw [extractDependencies, hrun, Option.getD_some, mem_sortUnique, hnames]

theorem pairwise_extractDependencies (e : ExpressionTree D) :
    (extractDependencies e).Pairwise (· < ·) :=
  pairwise_sortUnique _

/-- A name that no node of the tree refers to does not occur in it. -/
theorem all_notMem_refName {name : NodeId} {e : ExpressionTree D} :
    e.all (fun node => name ∉ node.refName) = true ↔ name ∉ e.refs := by
  induction hsize : e.size using Nat.strong_induction_on generalizing e with
  | _ size ih =>
      rw [all_iff, mem_refs_iff, not_or, decide_eq_true_eq, mem_refsArgs, not_exists]
      apply and_congr_right
      intro _
      apply forall_congr'
      intro child
      rw [not_and]
      apply imp_congr_right
      intro hchild
      exact ih child.size (hsize ▸ size_lt_of_mem_children hchild) rfl

/-! ### Evaluation reads the references -/

variable [Double D] {lookup lookup' : StdString → Except Abort D}

/-- Evaluation under two lookups that agree on the references of the tree. -/
theorem evaluate_congr {e : ExpressionTree D} (h : ∀ name ∈ e.refs, lookup name = lookup' name) :
    evaluate ⟨some lookup⟩ e = evaluate ⟨some lookup'⟩ e := by
  induction e with
  | literal value span => rfl
  | ref name span => exact h name (by simp [refs])
  | unary op rhs span ih =>
      rw [evaluate, evaluate, ih h]
  | binary op lhs rhs span ih ih' =>
      rw [evaluate, evaluate, ih fun name hname => h name (by simp [refs, hname]),
        ih' fun name hname => h name (by simp [refs, hname])]
  | ternary cond thenExpr elseExpr span ih ih' ih'' =>
      rw [evaluate, evaluate, ih fun name hname => h name (by simp [refs, hname]),
        ih' fun name hname => h name (by simp [refs, hname]),
        ih'' fun name hname => h name (by simp [refs, hname])]
  | call name args span ih =>
      have hargs : ∀ arg ∈ args, evaluate ⟨some lookup⟩ arg = evaluate ⟨some lookup'⟩ arg :=
        fun arg harg => ih arg harg fun name hname => h name
          (by simp only [refs, mem_refsArgs]; exact ⟨arg, harg, hname⟩)
      -- A call with another number of arguments evaluates none of them.
      obtain _ | ⟨arg0, _ | ⟨arg1, _ | ⟨arg2, rest⟩⟩⟩ := args
      · simp [evaluate]
      · simp [evaluate]
      · simp [evaluate, hargs arg0 (by simp), hargs arg1 (by simp)]
      · simp [evaluate]

/-- **The extracted names determine the result.**  Extraction ends for every tree, with the names of
its references in strictly increasing order; and the value of the tree, or its abort, is the same
under all lookups that agree on these names. -/
theorem extractDependencies_determine (e : ExpressionTree D) :
    (∃ names, FuelLoop.run extractStep (e.size + 1) ([], [e]) = some names ∧
      extractDependencies e = sortUnique names) ∧
    (extractDependencies e).Pairwise (· < ·) ∧ (extractDependencies e).Nodup ∧
    (∀ name, name ∈ extractDependencies e ↔ name ∈ e.refs) ∧
    ∀ lookup lookup' : StdString → Except Abort D,
      (∀ name ∈ extractDependencies e, lookup name = lookup' name) →
        evaluate ⟨some lookup⟩ e = evaluate ⟨some lookup'⟩ e := by
  have hsorted := pairwise_extractDependencies e
  refine ⟨?_, hsorted, hsorted.imp ne_of_lt, fun _ => mem_extractDependencies, ?_⟩
  · obtain ⟨names, hrun, -⟩ := extract_run e
    exact ⟨names, hrun, by rw [extractDependencies, hrun, Option.getD_some]⟩
  · intro lookup lookup' hagree
    apply evaluate_congr
    intro name hname
    exact hagree name (mem_extractDependencies.mpr hname)

/-- In `<b> + <a> * <b>` only `a` and `b` matter: with another value of `c` it is still `2 + 1 * 2`. -/
theorem other_names_do_not_matter :
    let e : ExpressionTree NanRat := .binary .plus (.ref "b".toList {})
      (.binary .star (.ref "a".toList {}) (.ref "b".toList {}) {}) {}
    let lookup (c : Nat) (name : StdString) : Except Abort NanRat :=
      if name = "a".toList then .ok (Double.ofNat 1)
      else if name = "b".toList then .ok (Double.ofNat 2)
      else .ok (Double.ofNat c)
    evaluate ⟨some (lookup 3)⟩ e = evaluate ⟨some (lookup 4)⟩ e := by
  intro e lookup
  refine (extractDependencies_determine e).2.2.2.2 (lookup 3) (lookup 4) fun name hname => ?_
  have hnames : name = "b".toList ∨ name = "a".toList ∨ name = "b".toList := by
    simpa [e, ExpressionTree.refs] using mem_extractDependencies.mp hname
  rcases hnames with rfl | rfl | rfl <;> simp [lookup]

theorem evaluateUnary_error {op : TokenKind} {rhs : D} {reason : Abort}
    (h : evaluateUnary op rhs = .error reason) : reason = .unreachable := by
  cases op <;> cases h <;> rfl

theorem evaluateBinary_error {op : TokenKind} {lhs rhs : D} {reason : Abort}
    (h : evaluateBinary op lhs rhs = .error reason) : reason = .unreachable := by
  cases op <;> cases h <;> rfl

/-- Where the lookup succeeds on every reference, evaluation aborts in `unreachable()` only. -/
theorem evaluate_error {e : ExpressionTree D} {reason : Abort}
    (hlookup : ∀ name ∈ e.refs, ∃ value, lookup name = .ok value)
    (h : evaluate ⟨some lookup⟩ e = .error reason) : reason = .unreachable := by
  induction e generalizing reason with
  | literal value span => cases h
  | ref name span =>
      obtain ⟨value, hvalue⟩ := hlookup name (by simp [refs])
      simp [evaluate, hvalue] at h
  | unary op rhs span ih =>
      rw [evaluate, bind_eq_error] at h
      rcases h with h | ⟨value, -, h⟩
      · exact ih hlookup h
      · exact evaluateUnary_error h
  | binary op lhs rhs span ih ih' =>
      rw [evaluate, bind_eq_error] at h
      rcases h with h | ⟨value, -, h⟩
      · exact ih (fun name hname => hlookup name (by simp [refs, hname])) h
      · rw [bind_eq_error] at h
        rcases h with h | ⟨value', -, h⟩
        · exact ih' (fun name hname => hlookup name (by simp [refs, hname])) h
        · exact evaluateBinary_error h
  | ternary cond thenExpr elseExpr span ih ih' ih'' =>
      rw [evaluate, bind_eq_error] at h
      rcases h with h | ⟨value, -, h⟩
      · exact ih (fun name hname => hlookup name (by simp [refs, hname])) h
      · split at h
        · exact ih' (fun name hname => hlookup name (by simp [refs, hname])) h
        · exact ih'' (fun name hname => hlookup name (by simp [refs, hname])) h
  | call name args span ih =>
      have hargs : ∀ arg ∈ args, ∀ reason, evaluate ⟨some lookup⟩ arg = .error reason →
          reason = .unreachable :=
        fun arg harg reason => ih arg harg fun name hname => hlookup name
          (by simp only [refs, mem_refsArgs]; exact ⟨arg, harg, hname⟩)
      unfold evaluate at h
      split at h
      · split at h
        · rename_i arg0 arg1
          rw [bind_eq_error] at h
          rcases h with h | ⟨index, -, h⟩
          · exact hargs arg0 (by simp) reason h
          · rw [bind_eq_error] at h
            rcases h with h | ⟨value, -, h⟩
            · exact hargs arg1 (by simp) reason h
            · cases h
        -- Past the known calls stands `unreachable()`.
        · exact (Except.error.inj h).symm
      · exact (Except.error.inj h).symm

end StatForge.Dsl
