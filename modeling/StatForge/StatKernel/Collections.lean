import Mathlib.Algebra.Field.Rat
import StatForge.Lib.Statistics
import StatForge.StatKernel.ReachableStates

/-!
# Collection operations as statistics

What the closures of `compileCollectionFormula` compute over an exact ordered field.

* `ExactDouble` — operations on `double` without rounding.
* `IsStatistic` — the value of a collection operation on a multiset, without lists and folds.
* `reduceNodes_isStatistic` — the reducers compute it, whatever the order of the dependencies is.
* `collections_compute_statistics` — the same for compiled closures and for the collection nodes of
  every reachable state, with the order between minimum, median, average and maximum.
-/

namespace StatForge.StatKernel

open Dsl ExceptBind StatForge.StatKernel.Graph

/-- The operations on `double` that the reducers use are those of an ordered field. -/
structure ExactDouble (K : Type) [Field K] [LinearOrder K] [Double K] : Prop where
  ofNat_eq : ∀ n : ℕ, (Double.ofNat n : K) = n
  add_eq : ∀ a b : K, Double.add a b = a + b
  mul_eq : ∀ a b : K, Double.mul a b = a * b
  div_eq : ∀ a b : K, b ≠ 0 → Double.div a b = a / b
  lt_eq : ∀ a b : K, Double.lt a b = decide (a < b)

/-- The value is the statistic of the operation on the multiset of values. -/
def IsStatistic {K : Type} [Field K] [LinearOrder K] (values : Multiset K) (value : K) :
    CollectionOperation → Prop
  | .sum => value = values.sum
  | .product => value = values.prod
  | .count => value = values.card
  | .average => value = if values = 0 then 0 else Statistics.mean values
  | .median => value = if values = 0 then 0 else Statistics.median values
  | .min => if values = 0 then value = 0 else IsLeast {a | a ∈ values} value
  | .max => if values = 0 then value = 0 else IsGreatest {a | a ∈ values} value
  | .other _ => False

section Exact

variable {K : Type} [Field K] [LinearOrder K] {values : Multiset K} {value value' : K}

/-- An operation has one value on a multiset. -/
theorem IsStatistic.unique {operation : CollectionOperation} (h : IsStatistic values value operation)
    (h' : IsStatistic values value' operation) : value = value' := by
  cases operation with
  | min =>
      by_cases hempty : values = 0
      · simp only [IsStatistic, if_pos hempty] at h h'
        rw [h, h']
      · simp only [IsStatistic, if_neg hempty] at h h'
        exact h.unique h'
  | max =>
      by_cases hempty : values = 0
      · simp only [IsStatistic, if_pos hempty] at h h'
        rw [h, h']
      · simp only [IsStatistic, if_neg hempty] at h h'
        exact h.unique h'
  | other code => exact h.elim
  | _ => exact Eq.trans h (Eq.symm h')

variable [Double K]

namespace ExactDouble

theorem zero_eq (h : ExactDouble K) : (Double.zero : K) = 0 := by
  rw [Double.zero, h.ofNat_eq, Nat.cast_zero]

theorem one_eq (h : ExactDouble K) : (Double.one : K) = 1 := by
  rw [Double.one, h.ofNat_eq, Nat.cast_one]

theorem foldl_add (h : ExactDouble K) (values : List K) :
    values.foldl Double.add Double.zero = (values : Multiset K).sum := by
  have hadd : (Double.add : K → K → K) = (· + ·) := funext fun a => funext fun b => h.add_eq a b
  rw [hadd, h.zero_eq, Multiset.sum_coe, List.sum_eq_foldl]

theorem foldl_mul (h : ExactDouble K) (values : List K) :
    values.foldl Double.mul Double.one = (values : Multiset K).prod := by
  have hmul : (Double.mul : K → K → K) = (· * ·) := funext fun a => funext fun b => h.mul_eq a b
  rw [hmul, h.one_eq, Multiset.prod_coe, List.prod_eq_foldl]

theorem stdMin_eq (h : ExactDouble K) : (stdMin : K → K → K) = min := by
  ext a b
  rw [stdMin, h.lt_eq, min_comm, min_def_lt]
  simp only [decide_eq_true_eq]

theorem stdMax_eq (h : ExactDouble K) : (stdMax : K → K → K) = max := by
  ext a b
  rw [stdMax, h.lt_eq, max_def_lt]
  simp only [decide_eq_true_eq]

/-- `std::ranges::sort` lists the order statistics. -/
theorem sort_eq (h : ExactDouble K) (values : List K) :
    values.insertionSort (fun a b => !Double.lt b a) = (values : Multiset K).sort := by
  rw [← Statistics.insertionSort_eq_sort]
  congr! with a b
  rw [h.lt_eq]
  simp

/-- The middle indices are in range, and so is the division. -/
theorem median_eq (h : ExactDouble K) [IsStrictOrderedRing K] {values : List K} (hne : values ≠ []) :
    median values = .ok (Statistics.median (values : Multiset K)) := by
  have hpos : 0 < values.length := List.length_pos_iff.mpr hne
  have hstatistic : ∀ i < values.length, (values : Multiset K).sort[i]? =
      some (Statistics.orderStatistic (values : Multiset K) 0 i) := by
    intro i hi
    have hlength : i < (values : Multiset K).sort.length := by
      rwa [Multiset.length_sort, Multiset.coe_card]
    rw [Statistics.orderStatistic, List.getD_eq_getElem _ _ hlength, List.getElem?_eq_getElem hlength]
  have htwo : (Double.ofNat 2 : K) = 2 := by rw [h.ofNat_eq, Nat.cast_ofNat]
  have hlength : (values : Multiset K).sort.length = values.length := by
    rw [Multiset.length_sort, Multiset.coe_card]
  rw [median, h.sort_eq, Statistics.median, Multiset.coe_card]
  rw [hlength]
  by_cases hodd : values.length % 2 = 1
  · rw [if_pos hodd, if_pos hodd, hstatistic _ (by omega)]
  · rw [if_neg hodd, if_neg hodd, hstatistic _ (by omega), hstatistic _ (by omega)]
    dsimp only
    rw [h.add_eq, htwo, h.div_eq _ _ two_ne_zero]

end ExactDouble

theorem length_of_mapM_eq_ok {α : Type} {f : NodeId → Except Abort α} {ids : List NodeId}
    {values : List α} (h : ids.mapM f = .ok values) : values.length = ids.length := by
  induction ids generalizing values with
  | nil =>
      cases h
      rfl
  | cons id ids ih =>
      rw [List.mapM_cons, bind_eq_ok] at h
      obtain ⟨value, -, h⟩ := h
      rw [bind_eq_ok] at h
      obtain ⟨values', hvalues', h⟩ := h
      cases h
      rw [List.length_cons, List.length_cons, ih hvalues']

variable [IsStrictOrderedRing K] {dependencies : List NodeId} {valueOf : NodeId → Except Abort K}

/-- **The reducers compute the statistics**, with the conventions for no dependency at all. -/
theorem reduceNodes_isStatistic (hexact : ExactDouble K) {operation : CollectionOperation}
    (hoperation : isValidCollectionOperation operation = true) {values : List K}
    (hvalues : dependencies.mapM valueOf = .ok values) :
    ∃ value, reduceNodes dependencies valueOf operation = .ok value ∧
      IsStatistic (values : Multiset K) value operation := by
  have hlength := length_of_mapM_eq_ok hvalues
  have hempty : dependencies.isEmpty = true ↔ values = [] := by
    rw [List.isEmpty_iff, ← List.length_eq_zero_iff, ← hlength, List.length_eq_zero_iff]
  cases operation with
  | sum =>
      refine ⟨_, ?_, hexact.foldl_add values⟩
      rw [reduceNodes, hvalues]
      rfl
  | product =>
      refine ⟨_, ?_, hexact.foldl_mul values⟩
      rw [reduceNodes, hvalues]
      rfl
  | count =>
      refine ⟨_, rfl, ?_⟩
      rw [IsStatistic, hexact.ofNat_eq, Multiset.coe_card, hlength]
  | median =>
      rw [reduceNodes, hvalues]
      by_cases hnil : values = []
      · rw [if_pos (hempty.mpr hnil)]
        exact ⟨_, rfl, by simp [IsStatistic, hnil, hexact.zero_eq]⟩
      · rw [if_neg fun h => hnil (hempty.mp h)]
        exact ⟨_, hexact.median_eq hnil, by simp [IsStatistic, hnil]⟩
  | average =>
      rw [reduceNodes, hvalues]
      by_cases hnil : values = []
      · rw [if_pos (hempty.mpr hnil)]
        exact ⟨_, rfl, by simp [IsStatistic, hnil, hexact.zero_eq]⟩
      · rw [if_neg fun h => hnil (hempty.mp h)]
        -- The number of values is not zero, so the division is one of the field.
        have hcard : (Double.ofNat dependencies.length : K) ≠ 0 := by
          rw [hexact.ofNat_eq, ← hlength]
          exact_mod_cast List.length_pos_iff.mpr hnil |>.ne'
        refine ⟨_, rfl, ?_⟩
        rw [IsStatistic, if_neg (by simpa using hnil), hexact.div_eq _ _ hcard, hexact.foldl_add,
          hexact.ofNat_eq, ← hlength, Statistics.mean, Multiset.coe_card]
  | min =>
      rw [reduceNodes, hvalues]
      cases values with
      | nil => exact ⟨_, rfl, by simp [IsStatistic, hexact.zero_eq]⟩
      | cons first rest =>
          refine ⟨_, rfl, ?_⟩
          rw [IsStatistic, if_neg (by simp), hexact.stdMin_eq]
          exact Statistics.isLeast_foldl_min first rest
  | max =>
      rw [reduceNodes, hvalues]
      cases values with
      | nil => exact ⟨_, rfl, by simp [IsStatistic, hexact.zero_eq]⟩
      | cons first rest =>
          refine ⟨_, rfl, ?_⟩
          rw [IsStatistic, if_neg (by simp), hexact.stdMax_eq]
          exact Statistics.isGreatest_foldl_max first rest
  | other code => cases hoperation

omit [Double K] in
/-- Minimum, median, average and maximum of at least one value are ordered. -/
theorem IsStatistic.between {least middle average greatest : K} (hne : values ≠ 0)
    (hleast : IsStatistic values least .min) (hmiddle : IsStatistic values middle .median)
    (haverage : IsStatistic values average .average)
    (hgreatest : IsStatistic values greatest .max) :
    (least ≤ middle ∧ middle ≤ greatest) ∧ least ≤ average ∧ average ≤ greatest := by
  simp only [IsStatistic, if_neg hne] at hleast hmiddle haverage hgreatest
  have hlower : ∀ a ∈ values, least ≤ a := fun a ha => hleast.2 ha
  have hupper : ∀ a ∈ values, a ≤ greatest := fun a ha => hgreatest.2 ha
  rw [hmiddle, haverage]
  exact ⟨⟨Statistics.le_median hne hlower, Statistics.median_le hne hupper⟩,
    Statistics.le_mean hne hlower, Statistics.mean_le hne hupper⟩

/-- **Collection operations compute their statistics**, over an exact ordered field.  A compiled closure
returns the statistic of the multiset of the dependencies' values, and the same value whenever these
are permuted; minimum, median, average and maximum of at least one value are ordered; and every
collection node of a reachable state has such a closure and the values of its dependencies. -/
theorem collections_compute_statistics (hexact : ExactDouble K) :
    (∀ (id : NodeId) (operation : CollectionOperation) (formula : NodeFormula K),
      compileCollectionFormula id operation = .ok formula →
      ∀ (g : Graph K) (values : List K), (g.dependencies id).mapM g.valueOf = .ok values →
        ∃ value, formula.invoke g = .ok value ∧
          IsStatistic (values : Multiset K) value operation ∧
          ∀ (g' : Graph K) (values' : List K), (g'.dependencies id).mapM g'.valueOf = .ok values' →
            values'.Perm values → formula.invoke g' = .ok value) ∧
    (∀ (values : Multiset K) (least middle average greatest : K), values ≠ 0 →
      IsStatistic values least .min → IsStatistic values middle .median →
      IsStatistic values average .average → IsStatistic values greatest .max →
      (least ≤ middle ∧ middle ≤ greatest) ∧ least ≤ average ∧ average ≤ greatest) ∧
    (∀ (kernel : StatKernel K), Reachable kernel → ∀ (id : NodeId) (node : Node K),
      kernel.graph.nodes.lookup id = some node → node.type = .collection →
      ∃ formula values, node.formula = some formula ∧
        compileCollectionFormula id node.collectionOperation = .ok formula ∧
        (kernel.graph.dependencies id).mapM kernel.graph.valueOf = .ok values) := by
  refine ⟨?_, fun values _ _ _ _ hne => IsStatistic.between hne, ?_⟩
  · intro id operation formula hcompiled g values hvalues
    rw [compileCollectionFormula] at hcompiled
    split at hcompiled
    · rename_i hoperation
      cases hcompiled
      obtain ⟨value, hvalue, hstatistic⟩ := reduceNodes_isStatistic hexact hoperation hvalues
      refine ⟨value, hvalue, hstatistic, ?_⟩
      intro g' values' hvalues' hperm
      obtain ⟨value', hvalue', hstatistic'⟩ := reduceNodes_isStatistic hexact hoperation hvalues'
      rw [Multiset.coe_eq_coe.mpr hperm] at hstatistic'
      rw [NodeFormula.invoke, hvalue', hstatistic'.unique hstatistic]
    · cases hcompiled
  · intro kernel hreach id node hnode htype
    have hsound := hreach.consistent.sound
    cases hsound.typed id node hnode with
    | value htype' => simp [htype'] at htype
    | formula _ htype' => simp [htype'] at htype
    | collection _ hformula hoperation =>
        have hdependencies : ∀ d ∈ kernel.graph.dependencies id,
            ∃ value, kernel.graph.valueOf d = .ok value := by
          intro d hd
          obtain ⟨dependency, hdependency⟩ :=
            Finmap.mem_iff.mp (hsound.linked.dependency_mem hd)
          exact ⟨dependency.value, valueOf_of_lookup hdependency⟩
        obtain ⟨values, hvalues, -⟩ := mapM_eq_ok hdependencies
        refine ⟨_, values, hformula, ?_, hvalues⟩
        have hvalid : isValidCollectionOperation node.collectionOperation = true := by
          cases hkind : node.collectionOperation with
          | other code => exact absurd hkind (hoperation code)
          | _ => rfl
        rw [compileCollectionFormula, if_pos hvalid]

end Exact

section Instances

/-- The operations of the rational numbers; `pow` has values at integral exponents only. -/
instance exactRat : Double ℚ where
  ofNat n := n
  add a b := a + b
  sub a b := a - b
  mul a b := a * b
  div a b := a / b
  pow a b := (NanRat.pow a b).getD 0
  neg a := -a
  eq a b := a == b
  lt a b := a < b
  le a b := a ≤ b
  isNan _ := false
  fromChars s := some (NanRat.ofDigits s)

theorem exactDouble_rat : ExactDouble ℚ where
  ofNat_eq _ := rfl
  add_eq _ _ := rfl
  mul_eq _ _ := rfl
  div_eq _ _ _ := rfl
  lt_eq _ _ := rfl

private def medianId : NodeId := "median".toList

/-- The values `10`, `1`, `100` and `2`, and their median. -/
private def medianCalls : List (Op ℚ) :=
  [.createValueNode "a".toList 10, .createValueNode "b".toList 1, .createValueNode "c".toList 100,
    .createValueNode "d".toList 2,
    .createCollectionNode medianId ["a".toList, "b".toList, "c".toList, "d".toList] .median]

/-- The median is `6`, the mean of the two middle values. -/
theorem median_of_four :
    (NodeFormula.collection medianId .median).invoke (after medianCalls).graph = .ok 6 ∧
      IsStatistic (([10, 1, 100, 2] : List ℚ) : Multiset ℚ) 6 .median := by
  have hinvoke : (NodeFormula.collection medianId .median).invoke (after medianCalls).graph =
      .ok 6 := by decide +kernel
  obtain ⟨value, hvalue, hstatistic, -⟩ := (collections_compute_statistics exactDouble_rat).1
    medianId .median _ rfl (after medianCalls).graph [10, 1, 100, 2] (by decide +kernel)
  rw [hinvoke] at hvalue
  cases hvalue
  exact ⟨hinvoke, hstatistic⟩

end Instances

end StatForge.StatKernel
