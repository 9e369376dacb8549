import Mathlib.Algebra.Order.BigOperators.Group.Multiset
import Mathlib.Algebra.Order.Field.Basic
import Mathlib.Data.List.GetD
import Mathlib.Data.Multiset.Sort

/-!
# Statistics of a multiset

General facts about a finite multiset of values of an ordered field.

* `orderStatistic` — the elements in ascending order, from index `0` on.
* `median` and `mean` — the middle order statistic, or the mean of the two middle ones, and the
  arithmetic mean.
* `isLeast_foldl_min`, `isGreatest_foldl_max` — minimum and maximum by a fold from the first element.
* `le_median`, `median_le`, `le_mean`, `mean_le` — both lie between any bounds of the elements.
-/

namespace Statistics

section LinearOrder

variable {α : Type*} [LinearOrder α]

/-- The fold of `min` from the first element finds the least element. -/
theorem isLeast_foldl_min (first : α) (rest : List α) :
    IsLeast {a | a ∈ first :: rest} (rest.foldl min first) := by
  induction rest generalizing first with
  | nil => simp
  | cons second rest ih =>
      obtain ⟨hmem, hle⟩ := ih (min first second)
      have hfold : (second :: rest).foldl min first = rest.foldl min (min first second) := rfl
      have hmin : rest.foldl min (min first second) ≤ min first second :=
        hle List.mem_cons_self
      rw [hfold]
      constructor
      · show rest.foldl min (min first second) ∈ first :: second :: rest
        rcases List.mem_cons.mp hmem with h | h
        · rw [h]
          rcases min_choice first second with hfirst | hsecond
          · simp [hfirst]
          · simp [hsecond]
        · exact List.mem_cons_of_mem _ (List.mem_cons_of_mem _ h)
      · intro a ha
        rcases List.mem_cons.mp ha with rfl | ha
        · exact hmin.trans (min_le_left _ _)
        · rcases List.mem_cons.mp ha with rfl | ha
          · exact hmin.trans (min_le_right _ _)
          · exact hle (List.mem_cons_of_mem _ ha)

/-- The fold of `max` from the first element finds the greatest element. -/
theorem isGreatest_foldl_max (first : α) (rest : List α) :
    IsGreatest {a | a ∈ first :: rest} (rest.foldl max first) :=
  isLeast_foldl_min (α := αᵒᵈ) first rest

/-- The elements in ascending order, from index `0` on; `default` past the last one. -/
def orderStatistic (values : Multiset α) (default : α) (i : ℕ) : α := values.sort.getD i default

theorem orderStatistic_mem {values : Multiset α} {i : ℕ} (default : α) (h : i < values.card) :
    orderStatistic values default i ∈ values := by
  have hlength : i < values.sort.length := by rwa [Multiset.length_sort]
  rw [orderStatistic, List.getD_eq_getElem _ _ hlength, ← Multiset.mem_sort (r := (· ≤ ·))]
  exact List.getElem_mem hlength

/-- Sorting a list by insertion lists the order statistics. -/
theorem insertionSort_eq_sort (values : List α) :
    values.insertionSort (· ≤ ·) = (values : Multiset α).sort := by
  rw [Multiset.coe_sort, List.mergeSort_eq_insertionSort]

end LinearOrder

variable {K : Type*} [Field K] [LinearOrder K]

/-- The arithmetic mean. -/
def mean (values : Multiset K) : K := values.sum / values.card

/-- The middle order statistic, or the mean of the two middle ones. -/
def median (values : Multiset K) : K :=
  if values.card % 2 = 1 then orderStatistic values 0 (values.card / 2)
  else (orderStatistic values 0 (values.card / 2 - 1) + orderStatistic values 0 (values.card / 2)) / 2

variable {values : Multiset K} {bound : K}

/-- The median is an element or the mean of two elements. -/
theorem median_cases (h : values ≠ 0) :
    median values ∈ values ∨ ∃ a ∈ values, ∃ b ∈ values, median values = (a + b) / 2 := by
  have hcard : 0 < values.card := Multiset.card_pos.mpr h
  rw [median]
  split
  · exact Or.inl (orderStatistic_mem 0 (by omega))
  · exact Or.inr ⟨_, orderStatistic_mem 0 (by omega), _, orderStatistic_mem 0 (by omega), rfl⟩

variable [IsStrictOrderedRing K]

theorem card_pos_of_ne_zero (h : values ≠ 0) : (0 : K) < values.card := by
  exact_mod_cast Multiset.card_pos.mpr h

/-- A lower bound of the elements is a lower bound of their mean. -/
theorem le_mean (h : values ≠ 0) (hbound : ∀ a ∈ values, bound ≤ a) : bound ≤ mean values := by
  rw [mean, le_div_iff₀ (card_pos_of_ne_zero h), mul_comm, ← nsmul_eq_mul]
  exact Multiset.card_nsmul_le_sum hbound

/-- An upper bound of the elements is an upper bound of their mean. -/
theorem mean_le (h : values ≠ 0) (hbound : ∀ a ∈ values, a ≤ bound) : mean values ≤ bound := by
  rw [mean, div_le_iff₀ (card_pos_of_ne_zero h), mul_comm, ← nsmul_eq_mul]
  exact Multiset.sum_le_card_nsmul values bound hbound

/-- A lower bound of the elements is a lower bound of their median. -/
theorem le_median (h : values ≠ 0) (hbound : ∀ a ∈ values, bound ≤ a) : bound ≤ median values := by
  rcases median_cases h with hmem | ⟨a, ha, b, hb, heq⟩
  · exact hbound _ hmem
  · rw [heq, le_div_iff₀ two_pos, mul_two]
    exact add_le_add (hbound a ha) (hbound b hb)

/-- An upper bound of the elements is an upper bound of their median. -/
theorem median_le (h : values ≠ 0) (hbound : ∀ a ∈ values, a ≤ bound) : median values ≤ bound := by
  rcases median_cases h with hmem | ⟨a, ha, b, hb, heq⟩
  · exact hbound _ hmem
  · rw [heq, div_le_iff₀ two_pos, mul_two]
    exact add_le_add (hbound a ha) (hbound b hb)

end Statistics
