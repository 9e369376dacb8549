import Mathlib.Data.List.TakeWhile

/-!
# Runs of elements in a list

The maximal runs of elements that a test keeps, and lists that are joined by separators.

* `runs` — the longest run of kept elements from every index at which one starts.
* `runs_cons_of_not`, `runs_cons_of_keep` — the runs by recursion over the list.
* `Joined` — items in a row, with separators between them.
* `runs_joined_iff` — the runs of joined items are the items exactly if each of them is a run.
-/

namespace Runs

variable {α : Type*} (keep : α → Bool)

/-- A run starts at the index: the element is kept and the one in front of it is not.  `before` says
whether the element in front of the list is kept. -/
def startsAt (before : Bool) (items : List α) : ℕ → Bool
  | 0 => items[0]?.any keep && !before
  | i + 1 => items[i + 1]?.any keep && !items[i]?.any keep

/-- The runs that start in a list, each to its end. -/
def runsBehind (before : Bool) (items : List α) : List (List α) :=
  ((List.range items.length).filter (startsAt keep before items)).map fun i =>
    (items.drop i).takeWhile keep

/-- The maximal non-empty runs of kept elements, in order. -/
def runs (items : List α) : List (List α) := runsBehind keep false items

variable {keep} {a : α} {items word : List α}

theorem runsBehind_cons (before : Bool) (a : α) (items : List α) :
    runsBehind keep before (a :: items) =
      (if keep a && !before then [(a :: items).takeWhile keep] else []) ++
        runsBehind keep (keep a) items := by
  have hstarts : startsAt keep before (a :: items) ∘ Nat.succ = startsAt keep (keep a) items := by
    ext i
    cases i with
    | zero => simp [startsAt]
    | succ i => simp [startsAt]
  rw [runsBehind, List.length_cons, List.range_succ_eq_map, List.filter_cons, List.filter_map, hstarts]
  have hzero : startsAt keep before (a :: items) 0 = (keep a && !before) := by simp [startsAt]
  rw [hzero]
  split
  · simp [runsBehind, Function.comp_def]
  · simp [runsBehind, Function.comp_def]

@[simp] theorem runs_nil : runs keep [] = [] := rfl

theorem runs_cons_of_not (h : keep a = false) : runs keep (a :: items) = runs keep items := by
  rw [runs, runsBehind_cons, h]
  rfl

/-- Behind a kept element the rest of its run is passed over. -/
theorem runsBehind_true (items : List α) :
    runsBehind keep true items = runs keep (items.dropWhile keep) := by
  induction items with
  | nil => rfl
  | cons a items ih =>
      rw [runsBehind_cons]
      cases h : keep a with
      | true =>
          rw [List.dropWhile_cons_of_pos h]
          simpa using ih
      | false =>
          rw [List.dropWhile_cons_of_neg (by simp [h]), runs_cons_of_not h]
          rfl

theorem runs_cons_of_keep (h : keep a = true) :
    runs keep (a :: items) = (a :: items.takeWhile keep) :: runs keep (items.dropWhile keep) := by
  rw [runs, runsBehind_cons, h, runsBehind_true, List.takeWhile_cons_of_pos h]
  rfl

/-- Elements that are not kept are passed over. -/
theorem runs_append_of_not (h : ∀ a ∈ word, keep a = false) :
    runs keep (word ++ items) = runs keep items := by
  induction word with
  | nil => rfl
  | cons a word ih =>
      obtain ⟨ha, hword⟩ := List.forall_mem_cons.mp h
      rw [List.cons_append, runs_cons_of_not ha, ih hword]

/-- A word of kept elements in front of one that is not is a run. -/
theorem runs_append_of_keep (hne : word ≠ []) (h : ∀ a ∈ word, keep a = true)
    (hend : items.head?.any keep = false) : runs keep (word ++ items) = word :: runs keep items := by
  cases word with
  | nil => exact absurd rfl hne
  | cons a word =>
      obtain ⟨ha, hword⟩ := List.forall_mem_cons.mp h
      have hrest : items.takeWhile keep = [] ∧ items.dropWhile keep = items := by
        cases items with
        | nil => simp
        | cons b items => simp_all
      rw [List.cons_append, runs_cons_of_keep ha, List.takeWhile_append_of_pos hword,
        List.dropWhile_append_of_pos hword, hrest.1, hrest.2, List.append_nil]

/-- Runs are not empty, and all their elements are kept. -/
theorem isRun_of_mem_runs (h : word ∈ runs keep items) : word ≠ [] ∧ ∀ a ∈ word, keep a = true := by
  induction hlength : items.length using Nat.strong_induction_on generalizing items with
  | _ length ih =>
      cases items with
      | nil => exact absurd h List.not_mem_nil
      | cons a items =>
          cases ha : keep a with
          | false =>
              rw [runs_cons_of_not ha] at h
              exact ih items.length (by rw [← hlength]; exact Nat.lt_succ_self _) h rfl
          | true =>
              rw [runs_cons_of_keep ha] at h
              rcases List.mem_cons.mp h with rfl | h
              · exact ⟨List.cons_ne_nil _ _, List.forall_mem_cons.mpr
                  ⟨ha, fun b hb => List.mem_takeWhile_imp hb⟩⟩
              · refine ih (items.dropWhile keep).length ?_ h rfl
                rw [← hlength]
                exact Nat.lt_succ_of_le (List.dropWhile_suffix keep).length_le

/-- Items in a row, with a separator that is not empty and of which no element is kept between two of
them. -/
inductive Joined (keep : α → Bool) : List (List α) → List α → Prop
  | nil : Joined keep [] []
  | singleton (item : List α) : Joined keep [item] item
  | cons {item' text} {rest : List (List α)} (item separator : List α) (hne : separator ≠ [])
      (hseparator : ∀ a ∈ separator, keep a = false) (hrest : Joined keep (item' :: rest) text) :
      Joined keep (item :: item' :: rest) (item ++ (separator ++ text))

/-- **Joining and splitting.**  The runs of a joined list are its items exactly if every item is not
empty and consists of kept elements. -/
theorem runs_joined_iff {itemList : List (List α)} {text : List α} (h : Joined keep itemList text) :
    runs keep text = itemList ↔ ∀ item ∈ itemList, item ≠ [] ∧ ∀ a ∈ item, keep a = true := by
  constructor
  · rintro rfl item hitem
    exact isRun_of_mem_runs hitem
  · intro hitems
    induction h with
    | nil => rfl
    | singleton item =>
        obtain ⟨hne, hkeep⟩ := hitems item (by simp)
        have hsingle : runs keep (item ++ []) = item :: runs keep [] :=
          runs_append_of_keep hne hkeep rfl
        rwa [List.append_nil] at hsingle
    | @cons _ text _ item separator hne hseparator _ ih =>
        obtain ⟨⟨hitem, hkeep⟩, hrest⟩ := List.forall_mem_cons.mp hitems
        have hend : (separator ++ text).head?.any keep = false := by
          obtain ⟨b, more, rfl⟩ := List.exists_cons_of_ne_nil hne
          simpa using hseparator b (by simp)
        rw [runs_append_of_keep hitem hkeep hend, runs_append_of_not hseparator, ih hrest]

end Runs
