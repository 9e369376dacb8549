import Mathlib.Algebra.Order.BigOperators.Group.Finset
import Mathlib.Data.Finset.Card
import Mathlib.Data.Finset.Filter
import Mathlib.Logic.Relation

/-!
# Successor relations: acyclicity, rank, rewiring, marking

General facts about a relation `succ a b` read as "`b` is a successor of `a`".

* `Acyclic` and `redirect` — replacing all successors of one element; `acyclic_redirect_iff`
  says that this keeps an acyclic relation acyclic exactly when no new successor reaches the
  element in the old relation.
* `Acyclic.reflTransGen_avoids` — a path to a predecessor of an element does not meet the element.
* `rank` — over a finite carrier that contains all successors, the number of elements an element
  strictly reaches.  In an acyclic relation it decreases along every edge (`rank_lt`) and is bounded
  by the size of the carrier (`rank_lt_card`), so it serves as recursion measure and fuel.
* `Acyclic.exists_sink` — every element reaches one without successors.
* `Frontier` — the state of a marking loop: marked elements and a work list such that every edge
  out of a marked element ends in a marked or a waiting element.
* `budget` — the total cost of the elements that a marking loop has not marked yet.
-/

namespace Successors

open Relation

variable {α : Type*} {succ : α → α → Prop}

/-- No element strictly reaches itself. -/
def Acyclic (succ : α → α → Prop) : Prop := ∀ a, ¬ TransGen succ a a

theorem Acyclic.irrefl (h : Acyclic succ) {a b : α} (hab : succ a b) : a ≠ b := by
  rintro rfl
  exact h a (.single hab)

/-- Removing edges keeps a relation acyclic. -/
theorem Acyclic.mono {succ' : α → α → Prop} (h : Acyclic succ)
    (hsub : ∀ a b, succ' a b → succ a b) : Acyclic succ' := by
  intro a ha
  exact h a (TransGen.mono hsub _ _ ha)

/-! ### Replacing the successors of one element -/

/-- Replace all successors of `a` by the elements of `new`. -/
def redirect (succ : α → α → Prop) (a : α) (new : α → Prop) : α → α → Prop :=
  fun x y => (x = a ∧ new y) ∨ (x ≠ a ∧ succ x y)

/-- A path that ends in the redirected element needs none of its successors, old or new. -/
theorem reflTransGen_redirect_to_self {a b : α} {new : α → Prop} :
    ReflTransGen (redirect succ a new) b a ↔ ReflTransGen succ b a := by
  constructor
  · intro h
    induction h using ReflTransGen.head_induction_on with
    | refl => exact .refl
    | head hstep _ ih =>
        rcases hstep with ⟨rfl, -⟩ | ⟨-, hstep⟩
        · exact .refl
        · exact .head hstep ih
  · intro h
    induction h using ReflTransGen.head_induction_on with
    | refl => exact .refl
    | @head x y hstep _ ih =>
        by_cases hx : x = a
        · subst hx; exact .refl
        · exact .head (Or.inr ⟨hx, hstep⟩) ih

/-- A path of the redirected relation either never leaves the old edges, or passes through the
redirected element. -/
theorem transGen_redirect_cases {a b c : α} {new : α → Prop}
    (h : TransGen (redirect succ a new) b c) :
    TransGen succ b c ∨ ReflTransGen (redirect succ a new) b a ∧
      TransGen (redirect succ a new) a c := by
  induction h with
  | single hstep =>
      rcases hstep with ⟨rfl, hnew⟩ | ⟨-, hold⟩
      · exact Or.inr ⟨.refl, .single (Or.inl ⟨rfl, hnew⟩)⟩
      · exact Or.inl (.single hold)
  | @tail x y hbx hstep ih =>
      rcases hstep with ⟨rfl, hnew⟩ | ⟨hxa, hold⟩
      · exact Or.inr ⟨hbx.to_reflTransGen, .single (Or.inl ⟨rfl, hnew⟩)⟩
      · rcases ih with hold' | ⟨hba, hax⟩
        · exact Or.inl (.tail hold' hold)
        · exact Or.inr ⟨hba, .tail hax (Or.inr ⟨hxa, hold⟩)⟩

/-- **Rewiring and cycles.**  Replacing the successors of `a` in an acyclic relation creates a cycle
exactly when a new successor reaches `a` in the old relation; the old successors of `a` play no
part. -/
theorem acyclic_redirect_iff (h : Acyclic succ) (a : α) (new : α → Prop) :
    Acyclic (redirect succ a new) ↔ ∀ b, new b → ¬ ReflTransGen succ b a := by
  constructor
  · intro hacyclic b hb hba
    have hback : ReflTransGen (redirect succ a new) b a := reflTransGen_redirect_to_self.mpr hba
    exact hacyclic a (.head' (Or.inl ⟨rfl, hb⟩) hback)
  · intro hnew c hc
    -- A cycle that is not an old one goes through `a`, hence starts with a new successor of `a`.
    have hcycle : TransGen (redirect succ a new) a a := by
      rcases transGen_redirect_cases hc with hold | ⟨hca, hac⟩
      · exact absurd hold (h c)
      · exact hac.trans_left hca
    obtain ⟨b, hab, hba⟩ := TransGen.head'_iff.mp hcycle
    rcases hab with ⟨-, hb⟩ | ⟨hne, -⟩
    · exact hnew b hb (reflTransGen_redirect_to_self.mp hba)
    · exact hne rfl

/-- A path to a predecessor of `a` does not meet `a`. -/
theorem Acyclic.reflTransGen_avoids (h : Acyclic succ) {a b c : α} (hca : succ c a)
    (hbc : ReflTransGen succ b c) :
    ReflTransGen (fun x y => x ≠ a ∧ y ≠ a ∧ succ x y) b c := by
  induction hbc using ReflTransGen.head_induction_on with
  | refl => exact .refl
  | @head x y hstep hpath ih =>
      refine .head ⟨?_, ?_, hstep⟩ ih
      · rintro rfl
        exact h x (.head' hstep (.tail hpath hca))
      · rintro rfl
        exact h y (.tail' hpath hca)

/-! ### Rank -/

open Classical in
/-- The number of elements of the carrier that `a` strictly reaches. -/
noncomputable def rank (carrier : Finset α) (succ : α → α → Prop) (a : α) : Nat :=
  (carrier.filter fun b => TransGen succ a b).card

/-- The rank decreases along every edge into the carrier. -/
theorem rank_lt {carrier : Finset α} (h : Acyclic succ) {a b : α} (hab : succ a b)
    (hb : b ∈ carrier) : rank carrier succ b < rank carrier succ a := by
  classical
  apply Finset.card_lt_card
  rw [Finset.ssubset_iff_of_subset]
  · exact ⟨b, by simp [hb, TransGen.single hab], by simp [h b]⟩
  · intro c hc
    simp only [Finset.mem_filter] at hc ⊢
    exact ⟨hc.1, .head hab hc.2⟩

/-- An element of the carrier is not among the elements it strictly reaches. -/
theorem rank_lt_card {carrier : Finset α} (h : Acyclic succ) {a : α} (ha : a ∈ carrier) :
    rank carrier succ a < carrier.card := by
  classical
  apply Finset.card_lt_card
  rw [Finset.ssubset_iff_of_subset (Finset.filter_subset _ _)]
  exact ⟨a, ha, by simp [h a]⟩

/-- Following successors ends: every element of the carrier reaches one without successors. -/
theorem Acyclic.exists_sink (h : Acyclic succ) (carrier : Finset α)
    (hclosed : ∀ a b, succ a b → b ∈ carrier) (a : α) :
    ∃ b, ReflTransGen succ a b ∧ ∀ c, ¬ succ b c := by
  induction hrank : rank carrier succ a using Nat.strong_induction_on generalizing a with
  | _ n ih =>
      by_cases hsink : ∀ c, ¬ succ a c
      · exact ⟨a, .refl, hsink⟩
      · push Not at hsink
        obtain ⟨c, hac⟩ := hsink
        obtain ⟨b, hcb, hb⟩ := ih _ (hrank ▸ rank_lt h hac (hclosed a c hac)) c rfl
        exact ⟨b, .head hac hcb, hb⟩

/-! ### Marking loops -/

/-- Every edge out of a marked element ends in a marked or a waiting element. -/
def Frontier (succ : α → α → Prop) (marked : α → Prop) (work : List α) : Prop :=
  ∀ a b, marked a → succ a b → marked b ∨ b ∈ work

variable {marked : α → Prop} {a : α} {work : List α}

/-- Dropping a waiting element that is marked already. -/
theorem Frontier.skip (h : Frontier succ marked (a :: work)) (ha : marked a) :
    Frontier succ marked work := by
  intro x y hx hxy
  rcases h x y hx hxy with hy | hy
  · exact Or.inl hy
  · rcases List.mem_cons.mp hy with rfl | hy
    · exact Or.inl ha
    · exact Or.inr hy

/-- Marking a waiting element and putting its successors on the work list. -/
theorem Frontier.visit (h : Frontier succ marked (a :: work)) {marked' : α → Prop}
    {next : List α} (hmarked : ∀ x, marked' x ↔ x = a ∨ marked x)
    (hnext : ∀ b, succ a b → b ∈ next) : Frontier succ marked' (next ++ work) := by
  intro x y hx hxy
  rcases (hmarked x).mp hx with rfl | hx
  · exact Or.inr (List.mem_append_left _ (hnext y hxy))
  · rcases h x y hx hxy with hy | hy
    · exact Or.inl ((hmarked y).mpr (Or.inr hy))
    · rcases List.mem_cons.mp hy with rfl | hy
      · exact Or.inl ((hmarked y).mpr (Or.inl rfl))
      · exact Or.inr (List.mem_append_right _ hy)

/-- With an empty work list the marked elements are closed under reachability. -/
theorem Frontier.closed (h : Frontier succ marked []) {b : α} (ha : marked a)
    (hab : ReflTransGen succ a b) : marked b := by
  induction hab with
  | refl => exact ha
  | tail _ hstep ih =>
      rcases h _ _ ih hstep with hy | hy
      · exact hy
      · exact absurd hy List.not_mem_nil

open Classical in
/-- The cost of marking what is still unmarked. -/
noncomputable def budget (carrier : Finset α) (marked : α → Prop) (cost : α → Nat) : Nat :=
  ∑ x ∈ carrier with ¬ marked x, cost x

/-- Marking an element takes its cost off the budget; outside the carrier the cost is `0`. -/
theorem budget_visit (carrier : Finset α) (marked marked' : α → Prop) (cost : α → Nat)
    (hmarked : ∀ x, marked' x ↔ x = a ∨ marked x) (ha : ¬ marked a)
    (hcost : a ∉ carrier → cost a = 0) :
    budget carrier marked' cost + cost a = budget carrier marked cost := by
  classical
  have herase : carrier.filter (fun x => ¬ marked' x) =
      (carrier.filter fun x => ¬ marked x).erase a := by
    ext x
    simp only [Finset.mem_filter, Finset.mem_erase, hmarked]
    tauto
  by_cases hmem : a ∈ carrier
  · unfold budget
    rw [herase, Finset.sum_erase_add _ _ (by simp [hmem, ha])]
  · unfold budget
    rw [herase, Finset.erase_eq_of_notMem (by simp [hmem]), hcost hmem, Nat.add_zero]

theorem budget_le (carrier : Finset α) (marked : α → Prop) (cost : α → Nat) :
    budget carrier marked cost ≤ ∑ x ∈ carrier, cost x := by
  classical
  exact Finset.sum_le_sum_of_subset (Finset.filter_subset _ _)

end Successors
