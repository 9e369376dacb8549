import StatForge.Lib.Successors
import StatForge.StatKernel.Graph

/-!
# The path search

`hasPath` on an arbitrary map of vectors, with or without cycles: its loop ends, and it answers
whether the target is reachable (`hasPath_spec`).
-/

namespace StatForge.StatKernel

open Relation Successors

/-- `b` is in the vector stored under `a`. -/
def Edge (map : UnorderedMap (List NodeId)) (a b : NodeId) : Prop := b ∈ entry map a

theorem entry_eq_nil_of_notMem {map : UnorderedMap (List NodeId)} {id : NodeId}
    (h : id ∉ map.keys) : entry map id = [] := by
  rw [Finmap.mem_keys, ← Finmap.lookup_eq_none] at h
  simp [entry, h]

/-- The loop invariant of `hasPath`. -/
structure Searching (src target : NodeId) (map : UnorderedMap (List NodeId))
    (state : List NodeId × Finset NodeId) : Prop where
  frontier : Frontier (Edge map) (· ∈ state.2) state.1
  reached : ∀ id ∈ state.1, ReflTransGen (Edge map) src id
  source : src ∈ state.2 ∨ src ∈ state.1
  missed : target ∉ state.2

/-- The rounds that are left at most. -/
noncomputable def searchMeasure (map : UnorderedMap (List NodeId))
    (state : List NodeId × Finset NodeId) : Nat :=
  budget map.keys (· ∈ state.2) (fun id => (entry map id).length) + state.1.length

variable {src target : NodeId} {map : UnorderedMap (List NodeId)}

theorem Searching.start : Searching src target map ([src], ∅) where
  frontier := by
    intro a b ha
    exact absurd ha (Finset.notMem_empty a)
  reached := by
    intro id hid
    rw [List.mem_singleton.mp hid]
  source := Or.inr (List.mem_singleton.mpr rfl)
  missed := Finset.notMem_empty target

section Round

variable {current : NodeId} {work : List NodeId} {visited : Finset NodeId}

/-- A visited id on top of the stack is dropped. -/
theorem Searching.skip (h : Searching src target map (current :: work, visited))
    (hvisited : current ∈ visited) : Searching src target map (work, visited) where
  frontier := h.frontier.skip hvisited
  reached id hid := h.reached id (List.mem_cons_of_mem _ hid)
  source := by
    rcases h.source with hsource | hsource
    · exact Or.inl hsource
    · rcases List.mem_cons.mp hsource with rfl | hsource
      · exact Or.inl hvisited
      · exact Or.inr hsource
  missed := h.missed

/-- An id that is visited for the first time puts the ids of its vector on the stack. -/
theorem Searching.visit (h : Searching src target map (current :: work, visited))
    (htarget : current ≠ target) :
    Searching src target map ((entry map current).reverse ++ work, insert current visited) where
  frontier := h.frontier.visit (fun _ => Finset.mem_insert) fun _ hid => List.mem_reverse.mpr hid
  reached := by
    intro id hid
    rcases List.mem_append.mp hid with hid | hid
    · have hcurrent := h.reached current (by simp)
      exact hcurrent.tail (List.mem_reverse.mp hid)
    · exact h.reached id (by simp [hid])
  source := by
    rcases h.source with hsource | hsource
    · exact Or.inl (Finset.mem_insert_of_mem hsource)
    · rcases List.mem_cons.mp hsource with rfl | hsource
      · exact Or.inl (Finset.mem_insert_self _ _)
      · exact Or.inr (List.mem_append_right _ hsource)
  missed := by
    rw [Finset.mem_insert]
    rintro (rfl | hmem)
    · exact htarget rfl
    · exact h.missed hmem

end Round

/-- Every further round keeps the invariant and decreases the measure. -/
theorem Searching.next {state next : List NodeId × Finset NodeId}
    (h : Searching src target map state) (hstep : hasPathStep target map state = .inr next) :
    Searching src target map next ∧ searchMeasure map next < searchMeasure map state := by
  obtain ⟨work, visited⟩ := state
  cases work with
  | nil => cases hstep
  | cons current work =>
      simp only [hasPathStep] at hstep
      split at hstep
      · cases hstep
      · rename_i htarget
        split at hstep
        · rename_i hvisited
          obtain rfl := Sum.inr.inj hstep
          exact ⟨h.skip hvisited, by simp [searchMeasure]⟩
        · rename_i hvisited
          obtain rfl := Sum.inr.inj hstep
          refine ⟨h.visit htarget, ?_⟩
          -- The ids that go on the stack are paid for by the id that is visited.
          have hbudget := budget_visit map.keys (· ∈ visited) (· ∈ insert current visited)
            (fun id => (entry map id).length) (fun id => Finset.mem_insert) hvisited
            fun hkey => by rw [entry_eq_nil_of_notMem hkey, List.length_nil]
          simp only [searchMeasure, List.length_append, List.length_reverse, List.length_cons]
          omega

/-- The loop leaves with the answer. -/
theorem Searching.exit {state : List NodeId × Finset NodeId} {found : Bool}
    (h : Searching src target map state) (hstep : hasPathStep target map state = .inl found) :
    found = true ↔ ReflTransGen (Edge map) src target := by
  obtain ⟨work, visited⟩ := state
  cases work with
  | nil =>
      obtain rfl := Sum.inl.inj hstep
      have hsource : src ∈ visited := h.source.resolve_right List.not_mem_nil
      -- With no work left the visited ids are closed under edges, and the target is not among them.
      have hmissed : ¬ ReflTransGen (Edge map) src target :=
        fun hpath => h.missed (h.frontier.closed hsource hpath)
      simp [hmissed]
  | cons current work =>
      simp only [hasPathStep] at hstep
      split at hstep
      · rename_i htarget
        obtain rfl := Sum.inl.inj hstep
        simp [← htarget, h.reached current (by simp)]
      · split at hstep <;> cases hstep

/-- **Path search.**  On every finite map the search ends, and it answers whether the target is
reachable from the source. -/
theorem hasPath_spec (src target : NodeId) (map : UnorderedMap (List NodeId)) :
    ∃ found, hasPath src target map = .ok found ∧
      (found = true ↔ ReflTransGen (Edge map) src target) := by
  have hfuel : searchMeasure map ([src], ∅) < edgeCount map + 2 := by
    have hbudget := budget_le map.keys (· ∈ (∅ : Finset NodeId)) fun id => (entry map id).length
    simp only [searchMeasure, edgeCount, List.length_singleton]
    omega
  obtain ⟨found, hrun, hfound⟩ := FuelLoop.run_spec (Searching src target map)
    (fun found => found = true ↔ ReflTransGen (Edge map) src target) (searchMeasure map)
    (fun _ _ h hstep => h.exit hstep) (fun _ _ h hstep => h.next hstep) .start hfuel
  exact ⟨found, by simp [hasPath, hrun], hfound⟩

end StatForge.StatKernel
