import StatForge.Lib.ExceptBind
import StatForge.StatKernel.PathSearch

/-!
# The two edge maps

What the writing parts of `setNodeDependencies` and `removeNode` do to the vectors of every node, and
that they keep the two maps mirror images of each other.

* `dependencies_rewire`, `dependents_rewire` — the vectors after the diff of old against new list.
* `Linked` — keys exist, the maps mirror each other, no vector has a duplicate.
* `Linked.rewire`, `Linked.removed` — both operations keep the maps linked.
* `setNodeDependencies_cases`, `Linked.removeNode_cases` — everything the two calls can do.
* `setNodeDependencies_succeeds_iff` — with the cycle check enabled a rewiring is accepted exactly
  when the new dependencies exist, are distinct, are not the node, and the rewired graph is acyclic.
-/

namespace StatForge.StatKernel

open Relation Successors ExceptBind

variable {D : Type} [Double D]

/-! ### Vectors in a map -/

theorem entry_insert (map : UnorderedMap (List NodeId)) (key id : NodeId) (ids : List NodeId) :
    entry (map.insert key ids) id = if id = key then ids else entry map id := by
  unfold entry
  split
  · rename_i heq
    subst heq
    rw [Finmap.lookup_insert, Option.getD_some]
  · rename_i hne
    rw [Finmap.lookup_insert_of_ne _ hne]

theorem entry_erase (map : UnorderedMap (List NodeId)) (key id : NodeId) :
    entry (map.erase key) id = if id = key then [] else entry map id := by
  unfold entry
  split
  · rename_i heq
    subst heq
    rw [Finmap.lookup_erase, Option.getD_none]
  · rename_i hne
    rw [Finmap.lookup_erase_ne hne]

theorem mem_of_mem_entry {map : UnorderedMap (List NodeId)} {key id : NodeId}
    (h : id ∈ entry map key) : key ∈ map := by
  by_contra hkey
  rw [entry_eq_nil_of_notMem (by rwa [Finmap.mem_keys])] at h
  exact List.not_mem_nil h

namespace Graph

/-! ### The loops of `setNodeDependencies` -/

theorem entry_addDependents (id : NodeId) (currentDeps : List NodeId) {newDeps : List NodeId}
    (hnodup : newDeps.Nodup) (map : UnorderedMap (List NodeId)) (d : NodeId) :
    entry (addDependents id currentDeps newDeps map) d =
      if d ∈ newDeps ∧ d ∉ currentDeps then entry map d ++ [id] else entry map d := by
  induction newDeps generalizing map with
  | nil => simp [addDependents]
  | cons dep newDeps ih =>
      obtain ⟨hdep, hnodup⟩ := List.nodup_cons.mp hnodup
      rw [addDependents, ih hnodup]
      by_cases hcurrent : dep ∈ currentDeps
      · by_cases hd : d = dep
        · subst hd; simp [hcurrent]
        · simp [hcurrent, hd]
      · by_cases hd : d = dep
        · subst hd; simp [hcurrent, hdep, entry_insert]
        · simp [hcurrent, hd, entry_insert]

theorem mem_addDependents (id : NodeId) (currentDeps newDeps : List NodeId)
    (map : UnorderedMap (List NodeId)) (d : NodeId) :
    d ∈ addDependents id currentDeps newDeps map ↔ d ∈ map ∨ (d ∈ newDeps ∧ d ∉ currentDeps) := by
  induction newDeps generalizing map with
  | nil => simp [addDependents]
  | cons dep newDeps ih =>
      rw [addDependents, ih]
      by_cases hcurrent : dep ∈ currentDeps
      · by_cases hd : d = dep
        · subst hd; simp [hcurrent]
        · simp [hcurrent, hd]
      · by_cases hd : d = dep
        · subst hd; simp [hcurrent]
        · simp [hcurrent, hd]

theorem entry_dropDependents (id : NodeId) (newDeps : List NodeId) {currentDeps : List NodeId}
    (hnodup : currentDeps.Nodup) (map : UnorderedMap (List NodeId)) (d : NodeId) :
    entry (dropDependents id newDeps currentDeps map) d =
      if d ∈ currentDeps ∧ d ∉ newDeps then (entry map d).erase id else entry map d := by
  induction currentDeps generalizing map with
  | nil => simp [dropDependents]
  | cons dep currentDeps ih =>
      obtain ⟨hdep, hnodup⟩ := List.nodup_cons.mp hnodup
      rw [dropDependents, ih hnodup]
      by_cases hnew : dep ∈ newDeps
      · by_cases hd : d = dep
        · subst hd; simp [hnew]
        · simp [hnew, hd]
      · by_cases hd : d = dep
        · subst hd; simp [hnew, hdep, entry_insert]
        · simp [hnew, hd, entry_insert]

theorem mem_dropDependents (id : NodeId) (newDeps currentDeps : List NodeId)
    (map : UnorderedMap (List NodeId)) (d : NodeId) :
    d ∈ dropDependents id newDeps currentDeps map ↔
      d ∈ map ∨ (d ∈ currentDeps ∧ d ∉ newDeps) := by
  induction currentDeps generalizing map with
  | nil => simp [dropDependents]
  | cons dep currentDeps ih =>
      rw [dropDependents, ih]
      by_cases hnew : dep ∈ newDeps
      · by_cases hd : d = dep
        · subst hd; simp [hnew]
        · simp [hnew, hd]
      · by_cases hd : d = dep
        · subst hd; simp [hnew]
        · simp [hnew, hd]

@[simp] theorem nodes_rewire (g : Graph D) (id : NodeId) (newDeps : List NodeId) :
    (g.rewire id newDeps).nodes = g.nodes := rfl

theorem dependencies_rewire (g : Graph D) (id : NodeId) (newDeps : List NodeId) (n : NodeId) :
    (g.rewire id newDeps).dependencies n = if n = id then newDeps else g.dependencies n :=
  entry_insert _ _ _ _

/-- The dependents of `d` gain `id` if `d` is a new dependency, and lose it if `d` is a former one. -/
theorem dependents_rewire (g : Graph D) (id : NodeId) {newDeps : List NodeId}
    (hnew : newDeps.Nodup) (hcurrent : (g.dependencies id).Nodup) (d : NodeId) :
    (g.rewire id newDeps).dependents d =
      if d ∈ newDeps ∧ d ∉ g.dependencies id then g.dependents d ++ [id]
      else if d ∈ g.dependencies id ∧ d ∉ newDeps then (g.dependents d).erase id
      else g.dependents d := by
  unfold rewire dependents
  rw [entry_dropDependents id newDeps hcurrent, entry_addDependents id _ hnew]
  by_cases h₁ : d ∈ newDeps <;> by_cases h₂ : d ∈ g.dependencies id <;> simp [h₁, h₂]

/-! ### The loop of `removeNode` -/

theorem eraseFromEntries_eq_ok (id : NodeId) {keys : List NodeId}
    {map : UnorderedMap (List NodeId)} (hkeys : ∀ key ∈ keys, key ∈ map) (hnodup : keys.Nodup) :
    ∃ map', eraseFromEntries id keys map = .ok map' ∧ map'.keys = map.keys ∧
      ∀ n, entry map' n = if n ∈ keys then (entry map n).erase id else entry map n := by
  induction keys generalizing map with
  | nil => exact ⟨map, rfl, rfl, by simp⟩
  | cons key keys ih =>
      obtain ⟨hkey, hnodup⟩ := List.nodup_cons.mp hnodup
      obtain ⟨ids, hlookup⟩ := Finmap.mem_iff.mp (hkeys key (by simp))
      have hentry : entry map key = ids := by simp [entry, hlookup]
      obtain ⟨map', hrun, hmap', hentries⟩ := ih
        (fun key' hkey' => (by simp [hkeys key' (by simp [hkey'])] :
          key' ∈ map.insert key (ids.erase id))) hnodup
      refine ⟨map', by simp [eraseFromEntries, hlookup, hrun], ?_, ?_⟩
      · ext n
        have hmem : n = key → n ∈ map := fun h => h ▸ hkeys key (by simp)
        simp only [hmap', Finmap.mem_keys, Finmap.mem_insert, or_iff_right_iff_imp]
        exact hmem
      · intro n
        rw [hentries, entry_insert]
        by_cases hn : n = key
        · subst hn; simp [hkey, hentry]
        · simp [hn]

/-! ### Linked maps -/

/-- `d` is a direct dependency of `n`. -/
def DependsOn (g : Graph D) (n d : NodeId) : Prop := d ∈ g.dependencies n

/-- The edge maps are mirror images over the existing nodes. -/
structure Linked (g : Graph D) : Prop where
  dependenciesKey : ∀ id ∈ g.dependenciesMap, id ∈ g.nodes
  dependentsKey : ∀ id ∈ g.dependentsMap, id ∈ g.nodes
  mirror : ∀ n d, d ∈ g.dependencies n ↔ n ∈ g.dependents d
  dependenciesNodup : ∀ n, (g.dependencies n).Nodup
  dependentsNodup : ∀ d, (g.dependents d).Nodup

variable {g : Graph D} {id n d : NodeId}

theorem Linked.dependency_mem (h : g.Linked) (hd : d ∈ g.dependencies n) : d ∈ g.nodes :=
  h.dependentsKey d (mem_of_mem_entry ((h.mirror n d).mp hd))

theorem Linked.dependent_mem (h : g.Linked) (hn : n ∈ g.dependents d) : n ∈ g.nodes :=
  h.dependenciesKey n (mem_of_mem_entry ((h.mirror n d).mpr hn))

theorem Linked.owner_mem (h : g.Linked) (hd : d ∈ g.dependencies n) : n ∈ g.nodes :=
  h.dependenciesKey n (mem_of_mem_entry hd)

/-- A node that does not exist has no vectors. -/
theorem Linked.dependencies_eq_nil (h : g.Linked) (hid : id ∉ g.nodes) : g.dependencies id = [] :=
  List.eq_nil_iff_forall_not_mem.mpr fun _ hd => hid (h.owner_mem hd)

theorem Linked.dependents_eq_nil (h : g.Linked) (hid : id ∉ g.nodes) : g.dependents id = [] :=
  List.eq_nil_iff_forall_not_mem.mpr fun _ hn => hid (h.dependency_mem ((h.mirror _ _).mpr hn))

/-- Only the edge maps and the set of nodes matter. -/
theorem Linked.of_eq {g' : Graph D} (h : g.Linked) (hnodes : ∀ id, id ∈ g.nodes → id ∈ g'.nodes)
    (hdependencies : g'.dependenciesMap = g.dependenciesMap)
    (hdependents : g'.dependentsMap = g.dependentsMap) : g'.Linked where
  dependenciesKey id hid := hnodes id (h.dependenciesKey id (hdependencies ▸ hid))
  dependentsKey id hid := hnodes id (h.dependentsKey id (hdependents ▸ hid))
  mirror n d := by simpa only [dependencies, dependents, hdependencies, hdependents] using h.mirror n d
  dependenciesNodup n := by
    simpa only [dependencies, hdependencies] using h.dependenciesNodup n
  dependentsNodup d := by
    simpa only [dependents, hdependents] using h.dependentsNodup d

theorem Linked.empty : ({} : Graph D).Linked where
  dependenciesKey _ hid := absurd hid Finmap.notMem_empty
  dependentsKey _ hid := absurd hid Finmap.notMem_empty
  mirror _ _ := by simp [dependencies, dependents, entry]
  dependenciesNodup _ := by simp [dependencies, entry]
  dependentsNodup _ := by simp [dependents, entry]

theorem mem_dependents_rewire (h : g.Linked) {newDeps : List NodeId} (hnew : newDeps.Nodup) :
    n ∈ (g.rewire id newDeps).dependents d ↔ if n = id then d ∈ newDeps else n ∈ g.dependents d := by
  rw [dependents_rewire g id hnew (h.dependenciesNodup id)]
  have hmirror := h.mirror id d
  by_cases hn : n = id
  · subst hn
    by_cases h₁ : d ∈ newDeps <;> by_cases h₂ : d ∈ g.dependencies n <;>
      simp [h₁, h₂, (h.dependentsNodup d).mem_erase_iff, hmirror.symm]
  · by_cases h₁ : d ∈ newDeps <;> by_cases h₂ : d ∈ g.dependencies id <;>
      simp [h₁, h₂, hn, (h.dependentsNodup d).mem_erase_iff]

/-- **Rewiring keeps the maps linked.** -/
theorem Linked.rewire (h : g.Linked) (hid : id ∈ g.nodes) {newDeps : List NodeId}
    (hexist : ∀ d ∈ newDeps, d ∈ g.nodes) (hnew : newDeps.Nodup) : (g.rewire id newDeps).Linked where
  dependenciesKey n hn := by
    rcases Finmap.mem_insert.mp hn with rfl | hn
    · exact hid
    · exact h.dependenciesKey n hn
  dependentsKey d hd := by
    rcases (mem_dropDependents _ _ _ _ _).mp hd with hd | ⟨hd, -⟩
    · rcases (mem_addDependents _ _ _ _ _).mp hd with hd | ⟨hd, -⟩
      · exact h.dependentsKey d hd
      · exact hexist d hd
    · exact h.dependency_mem hd
  mirror n d := by
    rw [dependencies_rewire, mem_dependents_rewire h hnew]
    by_cases hn : n = id
    · simp [hn]
    · simp [hn, h.mirror n d]
  dependenciesNodup n := by
    rw [dependencies_rewire]
    split
    · exact hnew
    · exact h.dependenciesNodup n
  dependentsNodup d := by
    rw [dependents_rewire g id hnew (h.dependenciesNodup id)]
    split
    · rename_i hd
      have hid : id ∉ g.dependents d := fun hmem => hd.2 ((h.mirror id d).mpr hmem)
      rw [List.nodup_append]
      refine ⟨h.dependentsNodup d, List.nodup_singleton id, ?_⟩
      rintro a ha b hb rfl
      exact hid (List.mem_singleton.mp hb ▸ ha)
    · split
      · exact (h.dependentsNodup d).erase id
      · exact h.dependentsNodup d

/-- Rewiring replaces the successors of one element of the dependency relation. -/
theorem dependsOn_rewire (g : Graph D) (id : NodeId) (newDeps : List NodeId) :
    (g.rewire id newDeps).DependsOn = redirect g.DependsOn id (· ∈ newDeps) := by
  funext n d
  unfold DependsOn redirect
  rw [dependencies_rewire]
  by_cases hn : n = id <;> simp [hn]

/-! ### `setNodeDependencies` -/

@[simp] theorem contains_iff : g.contains id = true ↔ id ∈ g.nodes := by simp [contains]

@[simp] theorem contains_eq_false_iff : g.contains id = false ↔ id ∉ g.nodes := by simp [contains]

/-- The first loop refuses exactly when a new dependency is missing, is the node itself or, with the
cycle check, reaches it. -/
theorem checkDependencies_spec (g : Graph D) (id : NodeId) (skipCycleCheck : Bool)
    (newDeps : List NodeId) :
    ∃ result, g.checkDependencies id skipCycleCheck newDeps = .ok result ∧
      (result = .ok () ↔ ∀ d ∈ newDeps, d ∈ g.nodes ∧ d ≠ id ∧
        (skipCycleCheck = false → ¬ ReflTransGen g.DependsOn d id)) := by
  -- One case for each test of the loop body, in the order of the source.
  induction newDeps with
  | nil => exact ⟨_, rfl, by simp⟩
  | cons d newDeps ih =>
      obtain ⟨result, hrun, hresult⟩ := ih
      by_cases hexists : d ∈ g.nodes
      · by_cases hself : d = id
        · subst hself
          exact ⟨_, by simp [checkDependencies, hexists]; rfl, by simp⟩
        · cases skipCycleCheck with
          | true =>
              exact ⟨result, by simp [checkDependencies, hexists, hself, hrun],
                by simp [hresult, hexists, hself]⟩
          | false =>
              obtain ⟨found, hsearch, hfound⟩ := hasPath_spec d id g.dependenciesMap
              change found = true ↔ ReflTransGen g.DependsOn d id at hfound
              cases found with
              | true =>
                  exact ⟨_, by simp [checkDependencies, hexists, hself, hsearch]; rfl,
                    by simp [hfound.mp rfl]⟩
              | false =>
                  have hpath : ¬ ReflTransGen g.DependsOn d id :=
                    fun h => absurd (hfound.mpr h) Bool.false_ne_true
                  exact ⟨result, by simp [checkDependencies, hexists, hself, hsearch, hrun],
                    by simp [hresult, hexists, hself, hpath]⟩
      · exact ⟨_, by simp [checkDependencies, hexists]; rfl, by simp [hexists]⟩

/-- The second loop refuses exactly the lists with a duplicate. -/
theorem checkDuplicates_eq_ok_iff (id : NodeId) (seen : Finset NodeId) (newDeps : List NodeId) :
    checkDuplicates id seen newDeps = .ok () ↔ newDeps.Nodup ∧ ∀ d ∈ newDeps, d ∉ seen := by
  -- The set grows along the list, so the statement is about every `seen`.
  induction newDeps generalizing seen with
  | nil => simp [checkDuplicates]
  | cons d newDeps ih =>
      by_cases hseen : d ∈ seen
      · simp [checkDuplicates, hseen]
      · simp only [checkDuplicates, hseen, if_false, ih, List.nodup_cons, List.forall_mem_cons,
          Finset.mem_insert, not_or, not_false_eq_true, true_and]
        constructor
        · rintro ⟨hnodup, hnew⟩
          exact ⟨⟨fun hd => (hnew d hd).1 rfl, hnodup⟩, fun x hx => (hnew x hx).2⟩
        · rintro ⟨⟨hd, hnodup⟩, hnew⟩
          exact ⟨hnodup, fun x hx => ⟨fun heq => hd (heq ▸ hx), hnew x hx⟩⟩

/-- The conditions under which a rewiring is accepted. -/
structure Accepts (g : Graph D) (id : NodeId) (newDeps : List NodeId) (skipCycleCheck : Bool) :
    Prop where
  node : id ∈ g.nodes
  exist : ∀ d ∈ newDeps, d ∈ g.nodes
  self : id ∉ newDeps
  nodup : newDeps.Nodup
  noPath : skipCycleCheck = false → ∀ d ∈ newDeps, ¬ ReflTransGen g.DependsOn d id

/-- A rewiring is carried out if it is accepted, and otherwise leaves the graph alone. -/
theorem setNodeDependencies_cases (g : Graph D) (id : NodeId) (newDeps : List NodeId)
    (skipCycleCheck : Bool) :
    (g.Accepts id newDeps skipCycleCheck ∧
      g.setNodeDependencies id newDeps skipCycleCheck = .ok (.ok (), g.rewire id newDeps)) ∨
    (¬ g.Accepts id newDeps skipCycleCheck ∧
      ∃ info, g.setNodeDependencies id newDeps skipCycleCheck = .ok (.error info, g)) := by
  by_cases hnode : id ∈ g.nodes
  · obtain ⟨result, hrun, hresult⟩ := checkDependencies_spec g id skipCycleCheck newDeps
    have hduplicates := checkDuplicates_eq_ok_iff id ∅ newDeps
    cases result with
    | error info =>
        refine Or.inr ⟨fun h => ?_, info, by simp [setNodeDependencies, hnode, hrun]⟩
        exact absurd (hresult.mpr fun d hd =>
          ⟨h.exist d hd, fun heq => h.self (heq ▸ hd), fun hskip => h.noPath hskip d hd⟩) (by simp)
    | ok done =>
        have hchecked := hresult.mp rfl
        cases hdistinct : checkDuplicates id ∅ newDeps with
        | error info =>
            -- The first loop has passed, so the list is refused for its duplicate.
            rw [hdistinct] at hduplicates
            refine Or.inr ⟨fun h => ?_, info, by simp [setNodeDependencies, hnode, hrun, hdistinct]⟩
            exact absurd (hduplicates.mpr ⟨h.nodup, by simp⟩) (by simp)
        | ok done' =>
            refine Or.inl ⟨⟨hnode, fun d hd => (hchecked d hd).1,
              fun hself => (hchecked id hself).2.1 rfl, (hduplicates.mp hdistinct).1,
              fun hskip d hd => (hchecked d hd).2.2 hskip⟩, ?_⟩
            simp [setNodeDependencies, hnode, hrun, hdistinct]
  · exact Or.inr ⟨fun h => hnode h.node, _, by simp [setNodeDependencies, hnode]; rfl⟩

/-- **No acyclic rewiring is refused, no cyclic one accepted.**  In an acyclic graph the call with the
cycle check succeeds exactly when the new dependencies exist, are distinct, are not the node itself,
and leave the graph acyclic. -/
theorem setNodeDependencies_succeeds_iff (hacyclic : Acyclic g.DependsOn) (hid : id ∈ g.nodes)
    (newDeps : List NodeId) :
    (∃ g', g.setNodeDependencies id newDeps = .ok (.ok (), g')) ↔
      (∀ d ∈ newDeps, d ∈ g.nodes) ∧ newDeps.Nodup ∧ id ∉ newDeps ∧
        Acyclic (redirect g.DependsOn id (· ∈ newDeps)) := by
  rw [acyclic_redirect_iff hacyclic]
  rcases setNodeDependencies_cases g id newDeps false with ⟨h, hrun⟩ | ⟨h, info, hrun⟩
  · simp only [hrun, Except.ok.injEq, Prod.mk.injEq, true_and, exists_eq', true_iff]
    exact ⟨h.exist, h.nodup, h.self, h.noPath rfl⟩
  · have hfail : ¬ ∃ g', g.setNodeDependencies id newDeps = .ok (.ok (), g') := by simp [hrun]
    rw [iff_false_left hfail]
    rintro ⟨hexist, hnodup, hself, hpath⟩
    exact h ⟨hid, hexist, hself, hnodup, fun _ => hpath⟩

/-! ### `removeNode` -/

/-- The scan of existing dependents refuses exactly when one of them is a formula node. -/
theorem checkDependents_spec (g : Graph D) (id : NodeId) {dependents : List NodeId}
    (hexist : ∀ n ∈ dependents, n ∈ g.nodes) :
    ∃ result, g.checkDependents id dependents = .ok result ∧
      (result = .ok () ↔ ∀ n ∈ dependents, ∀ node, g.nodes.lookup n = some node →
        node.type ≠ .formula) := by
  induction dependents with
  | nil => exact ⟨_, rfl, by simp⟩
  | cons n dependents ih =>
      obtain ⟨result, hrun, hresult⟩ := ih fun n' hn' => hexist n' (by simp [hn'])
      obtain ⟨node, hnode⟩ := Finmap.mem_iff.mp (hexist n (by simp))
      by_cases htype : node.type = .formula
      · exact ⟨_, by simp [checkDependents, Graph.node, hnode, htype]; rfl, by simp [hnode, htype]⟩
      · exact ⟨result, by simp [checkDependents, Graph.node, hnode, htype, hrun],
          by simp [hresult, hnode, htype]⟩

/-- `g'` is `g` without the node `id` and its edges. -/
structure Removed (g : Graph D) (id : NodeId) (g' : Graph D) : Prop where
  nodes : g'.nodes = g.nodes.erase id
  dependenciesKeys : g'.dependenciesMap.keys = g.dependenciesMap.keys.erase id
  dependentsKeys : g'.dependentsMap.keys = g.dependentsMap.keys.erase id
  dependencies : ∀ n, g'.dependencies n = if n = id then [] else (g.dependencies n).erase id
  dependents : ∀ d, g'.dependents d = if d = id then [] else (g.dependents d).erase id

/-- One half of a removal: the entry of `id` has left the map `own`, and `id` has left the entries of
the map `other`. -/
structure Unlinked (own other : UnorderedMap (List NodeId)) (id : NodeId)
    (own' other' : UnorderedMap (List NodeId)) : Prop where
  ownKeys : own'.keys = own.keys.erase id
  otherKeys : other'.keys = other.keys
  own : ∀ n, entry own' n = if n = id then [] else entry own n
  other : ∀ n, entry other' n = (entry other n).erase id

/-- Where there is no entry of `id` to walk through, nothing has to be erased. -/
theorem Unlinked.of_lookup_none {own other : UnorderedMap (List NodeId)}
    (hlookup : own.lookup id = none) (hmirror : ∀ n, n ∈ entry own id ↔ id ∈ entry other n) :
    Unlinked own other id own other := by
  have hnil : entry own id = [] := by simp [entry, hlookup]
  refine ⟨?_, rfl, fun n => ?_, fun n => ?_⟩
  · symm
    rw [Finset.erase_eq_self, Finmap.mem_keys, ← Finmap.lookup_eq_none, hlookup]
  · split
    · rename_i hn
      exact hn ▸ hnil
    · rfl
  · rw [List.erase_of_not_mem]
    rw [← hmirror, hnil]
    exact List.not_mem_nil

/-- Erasing `id` from the entries that its own entry lists erases it everywhere. -/
theorem Unlinked.of_lookup_some {own other : UnorderedMap (List NodeId)} {ids : List NodeId}
    (hlookup : own.lookup id = some ids) (hmirror : ∀ n, n ∈ entry own id ↔ id ∈ entry other n)
    (hnodup : (entry own id).Nodup) :
    ∃ other', eraseFromEntries id ids other = .ok other' ∧
      Unlinked own other id (own.erase id) other' := by
  have hids : entry own id = ids := by simp [entry, hlookup]
  simp only [hids] at hmirror hnodup
  obtain ⟨other', hrun, hkeys, hentries⟩ := eraseFromEntries_eq_ok id
    (fun n hn => mem_of_mem_entry ((hmirror n).mp hn)) hnodup
  refine ⟨other', hrun, Finmap.keys_erase _ _, hkeys, fun n => entry_erase _ _ _, fun n => ?_⟩
  rw [hentries]
  split
  · rfl
  · rename_i hn
    rw [List.erase_of_not_mem (mt (hmirror n).mpr hn)]

theorem unlinkDependents_ok (hmirror : ∀ n, n ∈ g.dependents id ↔ id ∈ g.dependencies n)
    (hnodup : (g.dependents id).Nodup) :
    ∃ g', g.unlinkDependents id = .ok g' ∧ g'.nodes = g.nodes ∧
      Unlinked g.dependentsMap g.dependenciesMap id g'.dependentsMap g'.dependenciesMap := by
  unfold unlinkDependents
  cases hlookup : g.dependentsMap.lookup id with
  | none => exact ⟨g, rfl, rfl, .of_lookup_none hlookup hmirror⟩
  | some dependents =>
      obtain ⟨map', hrun, hunlinked⟩ := Unlinked.of_lookup_some hlookup hmirror hnodup
      refine ⟨{ g with dependenciesMap := map', dependentsMap := g.dependentsMap.erase id }, ?_,
        rfl, hunlinked⟩
      simp only [hrun, ok_bind]

theorem unlinkDependencies_ok (hmirror : ∀ d, d ∈ g.dependencies id ↔ id ∈ g.dependents d)
    (hnodup : (g.dependencies id).Nodup) :
    ∃ g', g.unlinkDependencies id = .ok g' ∧ g'.nodes = g.nodes ∧
      Unlinked g.dependenciesMap g.dependentsMap id g'.dependenciesMap g'.dependentsMap := by
  unfold unlinkDependencies
  cases hlookup : g.dependenciesMap.lookup id with
  | none => exact ⟨g, rfl, rfl, .of_lookup_none hlookup hmirror⟩
  | some dependencies =>
      obtain ⟨map', hrun, hunlinked⟩ := Unlinked.of_lookup_some hlookup hmirror hnodup
      refine ⟨{ g with dependenciesMap := g.dependenciesMap.erase id, dependentsMap := map' }, ?_,
        rfl, hunlinked⟩
      simp only [hrun, ok_bind]

/-- The two halves of a removal one after the other. -/
theorem Linked.unlink (h : g.Linked) (id : NodeId) :
    ∃ g₁ g₂, g.unlinkDependents id = .ok g₁ ∧ g₁.unlinkDependencies id = .ok g₂ ∧
      g.Removed id { g₂ with nodes := g₂.nodes.erase id } := by
  obtain ⟨g₁, hrun₁, hnodes₁, hfirst⟩ :=
    unlinkDependents_ok (fun n => (h.mirror n id).symm) (h.dependentsNodup id)
  have hdependencies : g₁.dependencies id = (g.dependencies id).erase id := hfirst.other id
  -- The first half has erased `id` from its own vectors too, if it was in them.
  have hmirror (d : NodeId) : d ∈ g₁.dependencies id ↔ id ∈ g₁.dependents d := by
    have hdependents : g₁.dependents d = if d = id then [] else g.dependents d := hfirst.own d
    rw [hdependencies, (h.dependenciesNodup id).mem_erase_iff, h.mirror, hdependents]
    split
    · rename_i hd
      simp [hd]
    · rename_i hd
      simp [hd]
  obtain ⟨g₂, hrun₂, hnodes₂, hsecond⟩ :=
    unlinkDependencies_ok hmirror (hdependencies ▸ (h.dependenciesNodup id).erase id)
  refine ⟨g₁, g₂, hrun₁, hrun₂, ?_, ?_, hsecond.otherKeys.trans hfirst.ownKeys,
    fun n => ?_, fun d => ?_⟩
  · dsimp only
    rw [hnodes₂, hnodes₁]
  · rw [← hfirst.otherKeys]
    exact hsecond.ownKeys
  · apply (hsecond.own n).trans
    rw [hfirst.other]
    rfl
  · apply (hsecond.other d).trans
    rw [hfirst.own]
    split
    · rfl
    · rfl

/-- **Removing a node.**  In a linked graph the call fails, without a change, on a missing node and on
one that a formula node depends on; otherwise it removes the node and all its edges. -/
theorem Linked.removeNode_cases (h : g.Linked) (id : NodeId) :
    (id ∈ g.nodes ∧
      (∀ n ∈ g.dependents id, ∀ node, g.nodes.lookup n = some node → node.type ≠ .formula) ∧
      ∃ g', g.removeNode id = .ok (.ok (), g') ∧ g.Removed id g') ∨
    (∃ info, g.removeNode id = .ok (.error info, g) ∧
      (id ∉ g.nodes ∨ ∃ n ∈ g.dependents id, ∃ node, g.nodes.lookup n = some node ∧
        node.type = .formula)) := by
  by_cases hid : id ∈ g.nodes
  · obtain ⟨result, hrun, hresult⟩ :=
      checkDependents_spec g id fun n hn => h.dependent_mem (d := id) hn
    cases result with
    | error info =>
        refine Or.inr ⟨info, by simp [removeNode, hid, hrun], Or.inr ?_⟩
        by_contra hnone
        push Not at hnone
        exact absurd (hresult.mpr hnone) (by simp)
    | ok done =>
        refine Or.inl ⟨hid, hresult.mp rfl, ?_⟩
        obtain ⟨g₁, g₂, hrun₁, hrun₂, hremoved⟩ := h.unlink id
        exact ⟨_, by simp [removeNode, hid, hrun, hrun₁, hrun₂], hremoved⟩
  · exact Or.inr ⟨_, by simp [removeNode, hid]; rfl, Or.inl hid⟩

section Removed

variable {g' : Graph D}

theorem Removed.mem_dependencies (h : g.Linked) (hremoved : g.Removed id g') :
    d ∈ g'.dependencies n ↔ n ≠ id ∧ d ≠ id ∧ d ∈ g.dependencies n := by
  rw [hremoved.dependencies]
  split
  · rename_i hn
    simp [hn]
  · rename_i hn
    simp [hn, (h.dependenciesNodup n).mem_erase_iff]

theorem Removed.mem_dependents (h : g.Linked) (hremoved : g.Removed id g') :
    n ∈ g'.dependents d ↔ n ≠ id ∧ d ≠ id ∧ n ∈ g.dependents d := by
  rw [hremoved.dependents]
  split
  · rename_i hd
    simp [hd]
  · rename_i hd
    simp [hd, (h.dependentsNodup d).mem_erase_iff]

/-- **Removal keeps the maps linked.** -/
theorem Linked.removed (h : g.Linked) (hremoved : g.Removed id g') : g'.Linked where
  dependenciesKey n hn := by
    rw [← Finmap.mem_keys, hremoved.dependenciesKeys, Finset.mem_erase, Finmap.mem_keys] at hn
    rw [hremoved.nodes, Finmap.mem_erase]
    exact ⟨hn.1, h.dependenciesKey n hn.2⟩
  dependentsKey d hd := by
    rw [← Finmap.mem_keys, hremoved.dependentsKeys, Finset.mem_erase, Finmap.mem_keys] at hd
    rw [hremoved.nodes, Finmap.mem_erase]
    exact ⟨hd.1, h.dependentsKey d hd.2⟩
  mirror n d := by
    rw [hremoved.mem_dependencies h, hremoved.mem_dependents h, h.mirror n d]
  dependenciesNodup n := by
    rw [hremoved.dependencies]
    split
    · exact List.nodup_nil
    · exact (h.dependenciesNodup n).erase id
  dependentsNodup d := by
    rw [hremoved.dependents]
    split
    · exact List.nodup_nil
    · exact (h.dependentsNodup d).erase id

end Removed

end Graph

end StatForge.StatKernel
