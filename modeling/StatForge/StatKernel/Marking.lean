import StatForge.StatKernel.Executor
import StatForge.StatKernel.Invariant

/-!
# Marking dirty

What `Executor::markDirty` does, for a start that is the only node below which a dirty flag may be
missing.

* `markDirty_spec` — the loop ends; it sets exactly the flags of the nodes with a formula that
  transitively depend on the start, and records those of them that nothing depends on.
* `Marked.upToDate` — marking the nodes above a change makes the flags and the values of the clean
  nodes consistent again.
-/

namespace StatForge.StatKernel

open Relation Successors

variable {D : Type} [Double D]

/-- The change of a node record that marking makes. -/
def Marks (node node' : Node D) : Prop :=
  node.type ≠ .value ∧ node.dirty = false ∧ node' = { node with dirty := true }

namespace Graph

variable {g g' g'' : Graph D} {id n d : NodeId} {node : Node D}

/-- The node exists and is not a value node. -/
def HasFormula (g : Graph D) (id : NodeId) : Prop :=
  ∃ node, g.nodes.lookup id = some node ∧ node.type ≠ .value

theorem Sound.hasFormula_of_isDirty (h : g.Sound) (hdirty : g.isDirty id = true) :
    g.HasFormula id := by
  obtain ⟨node, hnode, hflag⟩ := isDirty_iff.mp hdirty
  exact ⟨node, hnode, (h.typed id node hnode).type_ne_value_of_dirty hflag⟩

theorem Sound.hasFormula_of_dependency (h : g.Sound) (hd : d ∈ g.dependencies n) :
    g.HasFormula n := by
  obtain ⟨node, hnode⟩ := Finmap.mem_iff.mp (h.linked.owner_mem hd)
  exact ⟨node, hnode, h.type_ne_value hnode hd⟩

theorem setNode_eq_self (h : g.nodes.lookup id = some node) : g.setNode id node = g := by
  have hnodes : g.nodes.insert id node = g.nodes := by
    apply Finmap.ext_lookup
    intro n
    by_cases hn : n = id
    · subst hn
      rw [Finmap.lookup_insert, h]
    · rw [Finmap.lookup_insert_of_ne _ hn]
  rw [setNode, hnodes]

/-! ### Graphs that differ in flags only -/

section Marks

variable (h : Updates Marks g g')

include h

theorem marks_sound (hsound : g.Sound) : g'.Sound := by
  apply h.sound hsound
  rintro id node _ htyped ⟨htype, -, rfl⟩
  exact htyped.update fun hvalue => absurd hvalue htype

theorem marks_isDirty (hdirty : g.isDirty n = true) : g'.isDirty n = true := by
  rcases h.node n with hsame | ⟨node, _, _, ⟨-, -, rfl⟩, hnode'⟩
  · rwa [isDirty, hsame]
  · exact isDirty_of_lookup hnode'

/-- A node that is clean afterwards has kept its record. -/
theorem marks_lookup_of_clean (hclean : g'.isDirty n = false) :
    g'.nodes.lookup n = g.nodes.lookup n := by
  rcases h.node n with hsame | ⟨node, _, _, ⟨-, -, rfl⟩, hnode'⟩
  · exact hsame
  · rw [isDirty_of_lookup hnode'] at hclean
    cases hclean

theorem marks_valueOf : g'.valueOf = g.valueOf := by
  funext n
  rcases h.node n with hsame | ⟨node, _, hnode, ⟨-, -, rfl⟩, hnode'⟩
  · simp only [valueOf, Graph.node, hsame]
  · rw [valueOf_of_lookup hnode, valueOf_of_lookup hnode']

theorem marks_definition : g'.definition = g.definition := by
  funext n
  rcases h.node n with hsame | ⟨node, _, hnode, ⟨-, -, rfl⟩, hnode'⟩
  · simp only [definition, hsame, h.dependencies_eq]
  · simp only [definition, hnode, hnode', h.dependencies_eq]

theorem marks_hasFormula : g'.HasFormula n ↔ g.HasFormula n := by
  unfold HasFormula
  rcases h.node n with hsame | ⟨node, _, hnode, ⟨-, -, rfl⟩, hnode'⟩
  · rw [hsame]
  · simp [hnode, hnode']

end Marks

theorem marks_trans (h : Updates Marks g g') (h' : Updates Marks g' g'') : Updates Marks g g'' := by
  apply h.trans h'
  rintro a _ c ⟨-, -, rfl⟩ ⟨-, hclean, -⟩
  simp at hclean

/-! ### The effect of marking -/

/-- The nodes with a formula that transitively depend on a source have become dirty, and those of them
that nothing depends on have joined the dirty leaves. -/
structure Marked (g : Graph D) (dirtyLeaves sources : List NodeId) (g' : Graph D)
    (dirtyLeaves' : List NodeId) : Prop where
  updates : Updates Marks g g'
  dirty : ∀ n, g'.isDirty n = true ↔ g.isDirty n = true ∨
    g.HasFormula n ∧ ∃ id ∈ sources, ReflTransGen g.DependsOn n id
  leaves : ∃ new, dirtyLeaves' = dirtyLeaves ++ new ∧ new.Nodup ∧ ∀ n, n ∈ new ↔
    g'.isDirty n = true ∧ g.isDirty n = false ∧ g.dependents n = []

/-- The flags are closed under dependents, except that a source may still be missing. -/
def DirtyUpExcept (g : Graph D) (sources : List NodeId) : Prop :=
  ∀ n d, d ∈ g.dependencies n → g.isDirty d = true → g.isDirty n = true ∨ n ∈ sources

/-- Only nodes above the sources may be out of date, and only a source may lack a flag. -/
structure StaleAbove (g : Graph D) (sources : List NodeId) : Prop where
  dirtyUp : g.DirtyUpExcept sources
  current : ∀ n, g.isDirty n = false → g.Current n ∨
    g.HasFormula n ∧ ∃ id ∈ sources, ReflTransGen g.DependsOn n id

namespace Marked

variable {dirtyLeaves dirtyLeaves' dirtyLeaves'' sources sources' : List NodeId}

theorem refl (g : Graph D) (dirtyLeaves : List NodeId) : g.Marked dirtyLeaves [] g dirtyLeaves where
  updates := .refl _ _
  dirty n := by simp
  leaves := ⟨[], by simp, List.nodup_nil, fun n => by cases g.isDirty n <;> simp⟩

theorem trans (h : g.Marked dirtyLeaves sources g' dirtyLeaves')
    (h' : g'.Marked dirtyLeaves' sources' g'' dirtyLeaves'') :
    g.Marked dirtyLeaves (sources ++ sources') g'' dirtyLeaves'' where
  updates := marks_trans h.updates h'.updates
  dirty n := by
    rw [h'.dirty, h.dirty, marks_hasFormula h.updates, h.updates.dependsOn_eq]
    simp only [List.mem_append, or_and_right, exists_or, and_or_left, or_assoc]
  leaves := by
    obtain ⟨new, rfl, hnodup, hnew⟩ := h.leaves
    obtain ⟨new', rfl, hnodup', hnew'⟩ := h'.leaves
    refine ⟨new ++ new', List.append_assoc _ _ _, ?_, fun n => ?_⟩
    · refine List.nodup_append.mpr ⟨hnodup, hnodup', ?_⟩
      rintro a ha b hb rfl
      have hdirty := ((hnew a).mp ha).1
      rw [((hnew' a).mp hb).2.1] at hdirty
      cases hdirty
    · rw [List.mem_append, hnew, hnew', h.updates.dependents_eq]
      -- Flags only go up, so a node is recorded in the stage in which it becomes dirty.
      have hmono := marks_isDirty h.updates (n := n)
      have hmono' := marks_isDirty h'.updates (n := n)
      cases hn : g.isDirty n <;> cases hn' : g'.isDirty n <;> cases hn'' : g''.isDirty n <;>
        simp_all

/-- If every dirty node without dependents was recorded before marking, it is so afterwards. -/
theorem covered (h : g.Marked dirtyLeaves sources g' dirtyLeaves')
    (hcovered : ∀ n, g.isDirty n = true → g.dependents n = [] → n ∈ dirtyLeaves) :
    ∀ n, g'.isDirty n = true → g'.dependents n = [] → n ∈ dirtyLeaves' := by
  intro n hdirty hleaf
  obtain ⟨new, rfl, -, hnew⟩ := h.leaves
  rw [h.updates.dependents_eq] at hleaf
  rw [List.mem_append, hnew]
  cases hbefore : g.isDirty n with
  | true => exact Or.inl (hcovered n hbefore hleaf)
  | false => exact Or.inr ⟨hdirty, rfl, hleaf⟩

/-- A dirty node is not recorded again. -/
theorem mem_leaves_of_isDirty (h : g.Marked dirtyLeaves sources g' dirtyLeaves')
    (hdirty : g.isDirty n = true) (hn : n ∈ dirtyLeaves') : n ∈ dirtyLeaves := by
  obtain ⟨new, rfl, -, hnew⟩ := h.leaves
  apply (List.mem_append.mp hn).resolve_right
  intro hn
  rw [((hnew n).mp hn).2.1] at hdirty
  cases hdirty

/-- A leaf after marking was one before, or exists. -/
theorem leaf_cases (h : g.Marked dirtyLeaves sources g' dirtyLeaves') (hn : n ∈ dirtyLeaves') :
    n ∈ dirtyLeaves ∨ n ∈ g.nodes := by
  obtain ⟨new, rfl, -, hnew⟩ := h.leaves
  rcases List.mem_append.mp hn with hn | hn
  · exact Or.inl hn
  · exact Or.inr (h.updates.mem_iff.mp (mem_of_isDirty ((hnew n).mp hn).1))

/-- After marking, the flags are closed under dependents. -/
theorem dirtyUp (h : g.Marked dirtyLeaves sources g' dirtyLeaves') (hsound : g.Sound)
    (hup : g.DirtyUpExcept sources) (hd : d ∈ g'.dependencies n) (hdirty : g'.isDirty d = true) :
    g'.isDirty n = true := by
  rw [h.updates.dependencies_eq] at hd
  -- The dependency was dirty before, or is above a source, and then its dependent is too.
  have hformula := hsound.hasFormula_of_dependency hd
  rw [h.dirty] at hdirty ⊢
  rcases hdirty with hdirty | ⟨-, id, hid, hpath⟩
  · rcases hup n d hd hdirty with hn | hn
    · exact Or.inl hn
    · exact Or.inr ⟨hformula, n, hn, .refl⟩
  · exact Or.inr ⟨hformula, id, hid, .head hd hpath⟩

/-- **Marking restores consistency.**  If only nodes above a source may be out of date, marking the
sources makes the graph up to date. -/
theorem upToDate (h : g.Marked dirtyLeaves sources g' dirtyLeaves') (hsound : g.Sound)
    (hstale : g.StaleAbove sources) : g'.UpToDate where
  dirtyUp n d hd hdirty := h.dirtyUp hsound hstale.dirtyUp hd hdirty
  current n hclean := by
    have hnot : ¬ (g.isDirty n = true ∨
        g.HasFormula n ∧ ∃ id ∈ sources, ReflTransGen g.DependsOn n id) := by
      rw [← h.dirty, hclean]
      exact Bool.false_ne_true
    have hbefore : g.isDirty n = false := by
      simpa using fun hdirty => hnot (Or.inl hdirty)
    have hvalue := (hstale.current n hbefore).resolve_right fun hreached => hnot (Or.inr hreached)
    intro node definition hnode hdefinition
    rw [marks_lookup_of_clean h.updates hclean] at hnode
    rw [marks_definition h.updates] at hdefinition
    rw [marks_valueOf h.updates]
    exact hvalue node definition hnode hdefinition

end Marked

/-! ### The loop -/

/-- The state of the marking loop: work stack, graph, dirty leaves. -/
abbrev MarkingState (D : Type) [Double D] := List NodeId × Graph D × List NodeId

/-- The loop invariant.  `extra` is empty or the start, if that is a value node and has been
visited. -/
structure Marking (g : Graph D) (dirtyLeaves : List NodeId) (id : NodeId) (extra : NodeId → Prop)
    (state : MarkingState D) : Prop where
  updates : Updates Marks g state.2.1
  frontier : Frontier (fun a b => b ∈ g.dependents a)
    (fun n => state.2.1.isDirty n = true ∨ extra n) state.1
  work : ∀ n ∈ state.1, g.HasFormula n ∧ ReflTransGen g.DependsOn n id
  reached : ∀ n, state.2.1.isDirty n = true → g.isDirty n = true ∨ ReflTransGen g.DependsOn n id
  source : state.2.1.isDirty id = true ∨ extra id ∨ id ∈ state.1
  leaves : ∃ new, state.2.2 = dirtyLeaves ++ new ∧ new.Nodup ∧ ∀ n, n ∈ new ↔
    state.2.1.isDirty n = true ∧ g.isDirty n = false ∧ g.dependents n = []

/-- The rounds that are left at most. -/
noncomputable def markingMeasure (g : Graph D) (state : MarkingState D) : Nat :=
  budget g.dependentsMap.keys (fun n => state.2.1.isDirty n = true)
    (fun n => (g.dependents n).length) + state.1.length

section MarkingLoop

variable {dirtyLeaves leavesNow work : List NodeId} {extra : NodeId → Prop} {gNow : Graph D}
  {current : NodeId}

/-- A dirty node on top of the stack is dropped. -/
theorem Marking.skip (h : g.Marking dirtyLeaves id extra (current :: work, gNow, leavesNow))
    (hcurrent : gNow.isDirty current = true) :
    g.Marking dirtyLeaves id extra (work, gNow, leavesNow) where
  updates := h.updates
  frontier := h.frontier.skip (Or.inl hcurrent)
  work n hn := h.work n (List.mem_cons_of_mem _ hn)
  reached := h.reached
  source := by
    rcases h.source with hsource | hsource | hsource
    · exact Or.inl hsource
    · exact Or.inr (Or.inl hsource)
    · rcases List.mem_cons.mp hsource with rfl | hsource
      · exact Or.inl hcurrent
      · exact Or.inr (Or.inr hsource)
  leaves := h.leaves

theorem isDirty_mark (current n : NodeId) (node : Node D) :
    (gNow.setNode current { node with dirty := true }).isDirty n = true ↔
      n = current ∨ gNow.isDirty n = true := by
  rw [isDirty_setNode]
  split <;> simp_all

/-- The record of the top of the stack is still that of a node with a formula. -/
theorem Marking.type_ne_value (h : g.Marking dirtyLeaves id extra (current :: work, gNow, leavesNow))
    (hnode : gNow.nodes.lookup current = some node) : node.type ≠ .value := by
  obtain ⟨hformula, -⟩ := h.work current (by simp)
  obtain ⟨node', hnode', htype⟩ := (marks_hasFormula h.updates).mpr hformula
  obtain rfl := Option.some.inj (hnode.symm.trans hnode')
  exact htype

/-- A node that becomes dirty joins the dirty leaves exactly if nothing depends on it. -/
theorem Marking.visit_leaves (h : g.Marking dirtyLeaves id extra (current :: work, gNow, leavesNow))
    (hclean : gNow.isDirty current = false) (hcleanStart : g.isDirty current = false) :
    ∃ new, (if g.dependents current = [] then leavesNow ++ [current] else leavesNow) =
        dirtyLeaves ++ new ∧ new.Nodup ∧ ∀ n, n ∈ new ↔
      (gNow.setNode current { node with dirty := true }).isDirty n = true ∧
        g.isDirty n = false ∧ g.dependents n = [] := by
  obtain ⟨new, hleaves, hnodup, hnew⟩ := h.leaves
  dsimp only at hleaves hnew
  by_cases hnil : g.dependents current = []
  · have hfresh : current ∉ new := by
      intro hin
      rw [((hnew current).mp hin).1] at hclean
      cases hclean
    refine ⟨new ++ [current], by simp [hnil, hleaves], ?_, fun n => ?_⟩
    · exact List.nodup_append_comm.mp (List.nodup_cons.mpr ⟨hfresh, hnodup⟩)
    · rw [List.mem_append, List.mem_singleton, hnew, isDirty_mark]
      constructor
      · rintro (⟨hn, hstart, hleaf⟩ | rfl)
        · exact ⟨Or.inr hn, hstart, hleaf⟩
        · exact ⟨Or.inl rfl, hcleanStart, hnil⟩
      · rintro ⟨rfl | hn, hstart, hleaf⟩
        · exact Or.inr rfl
        · exact Or.inl ⟨hn, hstart, hleaf⟩
  · refine ⟨new, by simp [hnil, hleaves], hnodup, fun n => ?_⟩
    rw [hnew, isDirty_mark]
    constructor
    · rintro ⟨hn, hrest⟩
      exact ⟨Or.inr hn, hrest⟩
    · rintro ⟨rfl | hn, hstart, hleaf⟩
      · exact absurd hleaf hnil
      · exact ⟨hn, hstart, hleaf⟩

/-- A clean node on top of the stack becomes dirty, and its dependents go on the stack. -/
theorem Marking.visit (h : g.Marking dirtyLeaves id extra (current :: work, gNow, leavesNow))
    (hsound : g.Sound) (hnode : gNow.nodes.lookup current = some node) (hflag : node.dirty = false) :
    g.Marking dirtyLeaves id extra ((g.dependents current).reverse ++ work,
      gNow.setNode current { node with dirty := true },
      if g.dependents current = [] then leavesNow ++ [current] else leavesNow) := by
  obtain ⟨-, hpath⟩ := h.work current (by simp)
  have hclean : gNow.isDirty current = false := by rw [isDirty_of_lookup hnode, hflag]
  have hcleanStart : g.isDirty current = false := by
    by_contra hstart
    rw [marks_isDirty h.updates (by simpa using hstart)] at hclean
    cases hclean
  constructor
  case updates =>
    exact marks_trans h.updates (.setNode hnode ⟨h.type_ne_value hnode, hflag, rfl⟩)
  case frontier =>
    refine h.frontier.visit (fun n => ?_) fun b hb => List.mem_reverse.mpr hb
    rw [isDirty_mark, or_assoc]
  case work =>
    intro n hn
    rcases List.mem_append.mp hn with hn | hn
    · have hdependency := (hsound.linked.mirror n current).mpr (List.mem_reverse.mp hn)
      exact ⟨hsound.hasFormula_of_dependency hdependency, .head hdependency hpath⟩
    · exact h.work n (List.mem_cons_of_mem _ hn)
  case reached =>
    intro n hn
    rcases (isDirty_mark current n node).mp hn with rfl | hn
    · exact Or.inr hpath
    · exact h.reached n hn
  case source =>
    rcases h.source with hsource | hsource | hsource
    · exact Or.inl ((isDirty_mark current id node).mpr (Or.inr hsource))
    · exact Or.inr (Or.inl hsource)
    · rcases List.mem_cons.mp hsource with heq | hsource
      · exact Or.inl ((isDirty_mark current id node).mpr (Or.inl heq))
      · exact Or.inr (Or.inr (List.mem_append_right _ hsource))
  case leaves => exact h.visit_leaves hclean hcleanStart

/-- Every further round keeps the invariant and decreases the measure. -/
theorem Marking.next (hsound : g.Sound) {state next : MarkingState D}
    (h : g.Marking dirtyLeaves id extra state) (hstep : markDirtyStep state = .inr next) :
    g.Marking dirtyLeaves id extra next ∧ g.markingMeasure next < g.markingMeasure state := by
  obtain ⟨work, gNow, leavesNow⟩ := state
  cases work with
  | nil => cases hstep
  | cons current work =>
      obtain ⟨⟨_, hnodeStart, -⟩, -⟩ := h.work current (by simp)
      obtain ⟨node, hnode⟩ := Finmap.mem_iff.mp
        (h.updates.mem_iff.mpr (Finmap.mem_of_lookup_eq_some hnodeStart))
      simp only [markDirtyStep, node_of_lookup hnode] at hstep
      split at hstep
      · rename_i hdirty
        obtain rfl := Sum.inr.inj hstep
        exact ⟨h.skip (by rw [isDirty_of_lookup hnode, hdirty]), by simp [markingMeasure]⟩
      · rename_i hdirty
        have hflag : node.dirty = false := by simpa using hdirty
        have hvisit := h.visit hsound hnode hflag
        have hbudget := budget_visit g.dependentsMap.keys (fun n => gNow.isDirty n = true)
          (fun n => (gNow.setNode current { node with dirty := true }).isDirty n = true)
          (fun n => (g.dependents n).length) (fun n => isDirty_mark current n node)
          (by simp [isDirty_of_lookup hnode, hflag])
          fun hkey => by rw [dependents, entry_eq_nil_of_notMem hkey, List.length_nil]
        have hdependents : gNow.dependents current = g.dependents current :=
          h.updates.dependents_eq current
        simp only [h.type_ne_value hnode, hdependents, ne_eq, not_false_eq_true, decide_true,
          List.isEmpty_iff, and_true] at hstep
        obtain rfl := Sum.inr.inj hstep
        refine ⟨hvisit, ?_⟩
        simp only [markingMeasure, List.length_append, List.length_reverse, List.length_cons]
        omega

/-- The loop leaves with the marked graph. -/
theorem Marking.exit (hsound : g.Sound) (hextra : ∀ n, extra n → ¬ g.HasFormula n)
    {state : MarkingState D} {result : Except Abort (Graph D × List NodeId)}
    (h : g.Marking dirtyLeaves id extra state) (hstep : markDirtyStep state = .inl result) :
    ∃ g' dirtyLeaves', result = .ok (g', dirtyLeaves') ∧
      g.Marked dirtyLeaves [id] g' dirtyLeaves' := by
  obtain ⟨work, gNow, leavesNow⟩ := state
  cases work with
  | cons current work =>
      obtain ⟨⟨_, hnodeStart, -⟩, -⟩ := h.work current (by simp)
      obtain ⟨node, hnode⟩ := Finmap.mem_iff.mp
        (h.updates.mem_iff.mpr (Finmap.mem_of_lookup_eq_some hnodeStart))
      simp only [markDirtyStep, node_of_lookup hnode] at hstep
      split at hstep <;> cases hstep
  | nil =>
      -- No work is left: what the loop has reached is closed under dependents.
      refine ⟨gNow, leavesNow, (Sum.inl.inj hstep).symm, h.updates, fun n => ?_, h.leaves⟩
      simp only [List.mem_singleton, exists_eq_left]
      constructor
      · intro hdirty
        refine (h.reached n hdirty).imp_right fun hpath => ⟨?_, hpath⟩
        exact (marks_hasFormula h.updates).mp
          ((marks_sound h.updates hsound).hasFormula_of_isDirty hdirty)
      · rintro (hdirty | ⟨hformula, hpath⟩)
        · exact marks_isDirty h.updates hdirty
        · have hsource : gNow.isDirty id = true ∨ extra id :=
            h.source.imp_right fun hsource => hsource.resolve_right List.not_mem_nil
          have hup : ReflTransGen (fun a b => b ∈ g.dependents a) id n := by
            rw [← reflTransGen_swap]
            exact ReflTransGen.mono (fun a b hab => (hsound.linked.mirror a b).mp hab) _ _ hpath
          rcases h.frontier.closed hsource hup with hdirty | hn
          · exact hdirty
          · exact absurd hformula (hextra n hn)

/-- The loop invariant in front of a node with a formula. -/
theorem Marking.start (hformula : g.HasFormula id) (hup : g.DirtyUpExcept [id])
    (hsound : g.Sound) :
    g.Marking dirtyLeaves id (fun _ => False) ([id], g, dirtyLeaves) where
  updates := .refl _ _
  frontier d n hd hn := by
    have hdependency := (hsound.linked.mirror n d).mpr hn
    exact (hup n d hdependency (hd.resolve_right not_false)).imp_left Or.inl
  work n hn := by
    rw [List.mem_singleton.mp hn]
    exact ⟨hformula, .refl⟩
  reached n hn := Or.inl hn
  source := by simp
  leaves := (Marked.refl g dirtyLeaves).leaves

/-- The loop invariant behind the first round on a value node, which stays clean: its dependents
start the marking. -/
theorem Marking.start_value (hup : g.DirtyUpExcept [id]) (hsound : g.Sound) :
    g.Marking dirtyLeaves id (· = id) ((g.dependents id).reverse, g, dirtyLeaves) where
  updates := .refl _ _
  frontier d n hd hn := by
    have hdependency := (hsound.linked.mirror n d).mpr hn
    rcases hd with hdirty | rfl
    · rcases hup n d hdependency hdirty with hdirty | hsource
      · exact Or.inl (Or.inl hdirty)
      · exact Or.inl (Or.inr (List.mem_singleton.mp hsource))
    · exact Or.inr (List.mem_reverse.mpr hn)
  work n hn := by
    have hdependency := (hsound.linked.mirror n id).mpr (List.mem_reverse.mp hn)
    exact ⟨hsound.hasFormula_of_dependency hdependency, .single hdependency⟩
  reached n hn := Or.inl hn
  source := by simp
  leaves := (Marked.refl g dirtyLeaves).leaves

end MarkingLoop

/-- From a value node, the first round of the loop only replaces it by its dependents. -/
theorem Sound.markDirtyStep_value (h : g.Sound) (hnode : g.nodes.lookup id = some node)
    (htype : node.type = .value) (dirtyLeaves : List NodeId) :
    markDirtyStep ([id], g, dirtyLeaves) = .inr ((g.dependents id).reverse, g, dirtyLeaves) := by
  have hflag : node.dirty = false := by
    by_contra hdirty
    exact (h.typed id node hnode).type_ne_value_of_dirty (by simpa using hdirty) htype
  have hrecord : { node with dirty := decide (node.type ≠ .value) } = node := by
    cases node
    simp_all
  simp only [markDirtyStep, node_of_lookup hnode, hrecord, setNode_eq_self hnode]
  simp [hflag, htype]

/-- **Marking.**  From an existing node, above which alone a flag may be missing, `markDirty`
returns, and has marked the nodes above it. -/
theorem markDirty_spec (hsound : g.Sound) (hid : id ∈ g.nodes) (hup : g.DirtyUpExcept [id])
    (executor : Executor) :
    ∃ executor' g', executor.markDirty g id = .ok (executor', g') ∧
      executor'.evaluateImpl = executor.evaluateImpl ∧
      g.Marked executor.dirtyLeaves [id] g' executor'.dirtyLeaves := by
  suffices hrun : ∃ result,
      FuelLoop.run markDirtyStep (edgeCount g.dependentsMap + (g.dependents id).length + 2)
        ([id], g, executor.dirtyLeaves) = some result ∧
      ∃ g' dirtyLeaves', result = .ok (g', dirtyLeaves') ∧
        g.Marked executor.dirtyLeaves [id] g' dirtyLeaves' by
    obtain ⟨_, hrun, g', dirtyLeaves', rfl, hmarked⟩ := hrun
    exact ⟨{ executor with dirtyLeaves := dirtyLeaves' }, g', by simp [Executor.markDirty, hrun], rfl,
      hmarked⟩
  -- Every edge is put on the stack at most once.
  have hbudget : budget g.dependentsMap.keys (fun n => g.isDirty n = true)
      (fun n => (g.dependents n).length) ≤ edgeCount g.dependentsMap := budget_le ..
  obtain ⟨node, hnode⟩ := Finmap.mem_iff.mp hid
  by_cases htype : node.type = .value
  · rw [FuelLoop.run_succ_of_next (hsound.markDirtyStep_value hnode htype executor.dirtyLeaves)]
    refine FuelLoop.run_spec (g.Marking executor.dirtyLeaves id (· = id)) _ g.markingMeasure
      (fun _ _ h hstep => h.exit hsound ?_ hstep)
      (fun _ _ h hstep => h.next hsound hstep) (.start_value hup hsound) ?_
    · rintro n rfl ⟨node', hnode', htype'⟩
      obtain rfl := Option.some.inj (hnode.symm.trans hnode')
      exact htype' htype
    · simp only [markingMeasure, List.length_reverse]
      omega
  · refine FuelLoop.run_spec (g.Marking executor.dirtyLeaves id fun _ => False) _ g.markingMeasure
      (fun _ _ h hstep => h.exit hsound (by simp) hstep)
      (fun _ _ h hstep => h.next hsound hstep) (.start ⟨node, hnode, htype⟩ hup hsound) ?_
    simp only [markingMeasure, List.length_singleton]
    omega

end Graph

end StatForge.StatKernel
