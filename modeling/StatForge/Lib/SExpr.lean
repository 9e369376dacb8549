import Mathlib.Data.List.Basic
import Mathlib.Data.Set.Function

/-!
# S-expressions

Words and nodes in parentheses, written over any alphabet that has two parentheses and a blank.  A node
is its head and its items, each item behind a blank.

* `SExpr.render` — how an expression is written.
* `SExpr.render_append_inj` — an expression is read off the front of a text in one way only, as long as
  what stands behind it starts with a blank or a closing parenthesis.
* `SExpr.render_injOn` — well-formed expressions that are written alike are the same.
-/

inductive SExpr (α : Type*)
  | word (text : List α)
  | node (head : List α) (items : List (SExpr α))

/-- The characters that words leave free for the writing of expressions. -/
structure Delimiters (α : Type*) where
  opening : α
  closing : α
  blank : α
  closing_ne_blank : closing ≠ blank

namespace Delimiters

variable {α : Type*} (d : Delimiters α)

/-- A text without parentheses and blanks. -/
def Free (text : List α) : Prop := ∀ c ∈ text, c ≠ d.opening ∧ c ≠ d.closing ∧ c ≠ d.blank

/-- What stands behind an expression: nothing, an item, or the end of a node. -/
def Ends (tail : List α) : Prop := ∀ c ∈ tail.head?, c = d.closing ∨ c = d.blank

variable {d}

theorem ends_nil : d.Ends [] := by simp [Ends]

theorem ends_closing (tail : List α) : d.Ends (d.closing :: tail) := by simp [Ends]

theorem ends_blank (tail : List α) : d.Ends (d.blank :: tail) := by simp [Ends]

theorem Free.cons_iff {c : α} {text : List α} :
    d.Free (c :: text) ↔ (c ≠ d.opening ∧ c ≠ d.closing ∧ c ≠ d.blank) ∧ d.Free text :=
  List.forall_mem_cons

/-- A character of a free text ends nothing. -/
theorem Free.not_ends {c : α} {text tail : List α} (h : d.Free (c :: text)) :
    ¬ d.Ends (c :: tail) := by
  intro hends
  obtain ⟨⟨-, hclosing, hblank⟩, -⟩ := Free.cons_iff.mp h
  rcases hends c rfl with heq | heq
  · exact hclosing heq
  · exact hblank heq

/-- A free text in front of an end is read in one way only. -/
theorem Free.append_inj {text text' tail tail' : List α} (h : d.Free text) (h' : d.Free text')
    (hends : d.Ends tail) (hends' : d.Ends tail') (heq : text ++ tail = text' ++ tail') :
    text = text' ∧ tail = tail' := by
  induction text generalizing text' with
  | nil =>
      cases text' with
      | nil => exact ⟨rfl, heq⟩
      | cons c' text' =>
          rw [List.nil_append, List.cons_append] at heq
          exact absurd (heq ▸ hends) h'.not_ends
  | cons c text ih =>
      cases text' with
      | nil =>
          rw [List.nil_append, List.cons_append] at heq
          exact absurd (heq.symm ▸ hends') h.not_ends
      | cons c' text' =>
          rw [List.cons_append, List.cons_append] at heq
          obtain ⟨rfl, hrest⟩ := List.cons_eq_cons.mp heq
          obtain ⟨rfl, htail⟩ := ih (Free.cons_iff.mp h).2 (Free.cons_iff.mp h').2 hrest
          exact ⟨rfl, htail⟩

end Delimiters

namespace SExpr

variable {α : Type*} (d : Delimiters α)

mutual
/-- A word is its text; a node is its head and, each behind a blank, its items, in parentheses. -/
def render : SExpr α → List α
  | .word text => text
  | .node head items => d.opening :: (head ++ renderItems items)

/-- The items and the parenthesis behind them. -/
def renderItems : List (SExpr α) → List α
  | [] => [d.closing]
  | item :: items => d.blank :: (item.render ++ renderItems items)
end

mutual
/-- Words are free texts and not empty, heads are free texts. -/
def WellFormed : SExpr α → Prop
  | .word text => d.Free text ∧ text ≠ []
  | .node head items => d.Free head ∧ WellFormedItems items

def WellFormedItems : List (SExpr α) → Prop
  | [] => True
  | item :: items => item.WellFormed ∧ WellFormedItems items
end

variable {d}

theorem ends_renderItems (items : List (SExpr α)) (tail : List α) :
    d.Ends (renderItems d items ++ tail) := by
  cases items with
  | nil => exact Delimiters.ends_closing tail
  | cons item items => exact Delimiters.ends_blank _

/-- A word is no node: it does not start with a parenthesis. -/
theorem word_ne_node {text tail rest : List α} (h : d.Free text) (hne : text ≠ []) :
    text ++ tail ≠ d.opening :: rest := by
  cases text with
  | nil => exact absurd rfl hne
  | cons c text =>
      intro heq
      exact (Delimiters.Free.cons_iff.mp h).1.1 (List.cons_eq_cons.mp heq).1

mutual
/-- **An expression is read in one way only.** -/
theorem render_append_inj {tail tail' : List α} : ∀ (s t : SExpr α), s.WellFormed d →
    t.WellFormed d → d.Ends tail → d.Ends tail' → render d s ++ tail = render d t ++ tail' →
      s = t ∧ tail = tail'
  | .word text, .word text', hs, ht, hends, hends', h => by
      obtain ⟨rfl, htail⟩ := hs.1.append_inj ht.1 hends hends' h
      exact ⟨rfl, htail⟩
  | .word text, .node head items, hs, _, _, _, h => absurd h (word_ne_node hs.1 hs.2)
  | .node head items, .word text, _, ht, _, _, h => absurd h.symm (word_ne_node ht.1 ht.2)
  | .node head items, .node head' items', hs, ht, hends, hends', h => by
      rw [render, render, List.cons_append, List.cons_append, List.append_assoc,
        List.append_assoc] at h
      obtain ⟨rfl, hitems⟩ := hs.1.append_inj ht.1 (ends_renderItems items tail)
        (ends_renderItems items' tail') (List.cons_eq_cons.mp h).2
      obtain ⟨rfl, htail⟩ := renderItems_append_inj items items' hs.2 ht.2 hitems
      exact ⟨rfl, htail⟩

theorem renderItems_append_inj {tail tail' : List α} : ∀ (items items' : List (SExpr α)),
    WellFormedItems d items → WellFormedItems d items' →
      renderItems d items ++ tail = renderItems d items' ++ tail' → items = items' ∧ tail = tail'
  | [], [], _, _, h => ⟨rfl, (List.cons_eq_cons.mp h).2⟩
  | [], _ :: _, _, _, h => absurd (List.cons_eq_cons.mp h).1 d.closing_ne_blank
  | _ :: _, [], _, _, h => absurd (List.cons_eq_cons.mp h).1 d.closing_ne_blank.symm
  | item :: items, item' :: items', hs, ht, h => by
      rw [renderItems, renderItems, List.cons_append, List.cons_append, List.append_assoc,
        List.append_assoc] at h
      obtain ⟨rfl, hrest⟩ := render_append_inj item item' hs.1 ht.1 (ends_renderItems items tail)
        (ends_renderItems items' tail') (List.cons_eq_cons.mp h).2
      obtain ⟨rfl, htail⟩ := renderItems_append_inj items items' hs.2 ht.2 hrest
      exact ⟨rfl, htail⟩
end

/-- Well-formed expressions are written apart. -/
theorem render_injOn : Set.InjOn (render d) {s | s.WellFormed d} := by
  intro s hs t ht h
  have happend : render d s ++ [] = render d t ++ [] := by rw [h]
  exact (render_append_inj s t hs ht Delimiters.ends_nil Delimiters.ends_nil happend).1

end SExpr
