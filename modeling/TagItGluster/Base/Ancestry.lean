import Mathlib.Data.Finset.Card

/-!
# Lists of edges without a way back

Edges lead from a child to a parent, and a child may have several. Edges can be taken away, and an
edge can be added if no way leads from its parent up to its child. Where no way leads back there is
a rank that falls along each edge and is at most the number of edges.
-/

namespace TagItGluster.Base

open Relation List

variable {α ε : Type} (child parent : ε → α)

/-- Some edge leads from `a` to `b`. -/
def Up (edges : List ε) (a b : α) : Prop := ∃ e ∈ edges, child e = a ∧ parent e = b

/-- No way up leads back to where it starts. -/
def Acyclic (edges : List ε) : Prop := ∀ a, ¬ TransGen (Up child parent edges) a a

variable {child parent} {edges edges' : List ε} {e : ε} {a b : α}

lemma Up.of_mem (he : e ∈ edges) : Up child parent edges (child e) (parent e) :=
  ⟨e, he, rfl, rfl⟩

lemma acyclic_nil : Acyclic child parent ([] : List ε) := by
  intro a h
  obtain ⟨b, ⟨e, he, -⟩, -⟩ := TransGen.head'_iff.mp h
  cases he

lemma Acyclic.subset (h : Acyclic child parent edges) (hsub : edges' ⊆ edges) :
    Acyclic child parent edges' := by
  intro a ha
  have hup : ∀ x y, Up child parent edges' x y → Up child parent edges x y := by
    rintro x y ⟨e, he, hx⟩
    exact ⟨e, hsub he, hx⟩
  exact h a (TransGen.mono hup a a ha)

/-- A way that may use one more edge does not use it, or leads to that edge's child. -/
lemma up_cons_cases (h : ReflTransGen (Up child parent (e :: edges)) a b) :
    ReflTransGen (Up child parent edges) a b ∨ ReflTransGen (Up child parent edges) a (child e) ∧
        ReflTransGen (Up child parent edges) (parent e) b := by
  induction h using ReflTransGen.head_induction_on with
  | refl => exact .inl .refl
  | head hstep _ ih =>
    obtain ⟨x, hx, rfl, rfl⟩ := hstep
    rcases mem_cons.mp hx with rfl | hx
    · rcases ih with hb | ⟨-, hb⟩
      · exact .inr ⟨.refl, hb⟩
      · exact .inr ⟨.refl, hb⟩
    · rcases ih with hb | ⟨hc, hb⟩
      · exact .inl (.head (Up.of_mem hx) hb)
      · exact .inr ⟨.head (Up.of_mem hx) hc, hb⟩

/-- An edge can be added if no way leads from its parent to its child. -/
lemma Acyclic.cons (h : Acyclic child parent edges)
    (hne : ¬ ReflTransGen (Up child parent edges) (parent e) (child e)) :
    Acyclic child parent (e :: edges) := by
  intro a ha
  obtain ⟨b, ⟨x, hx, rfl, rfl⟩, hback⟩ := TransGen.head'_iff.mp ha
  rcases mem_cons.mp hx with rfl | hx
  · rcases up_cons_cases hback with hback | ⟨hback, -⟩ <;> exact hne hback
  · rcases up_cons_cases hback with hback | ⟨hto, hfrom⟩
    · exact h _ (TransGen.head' (Up.of_mem hx) hback)
    · exact hne (hfrom.trans (.head (Up.of_mem hx) hto))

/-- A rank that falls along each edge, bounded by the number of edges. -/
lemma Acyclic.exists_rank (h : Acyclic child parent edges) :
    ∃ rank : α → ℕ, (∀ a, rank a ≤ edges.length) ∧
      ∀ e ∈ edges, rank (parent e) < rank (child e) := by
  classical
  -- The rank counts the edges that a way up can still use.
  let above (a : α) : Finset ε :=
    edges.toFinset.filter fun e => ReflTransGen (Up child parent edges) a (child e)
  refine ⟨fun a => (above a).card, ?_, ?_⟩
  · intro a
    exact (Finset.card_filter_le _ _).trans (toFinset_card_le edges)
  intro e he
  have hsubset : above (parent e) ⊆ above (child e) := by
    intro x hx
    obtain ⟨hx, hway⟩ := Finset.mem_filter.mp hx
    exact Finset.mem_filter.mpr ⟨hx, .head (Up.of_mem he) hway⟩
  apply Finset.card_lt_card
  apply (Finset.ssubset_iff_of_subset hsubset).mpr
  refine ⟨e, ?_, ?_⟩
  · exact Finset.mem_filter.mpr ⟨mem_toFinset.mpr he, .refl⟩
  · -- The edge itself is used below its parent only.
    intro hmem
    exact h _ (TransGen.head' (Up.of_mem he) (Finset.mem_filter.mp hmem).2)

end TagItGluster.Base
