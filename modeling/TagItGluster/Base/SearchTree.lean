import Mathlib.Data.List.Basic
import Mathlib.Order.Basic

/-!
# Search trees with a stack

A search goes down a binary tree and keeps the nodes on its way on a stack. A tree and a stack make
up the tree that the search has started from. Rotations change the tree and the stack, but not the
items in order; what a search finds depends on the items in order only.

A search compares what it looks for with the items. It finds its way if the items are in front of
it, then equal to it, then behind it.
-/

namespace TagItGluster.Base

open List

/-- Binary trees with a mark at each node. -/
inductive SearchTree (κ α : Type) where
  | nil
  | node (mark : κ) (left : SearchTree κ α) (item : α) (right : SearchTree κ α)
deriving DecidableEq

/-- A node on the stack: which child has been taken, and the other one. -/
structure Frame (κ α : Type) where
  isLeft : Bool
  mark : κ
  item : α
  sibling : SearchTree κ α

namespace SearchTree

variable {κ α : Type}

/-- The items in order. -/
def toList : SearchTree κ α → List α
  | nil => []
  | node _ left item right => left.toList ++ item :: right.toList

/-- Put a tree below a node. -/
def under (t : SearchTree κ α) (f : Frame κ α) : SearchTree κ α :=
  if f.isLeft then node f.mark t f.item f.sibling else node f.mark f.sibling f.item t

/-- Put a tree below a stack. -/
def plug : SearchTree κ α → List (Frame κ α) → SearchTree κ α
  | t, [] => t
  | t, f :: fs => (t.under f).plug fs

/-- The items in front of the tree below a stack. -/
def before : List (Frame κ α) → List α
  | [] => []
  | f :: fs => before fs ++ if f.isLeft then [] else f.sibling.toList ++ [f.item]

/-- The items behind the tree below a stack. -/
def after : List (Frame κ α) → List α
  | [] => []
  | f :: fs => (if f.isLeft then f.item :: f.sibling.toList else []) ++ after fs

/-- The item at the top. -/
def root : SearchTree κ α → Option α
  | nil => none
  | node _ _ item _ => some item

/-- The search for an item, with what the comparison with each item gives. -/
def find (cmp : α → Int) : SearchTree κ α → Option α
  | nil => none
  | node _ left item right =>
    if cmp item < 0 then left.find cmp else if 0 < cmp item then right.find cmp else some item

/-- The search down to the item, or to where it would be, with the stack. -/
def descend (cmp : α → Int) : SearchTree κ α → List (Frame κ α) → SearchTree κ α × List (Frame κ α)
  | nil, fs => (nil, fs)
  | node mark left item right, fs =>
    if cmp item < 0 then left.descend cmp (⟨true, mark, item, right⟩ :: fs)
    else if 0 < cmp item then right.descend cmp (⟨false, mark, item, left⟩ :: fs)
    else (node mark left item right, fs)

@[simp] lemma toList_nil : (nil : SearchTree κ α).toList = [] := rfl

@[simp] lemma toList_node (mark : κ) (left : SearchTree κ α) (item : α) (right : SearchTree κ α) :
    (node mark left item right).toList = left.toList ++ item :: right.toList := rfl

lemma toList_under (t : SearchTree κ α) (f : Frame κ α) :
    (t.under f).toList = (if f.isLeft then [] else f.sibling.toList ++ [f.item]) ++ t.toList ++
      if f.isLeft then f.item :: f.sibling.toList else [] := by
  unfold under
  split <;> simp

lemma toList_plug (t : SearchTree κ α) (fs : List (Frame κ α)) :
    (t.plug fs).toList = before fs ++ t.toList ++ after fs := by
  induction fs generalizing t with
  | nil => simp [plug, before, after]
  | cons f fs ih => simp [plug, ih, toList_under, before, after]

lemma before_append (fs gs : List (Frame κ α)) : before (fs ++ gs) = before gs ++ before fs := by
  induction fs with
  | nil => simp [before]
  | cons f fs ih => simp [before, ih]

lemma after_append (fs gs : List (Frame κ α)) : after (fs ++ gs) = after fs ++ after gs := by
  induction fs with
  | nil => simp [after]
  | cons f fs ih => simp [after, ih]

variable {cmp : α → Int} {t : SearchTree κ α}

/-- The items are in front of what is looked for, then equal to it, then behind it, with at most
one that is equal. -/
def Cuts (cmp : α → Int) (items : List α) : Prop :=
  items.Pairwise fun a b => cmp a ≤ 0 → cmp b < 0

/-- What a search leaves behind: the items in front of its place, and those behind it. -/
structure Found (cmp : α → Int) (items : List α) (r : SearchTree κ α × List (Frame κ α)) :
    Prop where
  items : before r.2 ++ r.1.toList ++ after r.2 = items
  front : ∀ a ∈ before r.2, 0 < cmp a
  back : ∀ a ∈ after r.2, cmp a < 0
  place : r.1 = nil ∨ ∃ mark left item right, r.1 = node mark left item right ∧ cmp item = 0

lemma descend_found {fs : List (Frame κ α)} {items : List α}
    (hitems : before fs ++ t.toList ++ after fs = items) (hcuts : Cuts cmp items)
    (hfront : ∀ a ∈ before fs, 0 < cmp a) (hback : ∀ a ∈ after fs, cmp a < 0) :
    Found cmp items (t.descend cmp fs) := by
  induction t generalizing fs with
  | nil => exact ⟨hitems, hfront, hback, .inl rfl⟩
  | node mark left item right ihl ihr =>
    unfold descend
    subst hitems
    split_ifs with hlt hgt
    · apply ihl
      · simp [before, after]
      · simpa [before] using hfront
      intro a ha
      simp only [after, if_true, cons_append, mem_cons, mem_append] at ha
      rcases ha with rfl | hright | hafter
      · exact hlt
      · have hpair := pairwise_append.mp (pairwise_append.mp hcuts).1
        exact (pairwise_cons.mp (pairwise_append.mp hpair.2.1).2.1).1 a hright (Int.le_of_lt hlt)
      · exact hback a hafter
    · apply ihr
      · simp [before, after]
      · intro a ha
        simp only [before, Bool.false_eq_true, if_false, mem_append, mem_singleton] at ha
        rcases ha with hbefore | hleft | rfl
        · exact hfront a hbefore
        · have hpair := pairwise_append.mp (pairwise_append.mp hcuts).1
          have himp := (pairwise_append.mp hpair.2.1).2.2 a hleft item mem_cons_self
          by_contra hnot
          omega
        · exact hgt
      · simpa [after] using hback
    · exact ⟨rfl, hfront, hback, .inr ⟨mark, left, item, right, rfl, by omega⟩⟩

/-- Where a search ends without a node, no item is equal. -/
lemma Found.ne_zero {items : List α} {fs : List (Frame κ α)} (h : Found cmp items (nil, fs)) :
    ∀ a ∈ items, cmp a ≠ 0 := by
  intro a ha
  rw [← h.items, toList_nil, append_nil, mem_append] at ha
  rcases ha with ha | ha
  · exact Int.ne_of_gt (h.front a ha)
  · exact Int.ne_of_lt (h.back a ha)

/-- The search with and without a stack. -/
lemma find_eq_root (t : SearchTree κ α) (fs : List (Frame κ α)) :
    t.find cmp = (t.descend cmp fs).1.root := by
  induction t generalizing fs with
  | nil => rfl
  | node mark left item right ihl ihr =>
    unfold find descend
    split_ifs
    · exact ihl _
    · exact ihr _
    · rfl

/-- The search finds the item that is equal, if there is one. -/
lemma find_eq_some_iff (hcuts : Cuts cmp t.toList) {a : α} :
    t.find cmp = some a ↔ a ∈ t.toList ∧ cmp a = 0 := by
  have hfound : Found cmp t.toList (t.descend cmp []) :=
    descend_found (by simp [before, after]) hcuts (by simp [before]) (by simp [after])
  rw [find_eq_root t []]
  generalize t.descend cmp [] = r at hfound
  obtain ⟨s, fs⟩ := r
  rcases hfound.place with heq | ⟨mark, left, item, right, heq, hzero⟩
  · subst heq
    constructor
    · intro hnone
      cases hnone
    · rintro ⟨hmem, hzero⟩
      exact absurd hzero (hfound.ne_zero a hmem)
  · subst heq
    obtain ⟨hitems, hfront, hback, -⟩ := hfound
    rw [← hitems]
    constructor
    · intro hsome
      cases hsome
      exact ⟨by simp, hzero⟩
    rintro ⟨hmem, ha⟩
    rw [← hitems] at hcuts
    have hinner := (pairwise_append.mp (pairwise_append.mp hcuts).1).2.1
    simp only [toList_node, mem_append, mem_cons] at hmem
    rcases hmem with (hmem | hmem | rfl | hmem) | hmem
    · have := hfront a hmem
      omega
    · have := (pairwise_append.mp hinner).2.2 a hmem item mem_cons_self (by omega)
      omega
    · rfl
    · have := (pairwise_cons.mp (pairwise_append.mp hinner).2.1).1 a hmem (by omega)
      omega
    · have := hback a hmem
      omega

end SearchTree

end TagItGluster.Base
