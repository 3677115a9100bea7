import Mathlib.Data.List.Count
import Mathlib.Data.List.Nodup
import Mathlib.Data.List.Perm.Basic

/-!
# Lists of items with distinct keys

A list in which no two items have one key is a table. This module has what a search for a key finds,
what a change of the item at a key does to the keys and to the number of items with a property, and
lists of the keys of all items with a property that are kept along with the table.
-/

namespace TagItGluster.Base

open List

variable {α κ : Type} [DecidableEq κ] (key : α → κ)

/-- Change the item at a key. -/
def updateAt (k : κ) (f : α → α) (items : List α) : List α :=
  items.map fun a => if key a = k then f a else a

variable {key} {k : κ} {f : α → α} {items : List α} {a : α}

lemma of_find?_key (h : items.find? (key · = k) = some a) : a ∈ items ∧ key a = k :=
  ⟨mem_of_find?_eq_some h, by simpa using find?_some h⟩

lemma find?_key_of_mem (hnodup : (items.map key).Nodup) (ha : a ∈ items) (hk : key a = k) :
    items.find? (key · = k) = some a := by
  cases hfind : items.find? (key · = k) with
  | none => simpa [hk] using find?_eq_none.mp hfind a ha
  | some b =>
    obtain ⟨hb, hkey⟩ := of_find?_key hfind
    rw [inj_on_of_nodup_map hnodup hb ha (hkey.trans hk.symm)]

/-- After a sequence of writes, the last one for a key is found. -/
lemma look_foldl {σ ν : Type} (look : σ → κ → Option ν) {step : σ → α → σ} (key : α → κ)
    (val : α → ν) (I : σ → Prop) {s : σ} (hs : I s)
    (hstep : ∀ s, I s → ∀ p ∈ items, I (step s p) ∧
      ∀ k, look (step s p) k = if k = key p then some (val p) else look s k) :
    look (items.foldl step s) k = ((items.reverse.find? (key · = k)).map val).or (look s k) := by
  induction items generalizing s with
  | nil => rfl
  | cons p items ih =>
    obtain ⟨hI, hlook⟩ := hstep s hs p mem_cons_self
    rw [foldl_cons, ih hI fun s hs q hq => hstep s hs q (mem_cons_of_mem p hq), reverse_cons,
      find?_append, hlook k]
    cases items.reverse.find? (key · = k) with
    | some q => rfl
    | none => by_cases h : k = key p <;> simp [h, eq_comm]

/-- A change that keeps what is read of each item is not seen there. -/
lemma map_updateAt {β : Type} (g : α → β) (hf : ∀ a, key a = k → g (f a) = g a) :
    (updateAt key k f items).map g = items.map g := by
  unfold updateAt
  rw [map_map]
  apply map_congr_left
  intro a _
  by_cases ha : key a = k
  · simp [ha, hf a ha]
  · simp [ha]

lemma updateAt_of_notMem (hk : k ∉ items.map key) : updateAt key k f items = items := by
  apply (map_congr_left _).trans (map_id items)
  intro a ha
  have hne : key a ≠ k := fun heq => hk (heq ▸ mem_map_of_mem ha)
  simp [hne]

@[simp] lemma updateAt_id : updateAt key k id items = items := by
  apply (map_congr_left _).trans (map_id items)
  intro b _
  simp

/-- Two changes at one key are one change. -/
lemma updateAt_updateAt {g : α → α} (hf : ∀ a, key a = k → key (f a) = k) :
    updateAt key k g (updateAt key k f items) = updateAt key k (g ∘ f) items := by
  unfold updateAt
  rw [map_map]
  apply map_congr_left
  intro a _
  by_cases ha : key a = k
  · simp [ha, hf a ha]
  · simp [ha]

lemma mem_updateAt {b : α} : b ∈ updateAt key k f items ↔
      (∃ a ∈ items, key a = k ∧ b = f a) ∨ (b ∈ items ∧ key b ≠ k) := by
  unfold updateAt
  rw [mem_map]
  constructor
  · rintro ⟨a, ha, rfl⟩
    by_cases hk : key a = k
    · exact .inl ⟨a, ha, hk, if_pos hk⟩
    · rw [if_neg hk]
      exact .inr ⟨ha, hk⟩
  · rintro (⟨a, ha, hk, rfl⟩ | ⟨hb, hk⟩)
    · exact ⟨a, ha, if_pos hk⟩
    · exact ⟨b, hb, if_neg hk⟩

/-- A change at a key is a change of the one item there. -/
lemma perm_updateAt (hnodup : (items.map key).Nodup) (ha : a ∈ items) (hk : key a = k) :
    (updateAt key k f items).Perm (f a :: items.filter (key · ≠ k)) := by
  induction items with
  | nil => cases ha
  | cons b items ih =>
    rw [map_cons, nodup_cons] at hnodup
    rcases mem_cons.mp ha with rfl | ha
    · have hrest : updateAt key k f items = items := updateAt_of_notMem (hk ▸ hnodup.1)
      have hfilter : items.filter (key · ≠ k) = items := by
        apply filter_eq_self.mpr
        intro b hb
        have hne : key b ≠ k := fun heq => hnodup.1 (hk ▸ heq ▸ mem_map_of_mem hb)
        simpa using hne
      have hcons : updateAt key k f (a :: items) = f a :: updateAt key k f items := by
        simp [updateAt, hk]
      rw [hcons, hrest, filter_cons_of_neg (by simpa using hk), hfilter]
    · have hne : key b ≠ k := by
        intro heq
        apply hnodup.1
        rw [heq, ← hk]
        exact mem_map_of_mem ha
      have hcons : updateAt key k f (b :: items) = b :: updateAt key k f items := by
        simp [updateAt, hne]
      rw [hcons, filter_cons_of_pos (by simpa using hne)]
      exact ((ih hnodup.2 ha).cons b).trans (.swap _ _ _)

/-- The item at a key, and the others. -/
lemma perm_key (hnodup : (items.map key).Nodup) (ha : a ∈ items) (hk : key a = k) :
    items.Perm (a :: items.filter (key · ≠ k)) := by
  have hperm := perm_updateAt (f := id) hnodup ha hk
  rwa [updateAt_id] at hperm

/-- A change of one item moves a count by that item only. -/
lemma countP_updateAt (p : α → Bool) (hnodup : (items.map key).Nodup) (ha : a ∈ items)
    (hk : key a = k) :
    (updateAt key k f items).countP p + (if p a then 1 else 0) =
      items.countP p + (if p (f a) then 1 else 0) := by
  rw [(perm_updateAt hnodup ha hk).countP_eq, (perm_key hnodup ha hk).countP_eq p, countP_cons,
    countP_cons]
  omega

/-- What is read of all items, before and after a change at a key: only the part of the one item
there differs. -/
lemma perm_flatMap_updateAt {β : Type} (g g' : α → List β) (hnodup : (items.map key).Nodup)
    (ha : a ∈ items) (hk : key a = k) (hg : ∀ b ∈ items, key b ≠ k → g' b = g b) :
    ∃ rest, (items.flatMap g).Perm (g a ++ rest) ∧
      ((updateAt key k f items).flatMap g').Perm (g' (f a) ++ rest) := by
  refine ⟨(items.filter (key · ≠ k)).flatMap g, ?_, ?_⟩
  · exact (perm_key hnodup ha hk).flatMap_right g
  have hrest : (items.filter (key · ≠ k)).flatMap g' = (items.filter (key · ≠ k)).flatMap g := by
    apply flatMap_congr
    intro b hb
    rw [mem_filter, decide_eq_true_iff] at hb
    exact hg b hb.1 hb.2
  rw [← hrest]
  exact (perm_updateAt hnodup ha hk).flatMap_right g'

/-! ### Lists of keys beside a table -/

variable (key) in
/-- The list has the keys of the items with a property, each once. -/
def ListsKeys (p : α → Bool) (items : List α) (l : List κ) : Prop :=
  l.Perm ((items.filter p).map key)

namespace ListsKeys

variable {p : α → Bool} {l : List κ}

omit [DecidableEq κ] in
lemma mem_iff (h : ListsKeys key p items l) : k ∈ l ↔ ∃ a ∈ items, p a ∧ key a = k := by
  rw [List.Perm.mem_iff h, mem_map]
  constructor
  · rintro ⟨a, ha, hk⟩
    obtain ⟨ha, hp⟩ := mem_filter.mp ha
    exact ⟨a, ha, hp, hk⟩
  · rintro ⟨a, ha, hp, hk⟩
    exact ⟨a, mem_filter.mpr ⟨ha, hp⟩, hk⟩

omit [DecidableEq κ] in
/-- Whether the key of an item is listed is whether the item has the property. -/
lemma mem_key (h : ListsKeys key p items l) (hnodup : (items.map key).Nodup) (ha : a ∈ items) :
    key a ∈ l ↔ p a = true := by
  rw [h.mem_iff]
  constructor
  · rintro ⟨b, hb, hp, hk⟩
    rwa [← inj_on_of_nodup_map hnodup hb ha hk]
  · intro hp
    exact ⟨a, ha, hp, rfl⟩

/-- Taking away the key of an item without the property does nothing. -/
lemma erase_eq (h : ListsKeys key p items l) (hnodup : (items.map key).Nodup) (ha : a ∈ items)
    (hk : key a = k) (hp : p a = false) : l.erase k = l := by
  apply erase_of_not_mem
  intro hmem
  rw [← hk, h.mem_key hnodup ha, hp] at hmem
  cases hmem

omit [DecidableEq κ] in
lemma length_le (h : ListsKeys key p items l) : l.length ≤ items.length := by
  rw [List.Perm.length_eq h, length_map]
  exact length_filter_le p items

variable (hnodup : (items.map key).Nodup) (ha : a ∈ items) (hk : key a = k)
include hnodup ha hk

-- Before and after a change, the other items with the property are the same.
private lemma perm_before (h : ListsKeys key p items l) :
    l.Perm (((a :: items.filter (key · ≠ k)).filter p).map key) :=
  h.trans (((perm_key hnodup ha hk).filter p).map key)

private lemma of_perm_after (h : l.Perm (((f a :: items.filter (key · ≠ k)).filter p).map key)) :
    ListsKeys key p (updateAt key k f items) l :=
  h.trans (((perm_updateAt hnodup ha hk).filter p).map key).symm

variable (h : ListsKeys key p items l)
include h

/-- The item gets the property: its key is added. -/
lemma enter (hbefore : p a = false) (hafter : p (f a)) (hkey : key (f a) = k) :
    ListsKeys key p (updateAt key k f items) (k :: l) := by
  have hbefore' := perm_before hnodup ha hk h
  rw [filter_cons_of_neg (by simp [hbefore])] at hbefore'
  apply of_perm_after hnodup ha hk
  rw [filter_cons_of_pos hafter, map_cons, hkey]
  exact hbefore'.cons k

/-- The item loses the property: its key is taken away. -/
lemma leave (hbefore : p a) (hafter : p (f a) = false) :
    ListsKeys key p (updateAt key k f items) (l.erase k) := by
  have hbefore' := perm_before hnodup ha hk h
  rw [filter_cons_of_pos hbefore, map_cons, hk] at hbefore'
  apply of_perm_after hnodup ha hk
  rw [filter_cons_of_neg (by simp [hafter])]
  exact (hbefore'.erase k).trans (by rw [erase_cons_head])

/-- Whether the item has the property does not change. -/
lemma stay (hp : p (f a) = p a) (hkey : key (f a) = k) :
    ListsKeys key p (updateAt key k f items) l := by
  have hbefore' := perm_before hnodup ha hk h
  apply of_perm_after hnodup ha hk
  cases hpa : p a with
  | true =>
    rw [filter_cons_of_pos hpa, map_cons, hk] at hbefore'
    rwa [filter_cons_of_pos (hp.trans hpa), map_cons, hkey]
  | false =>
    rw [filter_cons_of_neg (by simp [hpa])] at hbefore'
    rwa [filter_cons_of_neg (by simp [hp.trans hpa])]

end ListsKeys

end TagItGluster.Base
