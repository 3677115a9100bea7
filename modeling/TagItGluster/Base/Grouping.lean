import Mathlib.Data.List.DropRight
import Mathlib.Data.List.Pairwise
import Mathlib.Data.List.Perm.Basic
import Mathlib.Data.List.Nodup

/-!
# Groups of items that match

Items come one after the other. Each is compared with one representative of every group, joins the
first group that matches, and becomes its representative; if none matches, it is a group of its
own. The groups are kept in a list, the larger ones in front.

Whatever matches, the list stays in order and has every item in one group. The groups do not depend
on the order in which the items come if and only if matching is symmetric and transitive between
different items.
-/

namespace TagItGluster.Base

open List Option

section

variable {β γ : Type}

/-- The first entry that takes a newcomer in, as it is then, between those before and behind it. -/
def splitFirst (f : β → Option β) : List β → Option (List β × β × List β)
  | [] => none
  | b :: bs =>
    match f b with
    | some b' => some ([], b', bs)
    | none => (splitFirst f bs).map fun r => (b :: r.1, r.2)

/-- An entry in front of the smaller ones at the end of a list. -/
def moveUp (size : β → Nat) (b : β) (pre : List β) : List β :=
  pre.rdropWhile (fun c => size c < size b) ++ b :: pre.rtakeWhile (fun c => size c < size b)

/-- The first entry that takes the newcomer in moves up; if there is none, the newcomer is last. -/
def enter (f : β → Option β) (size : β → Nat) (single : β) (bs : List β) : List β :=
  match splitFirst f bs with
  | none => bs ++ [single]
  | some (pre, b, post) => moveUp size b pre ++ post

variable {f : β → Option β} {size : β → Nat} {single : β} {bs : List β}

private lemma splitFirst_none : splitFirst f bs = none → ∀ b ∈ bs, f b = none := by
  induction bs with
  | nil => exact fun _ => forall_mem_nil _
  | cons b bs ih =>
    intro h
    unfold splitFirst at h
    cases hb : f b with
    | some b' => simp [hb] at h
    | none =>
      simp only [hb, map_eq_none_iff] at h
      exact forall_mem_cons.mpr ⟨hb, ih h⟩

private lemma splitFirst_some {pre post : List β} {b' : β}
    (h : splitFirst f bs = some (pre, b', post)) :
    ∃ b, bs = pre ++ b :: post ∧ f b = some b' ∧ ∀ c ∈ pre, f c = none := by
  induction bs generalizing pre with
  | nil => cases h
  | cons b bs ih =>
    unfold splitFirst at h
    cases hb : f b with
    | some c =>
      simp only [hb, Option.some.injEq] at h
      obtain ⟨rfl, rfl, rfl⟩ := h
      exact ⟨b, rfl, hb, forall_mem_nil _⟩
    | none =>
      simp only [hb, map_eq_some_iff] at h
      obtain ⟨⟨pre', r⟩, hr, heq⟩ := h
      cases heq
      obtain ⟨c, rfl, hc, hpre⟩ := ih hr
      exact ⟨c, rfl, hc, forall_mem_cons.mpr ⟨hb, hpre⟩⟩

/-- What becomes of the list. -/
lemma enter_cases (f : β → Option β) (size : β → Nat) (single : β) (bs : List β) :
    ((∀ b ∈ bs, f b = none) ∧ enter f size single bs = bs ++ [single]) ∨
      ∃ kept passed b b' post, bs = kept ++ passed ++ b :: post ∧ f b = some b' ∧
        enter f size single bs = kept ++ b' :: (passed ++ post) ∧
        (∀ c ∈ passed, size c < size b') ∧
          (kept.getLast?.all fun c => size b' ≤ size c) = true := by
  unfold enter
  cases hs : splitFirst f bs with
  | none => exact .inl ⟨splitFirst_none hs, rfl⟩
  | some r =>
    obtain ⟨pre, b', post⟩ := r
    obtain ⟨b, rfl, hb, -⟩ := splitFirst_some hs
    refine .inr ⟨pre.rdropWhile (fun c => size c < size b'),
      pre.rtakeWhile (fun c => size c < size b'), b, b', post, ?_, hb, ?_, fun c hc => ?_, ?_⟩
    · rw [rdropWhile_append_rtakeWhile]
    · simp [moveUp, append_assoc]
    · simpa using mem_rtakeWhile_imp hc
    · rw [Option.all_eq_true]
      intro c hc
      obtain ⟨hne, rfl⟩ := mem_getLast?_eq_getLast (Option.mem_def.mpr hc)
      simpa using rdropWhile_last_not _ _ hne

/-- The larger entries stand in front. -/
def Ranked (size : β → Nat) (bs : List β) : Prop := bs.Pairwise (fun b c => size c ≤ size b)

private lemma enter_ranked (h : Ranked size bs) (hsingle : ∀ b ∈ bs, size single ≤ size b)
    (hgrow : ∀ b b', f b = some b' → size b ≤ size b') : Ranked size (enter f size single bs) := by
  rcases enter_cases f size single bs with ⟨-, heq⟩ | ⟨kept, passed, b, b', post, rfl, hb, heq,
    hpassed, hkept⟩
  · rw [heq]
    refine pairwise_append.mpr ⟨h, pairwise_singleton _ _, fun c hc d hd => ?_⟩
    rw [mem_singleton.mp hd]
    exact hsingle c hc
  · rw [heq]
    have hsub : Ranked size (kept ++ (passed ++ post)) := by
      refine List.Pairwise.sublist ?_ h
      rw [append_assoc]
      exact ((sublist_cons_self b post).append_left passed).append_left kept
    obtain ⟨hranked, hrest, hcross⟩ := pairwise_append.mp hsub
    refine pairwise_append.mpr ⟨hranked, pairwise_cons.mpr ⟨fun c hc => ?_, hrest⟩,
      fun c hc d hd => ?_⟩
    · rcases mem_append.mp hc with hc | hc
      · exact (hpassed c hc).le
      · -- what stood behind the entry was not larger than it
        have hbehind := (pairwise_append.mp h).2.1
        exact ((pairwise_cons.mp hbehind).1 c hc).trans (hgrow b b' hb)
    · rcases mem_cons.mp hd with rfl | hd
      · -- the last one that is kept is not smaller than the entry, nor are those before it
        obtain ⟨front, last, rfl⟩ := eq_nil_or_concat kept |>.resolve_left (ne_nil_of_mem hc)
        simp only [concat_eq_append, getLast?_concat, all_some, decide_eq_true_eq] at hkept
        rw [concat_eq_append] at hc hranked
        rcases mem_append.mp hc with hc | hc
        · exact hkept.trans ((pairwise_append.mp hranked).2.2 c hc last (mem_singleton_self last))
        · rw [mem_singleton.mp hc]
          exact hkept
      · exact hcross c hc d hd

/-- Entries may be seen in another way, as long as it agrees on what they take in and on their
size. -/
lemma map_enter (g : β → γ) {f' : γ → Option γ} {size' : γ → Nat}
    (hf : ∀ b ∈ bs, f' (g b) = (f b).map g) (hsize : ∀ b, size' (g b) = size b) :
    (enter f size single bs).map g = enter f' size' (g single) (bs.map g) := by
  have hsplit : splitFirst f' (bs.map g) =
      (splitFirst f bs).map fun r => (r.1.map g, g r.2.1, r.2.2.map g) := by
    induction bs with
    | nil => rfl
    | cons b bs ih =>
      obtain ⟨hb, hbs⟩ := forall_mem_cons.mp hf
      rw [map_cons]
      unfold splitFirst
      rw [hb, ih hbs]
      cases f b with
      | some b' => rfl
      | none => cases splitFirst f bs <;> rfl
  unfold enter
  rw [hsplit]
  cases splitFirst f bs with
  | none => simp
  | some r =>
    simp [moveUp, List.rdropWhile, List.rtakeWhile, ← map_reverse, dropWhile_map,
      takeWhile_map, Function.comp_def, hsize]

end

section

/-- How a new item is joined with the representative of a group: the result stands for the group
from then on, and later items match it as they match the item itself. -/
structure Matching (α : Type) where
  join : α → α → Option α
  join_right : ∀ {a b c}, join a b = some c → ∀ x, (join x c).isSome = (join x a).isSome

/-- A group with its representative and its members, the latest in front. -/
structure ItemGroup (α : Type) where
  rep : α
  members : List α

variable {α : Type} (M : Matching α)

/-- The new item matches the other one. -/
def Matching.Matches (a b : α) : Prop := (M.join a b).isSome = true

/-- The group with a new item, if that matches the representative. -/
def ItemGroup.take (x : α) (g : ItemGroup α) : Option (ItemGroup α) :=
  (M.join x g.rep).map fun r => ⟨r, x :: g.members⟩

/-- An item joins a group, or is one. -/
def addItem (gs : List (ItemGroup α)) (x : α) : List (ItemGroup α) :=
  enter (ItemGroup.take M x) (fun g => g.members.length) ⟨x, [x]⟩ gs

/-- The groups of some items that come one after the other. -/
def groupAll (items : List α) : List (ItemGroup α) := items.foldl (addItem M) []

/-- Two items are in one group. -/
def Together (gs : List (ItemGroup α)) (a b : α) : Prop := ∃ g ∈ gs, a ∈ g.members ∧ b ∈ g.members

/-- The groups are those of the items: the representative of each stands for its latest member, and
every item is in one of them. -/
structure Grouped (gs : List (ItemGroup α)) (items : List α) : Prop where
  latest : ∀ g ∈ gs, ∃ a as, g.members = a :: as ∧ ∀ x, M.Matches x g.rep ↔ M.Matches x a
  perm : (gs.flatMap ItemGroup.members).Perm items

variable {M} {gs : List (ItemGroup α)} {items l : List α} {a b x : α}

private lemma Together.symm (h : Together gs a b) : Together gs b a :=
  let ⟨g, hg, ha, hb⟩ := h
  ⟨g, hg, hb, ha⟩

lemma groupAll_concat (M : Matching α) (items : List α) (x : α) :
    groupAll M (items ++ [x]) = addItem M (groupAll M items) x := by
  rw [groupAll, foldl_append]
  rfl

/-- What becomes of the groups, apart from their order. -/
lemma addItem_cases (M : Matching α) (gs : List (ItemGroup α)) (x : α) :
    ((∀ g ∈ gs, ¬M.Matches x g.rep) ∧ addItem M gs x = gs ++ [⟨x, [x]⟩]) ∨
      ∃ g rest r, gs.Perm (g :: rest) ∧ M.join x g.rep = some r ∧
        (addItem M gs x).Perm (⟨r, x :: g.members⟩ :: rest) := by
  rcases enter_cases (ItemGroup.take M x) (fun g => g.members.length) ⟨x, [x]⟩ gs with
    ⟨hnone, heq⟩ | ⟨kept, passed, g, g', post, rfl, hg, heq, -⟩
  · refine .inl ⟨fun g hg hm => ?_, heq⟩
    have := hnone g hg
    rw [ItemGroup.take, map_eq_none_iff] at this
    rw [Matching.Matches, this] at hm
    cases hm
  · obtain ⟨r, hr, rfl⟩ := map_eq_some_iff.mp hg
    refine .inr ⟨g, kept ++ (passed ++ post), r, ?_, hr, ?_⟩
    · rw [append_assoc, ← append_assoc, ← append_assoc]
      exact perm_middle
    · rw [addItem, heq]
      exact perm_middle

private lemma Grouped.addItem (h : Grouped M gs items) (x : α) :
    Grouped M (addItem M gs x) (x :: items) := by
  rcases addItem_cases M gs x with ⟨-, heq⟩ | ⟨g, rest, r, hgs, hr, heq⟩
  · rw [heq]
    refine ⟨forall_mem_append.mpr ⟨h.latest, forall_mem_singleton.mpr
      ⟨x, [], rfl, fun _ => Iff.rfl⟩⟩, ?_⟩
    rw [flatMap_append]
    exact (perm_append_singleton x _).trans (h.perm.cons x)
  · refine ⟨fun g' hg' => ?_, ?_⟩
    · rcases mem_cons.mp (heq.mem_iff.mp hg') with rfl | hg'
      · refine ⟨x, g.members, rfl, fun y => ?_⟩
        rw [Matching.Matches, Matching.Matches, M.join_right hr]
      · exact h.latest g' (hgs.mem_iff.mpr (mem_cons_of_mem _ hg'))
    · refine (heq.flatMap_right _).trans ?_
      exact ((hgs.flatMap_right _).symm.trans h.perm).cons x

lemma grouped_groupAll (M : Matching α) (items : List α) :
    Grouped M (groupAll M items) items := by
  induction items using List.reverseRecOn with
  | nil => exact ⟨forall_mem_nil _, List.Perm.nil⟩
  | append_singleton items x ih =>
    rw [groupAll_concat]
    have h := ih.addItem x
    exact ⟨h.latest, h.perm.trans (perm_append_singleton x items).symm⟩

section

variable (h : Grouped M gs items)
include h

lemma Grouped.mem_iff : a ∈ items ↔ ∃ g ∈ gs, a ∈ g.members := by
  rw [← h.perm.mem_iff, mem_flatMap]

/-- No item is in two groups. -/
lemma Grouped.eq_of_mem (hnd : items.Nodup) {g g' : ItemGroup α} (hg : g ∈ gs) (hg' : g' ∈ gs)
    (ha : a ∈ g.members) (ha' : a ∈ g'.members) : g = g' := by
  have hflat := (nodup_flatMap.mp (h.perm.nodup_iff.mpr hnd)).2
  have : Std.Symm (Function.onFun List.Disjoint (ItemGroup.members (α := α))) :=
    ⟨fun _ _ hdisj _ hx hy => hdisj hy hx⟩
  by_contra hne
  exact hflat.forall hg hg' hne ha ha'

lemma Grouped.nodup_members (hnd : items.Nodup) {g : ItemGroup α} (hg : g ∈ gs) : g.members.Nodup :=
  (nodup_flatMap.mp (h.perm.nodup_iff.mpr hnd)).1 g hg

end

/-- The groups are listed by their size. -/
lemma groupAll_ranked (M : Matching α) (items : List α) :
    Ranked (fun g : ItemGroup α => g.members.length) (groupAll M items) := by
  induction items using List.reverseRecOn with
  | nil => exact List.Pairwise.nil
  | append_singleton items x ih =>
    rw [groupAll_concat]
    refine enter_ranked ih (fun g hg => ?_) (fun g g' hg => ?_)
    · obtain ⟨a, as, hmem, -⟩ := (grouped_groupAll M items).latest g hg
      simp [hmem]
    · obtain ⟨r, -, rfl⟩ := map_eq_some_iff.mp hg
      simp

private lemma together_addItem (ha : a ≠ x) (hb : b ≠ x) :
    Together (addItem M gs x) a b ↔ Together gs a b := by
  rcases addItem_cases M gs x with ⟨-, heq⟩ | ⟨g, rest, r, hgs, -, heq⟩
  · simp [Together, heq, ha]
  · simp [Together, heq.mem_iff, hgs.mem_iff, ha, hb]

private lemma together_foldl (ha : a ∉ l) (hb : b ∉ l) :
    Together (l.foldl (addItem M) gs) a b ↔ Together gs a b := by
  induction l generalizing gs with
  | nil => exact Iff.rfl
  | cons x l ih =>
    rw [mem_cons, not_or] at ha hb
    rw [foldl_cons, ih ha.2 hb.2, together_addItem ha.1 hb.1]

end

variable {α : Type} (M : Matching α)

/-- Among the items, matching is symmetric and transitive between different ones. -/
structure Matching.Classes (items : List α) : Prop where
  symm : ∀ a ∈ items, ∀ b ∈ items, a ≠ b → M.Matches a b → M.Matches b a
  trans : ∀ a ∈ items, ∀ b ∈ items, ∀ c ∈ items, a ≠ b → b ≠ c → a ≠ c →
    M.Matches a b → M.Matches b c → M.Matches a c

/-- The groups of two lists have the same items in them. -/
def SameGroups (gs gs' : List (ItemGroup α)) : Prop :=
  ∀ g ∈ gs, ∃ g' ∈ gs', g.members.Perm g'.members

variable {M} {items l l' : List α} {a b c : α}

/-- The second item joins the first one if it matches it, whatever comes behind. -/
lemma together_pair (hab : a ≠ b) (ha : a ∉ l) (hb : b ∉ l) :
    Together (groupAll M (a :: b :: l)) a b ↔ M.Matches b a := by
  have hfold : groupAll M (a :: b :: l) = l.foldl (addItem M) (groupAll M [a, b]) := rfl
  rw [hfold, together_foldl ha hb, Matching.Matches]
  cases h : M.join b a with
  | none =>
    simp [Together, groupAll, addItem, enter, splitFirst, ItemGroup.take, h, hab, hab.symm]
  | some r =>
    simp [Together, groupAll, addItem, enter, splitFirst, ItemGroup.take, h, moveUp]

/-- The third item joins the first two if it matches the second, whatever comes behind. -/
lemma together_triple (hm : M.Matches b a) (hac : a ≠ c) (hbc : b ≠ c) (ha : a ∉ l)
    (hb : b ∉ l) (hc : c ∉ l) :
    (Together (groupAll M (a :: b :: c :: l)) a c ↔ M.Matches c b) ∧
      (Together (groupAll M (a :: b :: c :: l)) b c ↔ M.Matches c b) := by
  have hfold : groupAll M (a :: b :: c :: l) = l.foldl (addItem M) (groupAll M [a, b, c]) := rfl
  obtain ⟨r, hr⟩ := isSome_iff_exists.mp hm
  rw [hfold, together_foldl ha hc, together_foldl hb hc, Matching.Matches, ← M.join_right hr]
  cases h : M.join c r with
  | none =>
    simp [Together, groupAll, addItem, enter, splitFirst, ItemGroup.take, hr, h, moveUp, hac, hbc,
      hac.symm, hbc.symm]
  | some q =>
    simp [Together, groupAll, addItem, enter, splitFirst, ItemGroup.take, hr, h, moveUp]

private lemma exists_cons_perm (h : a ∈ items) : ∃ l, (a :: l).Perm items := by
  obtain ⟨s, t, rfl⟩ := append_of_mem h
  exact ⟨s ++ t, perm_middle.symm⟩

-- Any two items may come first, and any three.
private lemma exists_pair (ha : a ∈ items) (hb : b ∈ items) (hab : a ≠ b) :
    ∃ l, (a :: b :: l).Perm items := by
  obtain ⟨l, hl⟩ := exists_cons_perm ha
  obtain ⟨l', hl'⟩ := exists_cons_perm (mem_of_ne_of_mem hab.symm (hl.mem_iff.mpr hb) : b ∈ l)
  exact ⟨l', (hl'.cons a).trans hl⟩

private lemma exists_triple (ha : a ∈ items) (hb : b ∈ items) (hc : c ∈ items) (hab : a ≠ b)
    (hac : a ≠ c) (hbc : b ≠ c) : ∃ l, (a :: b :: c :: l).Perm items := by
  obtain ⟨l, hl⟩ := exists_pair ha hb hab
  have hmem : c ∈ l := by
    have := hl.mem_iff.mpr hc
    simpa [hac.symm, hbc.symm] using this
  obtain ⟨l', hl'⟩ := exists_cons_perm hmem
  exact ⟨l', ((hl'.cons b).cons a).trans hl⟩

/-- Where the groups do not depend on the order, the items can be taken two and three at a time, in
both orders, to see that matching is symmetric and transitive. -/
lemma classes_of_orderFree (hnd : items.Nodup) (h : ∀ l l', l.Perm items → l'.Perm items → ∀ a b,
      Together (groupAll M l) a b → Together (groupAll M l') a b) : M.Classes items := by
  have hsymm : ∀ a ∈ items, ∀ b ∈ items, a ≠ b → M.Matches a b → M.Matches b a := by
    intro a ha b hb hab hm
    obtain ⟨l, hl⟩ := exists_pair ha hb hab
    have hswap : (b :: a :: l).Perm items := (List.Perm.swap a b l).trans hl
    have hnd' := hl.nodup_iff.mpr hnd
    simp only [nodup_cons, mem_cons, not_or] at hnd'
    obtain ⟨⟨-, hal⟩, hbl, -⟩ := hnd'
    have htog := (together_pair hab.symm hbl hal).mpr hm
    exact (together_pair hab hal hbl).mp (h _ _ hswap hl b a htog).symm
  refine ⟨hsymm, fun a ha b hb c hc hab hbc hac hm hm' => ?_⟩
  obtain ⟨l, hl⟩ := exists_triple ha hb hc hab hac hbc
  have hswap : (b :: a :: c :: l).Perm items := (List.Perm.swap a b (c :: l)).trans hl
  have hnd' := hl.nodup_iff.mpr hnd
  simp only [nodup_cons, mem_cons, not_or] at hnd'
  obtain ⟨⟨-, -, hal⟩, ⟨-, hbl⟩, hcl, -⟩ := hnd'
  have htog := (together_triple (hsymm a ha b hb hab hm) hac hbc hal hbl hcl).1.mpr
    (hsymm b hb c hc hbc hm')
  have hcm := (together_triple hm hbc hac hbl hal hcl).2.mp (h _ _ hl hswap a c htog)
  exact hsymm c hc a ha hac.symm hcm

section

/-- The same item, or one that matches. -/
def Matching.Like (M : Matching α) (a b : α) : Prop := a = b ∨ M.Matches a b

variable (h : M.Classes items)
include h

private lemma Matching.Classes.like_symm (ha : a ∈ items) (hb : b ∈ items) (hl : M.Like a b) :
    M.Like b a := by
  rcases hl with rfl | hm
  · exact .inl rfl
  · rcases eq_or_ne a b with rfl | hab
    · exact .inl rfl
    · exact .inr (h.symm a ha b hb hab hm)

private lemma Matching.Classes.like_trans (ha : a ∈ items) (hb : b ∈ items) (hc : c ∈ items)
    (hl : M.Like a b) (hl' : M.Like b c) : M.Like a c := by
  rcases hl with rfl | hm
  · exact hl'
  rcases hl' with rfl | hm'
  · exact .inr hm
  rcases eq_or_ne a b with rfl | hab
  · exact .inr hm'
  · rcases eq_or_ne b c with rfl | hbc
    · exact .inr hm
    · rcases eq_or_ne a c with rfl | hac
      · exact .inl rfl
      · exact .inr (h.trans a ha b hb c hc hab hbc hac hm hm')

/-- Where the groups so far are classes, a new item is with those that it is like. -/
lemma together_new {gs : List (ItemGroup α)} {x : α} (hgs : Grouped M gs l)
    (hnd : l.Nodup) (hsub : ∀ y ∈ l, y ∈ items) (hx : x ∈ items) (hxl : x ∉ l)
    (hl : ∀ a ∈ l, ∀ b ∈ l, Together gs a b ↔ M.Like a b) (ha : a ∈ l) :
    Together (addItem M gs x) a x ↔ M.Like a x := by
  have hne : a ≠ x := fun heq => hxl (heq ▸ ha)
  have hxmem : ∀ g ∈ gs, x ∉ g.members := fun g hg hmem => hxl (hgs.mem_iff.mpr ⟨g, hg, hmem⟩)
  rcases addItem_cases M gs x with ⟨hnone, heq⟩ | ⟨g, rest, r, hperm, hr, heq⟩
  · -- no representative matches, so no item of a group does
    have hleft : ¬Together (addItem M gs x) a x := by
      rintro ⟨g, hg, hag, hxg⟩
      rw [heq] at hg
      rcases mem_append.mp hg with hg | hg
      · exact hxmem g hg hxg
      · rw [mem_singleton.mp hg] at hag
        exact hne (mem_singleton.mp hag)
    refine iff_of_false hleft fun hlike => ?_
    obtain ⟨g, hg, hag⟩ := hgs.mem_iff.mp ha
    obtain ⟨m, ms, hmem, hrep⟩ := hgs.latest g hg
    have hmg : m ∈ g.members := by rw [hmem]; exact mem_cons_self
    have hml : m ∈ l := hgs.mem_iff.mpr ⟨g, hg, hmg⟩
    have ham : M.Like a m := (hl a ha m hml).mp ⟨g, hg, hag, hmg⟩
    have hxm := h.like_trans hx (hsub a ha) (hsub m hml) (h.like_symm (hsub a ha) hx hlike) ham
    rcases hxm with rfl | hxm
    · exact hxl hml
    · exact hnone g hg ((hrep x).mpr hxm)
  · -- the item is with the latest one of a group, and so with all of it
    have hg : g ∈ gs := hperm.mem_iff.mpr mem_cons_self
    obtain ⟨m, ms, hmem, hrep⟩ := hgs.latest g hg
    have hmg : m ∈ g.members := by rw [hmem]; exact mem_cons_self
    have hml : m ∈ l := hgs.mem_iff.mpr ⟨g, hg, hmg⟩
    have hxm : M.Like x m := .inr ((hrep x).mp (isSome_iff_exists.mpr ⟨r, hr⟩))
    have hmx := h.like_symm hx (hsub m hml) hxm
    constructor
    · rintro ⟨g', hg', hag, hxg⟩
      rcases mem_cons.mp (heq.mem_iff.mp hg') with rfl | hrest
      · have hag : a ∈ g.members := mem_of_ne_of_mem hne hag
        exact h.like_trans (hsub a ha) (hsub m hml) hx ((hl a ha m hml).mp ⟨g, hg, hag, hmg⟩) hmx
      · exact absurd hxg (hxmem g' (hperm.mem_iff.mpr (mem_cons_of_mem _ hrest)))
    · intro hlike
      obtain ⟨g', hg', hag, hmg'⟩ := (hl a ha m hml).mpr
        (h.like_trans (hsub a ha) hx (hsub m hml) hlike hxm)
      obtain rfl := hgs.eq_of_mem hnd hg hg' hmg hmg'
      exact ⟨_, heq.mem_iff.mpr mem_cons_self, mem_cons_of_mem _ hag, mem_cons_self⟩

/-- Where matching is symmetric and transitive, the groups are its classes. By induction on the
items that have come. -/
lemma together_groupAll (hnd : l.Nodup) (hsub : ∀ y ∈ l, y ∈ items) :
    ∀ a ∈ l, ∀ b ∈ l, Together (groupAll M l) a b ↔ M.Like a b := by
  induction l using List.reverseRecOn with
  | nil => exact forall_mem_nil _
  | append_singleton l x ih =>
    obtain ⟨hndl, -, hdisj⟩ := nodup_append'.mp hnd
    have hxl : x ∉ l := fun hx => hdisj hx (mem_singleton_self x)
    obtain ⟨hsubl, hsubx⟩ := forall_mem_append.mp hsub
    have hx : x ∈ items := hsubx x (mem_singleton_self x)
    have hl := ih hndl hsubl
    have hgs := grouped_groupAll M l
    have hnew := fun a ha => together_new h hgs hndl hsubl hx hxl hl (a := a) ha
    have hself : Together (addItem M (groupAll M l) x) x x := by
      obtain ⟨g, hg, hxg⟩ := (hgs.addItem x).mem_iff.mp (mem_cons_self)
      exact ⟨g, hg, hxg, hxg⟩
    rw [groupAll_concat]
    refine forall_mem_append.mpr ⟨fun a ha => forall_mem_append.mpr ⟨fun b hb => ?_,
      forall_mem_singleton.mpr (hnew a ha)⟩, forall_mem_singleton.mpr
        (forall_mem_append.mpr ⟨fun b hb => ?_, forall_mem_singleton.mpr ?_⟩)⟩
    · have hne : ∀ y ∈ l, y ≠ x := fun y hy heq => hxl (heq ▸ hy)
      rw [together_addItem (hne a ha) (hne b hb)]
      exact hl a ha b hb
    · constructor
      · exact fun htog => h.like_symm (hsubl b hb) hx ((hnew b hb).mp htog.symm)
      · exact fun hlike => ((hnew b hb).mpr (h.like_symm hx (hsubl b hb) hlike)).symm
    · exact iff_of_true hself (.inl rfl)

end

/-- Groups of the same items with the same ones together are the same groups. -/
lemma sameGroups_of_together (hnd : l.Nodup) (hnd' : l'.Nodup) (hmem : ∀ a, a ∈ l ↔ a ∈ l')
    (h : ∀ a ∈ l, ∀ b ∈ l, Together (groupAll M l) a b ↔ Together (groupAll M l') a b) :
    SameGroups (groupAll M l) (groupAll M l') := by
  have hgs := grouped_groupAll M l
  have hgs' := grouped_groupAll M l'
  intro g hg
  obtain ⟨a, as, hmembers, -⟩ := hgs.latest g hg
  have hag : a ∈ g.members := by rw [hmembers]; exact mem_cons_self
  have hal : a ∈ l := hgs.mem_iff.mpr ⟨g, hg, hag⟩
  obtain ⟨g', hg', hag'⟩ := hgs'.mem_iff.mp ((hmem a).mp hal)
  refine ⟨g', hg', (perm_ext_iff_of_nodup (hgs.nodup_members hnd hg)
    (hgs'.nodup_members hnd' hg')).mpr fun b => ⟨fun hb => ?_, fun hb => ?_⟩⟩
  · obtain ⟨g'', hg'', ha'', hb''⟩ :=
      (h a hal b (hgs.mem_iff.mpr ⟨g, hg, hb⟩)).mp ⟨g, hg, hag, hb⟩
    rwa [hgs'.eq_of_mem hnd' hg' hg'' hag' ha'']
  · have hbl : b ∈ l := (hmem b).mpr (hgs'.mem_iff.mpr ⟨g', hg', hb⟩)
    obtain ⟨g'', hg'', ha'', hb''⟩ := (h a hal b hbl).mpr ⟨g', hg', hag', hb⟩
    rwa [hgs.eq_of_mem hnd hg hg'' hag ha'']

/-- In classes, the order of the items does not matter. -/
lemma sameGroups_of_classes (h : M.Classes items) (hnd : items.Nodup) (hl : l.Perm items)
    (hl' : l'.Perm items) : SameGroups (groupAll M l) (groupAll M l') := by
  have hndl := hl.nodup_iff.mpr hnd
  have hndl' := hl'.nodup_iff.mpr hnd
  have hmem : ∀ a, a ∈ l ↔ a ∈ l' := fun a => hl.mem_iff.trans hl'.mem_iff.symm
  refine sameGroups_of_together hndl hndl' hmem fun a ha b hb => ?_
  rw [together_groupAll h hndl (fun y hy => hl.mem_iff.mp hy) a ha b hb,
    together_groupAll h hndl' (fun y hy => hl'.mem_iff.mp hy) a ((hmem a).mp ha) b ((hmem b).mp hb)]

end TagItGluster.Base
