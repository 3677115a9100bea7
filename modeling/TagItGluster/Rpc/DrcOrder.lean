import Mathlib.Algebra.GroupWithZero.Nat
import TagItGluster.Rpc.Drc

/-!
# When the comparison of requests is an order

Transaction ids are compared by a difference of 32 bits, which is an order only among ids that lie
within half of the circle. Requests with one id and different programs are each greater than the
other. Among requests that avoid both, the comparison is a difference of ranks.
-/

namespace TagItGluster.Rpc

open Base SearchTree List

/-- The transaction ids lie within half of the circle, and each belongs to one request. -/
structure Ordered (base : BitVec 32) (K : ReqKey → Prop) : Prop where
  window : ∀ k, K k → (k.xid - base).toNat < 2 ^ 31
  single : ∀ k k', K k → K k' → k.xid = k'.xid → k = k'

/-- The distance of a request from the start of the window. -/
def ReqKey.rank (base : BitVec 32) (k : ReqKey) : Int := (k.xid - base).toNat

variable {base : BitVec 32} {K : ReqKey → Prop} {k k' : ReqKey}

-- The difference of two ids is the difference of their distances, which fits into 32 bits.
private lemma toInt_sub_eq_rank (h : (k.xid - base).toNat < 2 ^ 31)
    (h' : (k'.xid - base).toNat < 2 ^ 31) :
    (k.xid - k'.xid).toInt = k.rank base - k'.rank base := by
  have hsub : k.xid - k'.xid = (k.xid - base) - (k'.xid - base) := by
    bv_omega
  rw [hsub]
  rw [BitVec.toInt_sub, BitVec.toInt_eq_toNat_of_lt (by omega),
    BitVec.toInt_eq_toNat_of_lt (by omega)]
  apply Int.bmod_eq_of_le <;> omega

/-- Among ordered requests the comparison is the difference of the ranks. -/
lemma drcCompareReqs_eq_rank (hord : Ordered base K) (hk : K k) (hk' : K k') :
    drcCompareReqs k k' = k.rank base - k'.rank base := by
  have hdiff := toInt_sub_eq_rank (hord.window k hk) (hord.window k' hk')
  by_cases hxid : k.xid = k'.xid
  · have heq := hord.single k k' hk hk' hxid
    subst heq
    simp [drcCompareReqs]
  have hne : (k.xid - k'.xid).toInt ≠ 0 := by
    intro hzero
    apply hxid
    have : k.xid - k'.xid = 0#32 := BitVec.eq_of_toInt_eq (by simpa using hzero)
    bv_omega
  simp only [drcCompareReqs, hne, ne_eq, not_false_eq_true]
  exact hdiff

/-- Only a request itself compares as equal to it. -/
lemma drcCompareReqs_eq_zero_iff (hord : Ordered base K) (hk : K k) (hk' : K k') :
    drcCompareReqs k k' = 0 ↔ k = k' := by
  constructor
  · intro hzero
    have hdiff := toInt_sub_eq_rank (hord.window k hk) (hord.window k' hk')
    rw [drcCompareReqs_eq_rank hord hk hk', ← hdiff] at hzero
    apply hord.single k k' hk hk'
    have : k.xid - k'.xid = 0#32 := BitVec.eq_of_toInt_eq (by simpa using hzero)
    bv_omega
  · intro heq
    simp [drcCompareReqs, heq]

/-- The nodes of a tree stand in the order of their ranks. -/
def Sorted (base : BitVec 32) (rs : List OpRef) : Prop :=
  rs.Pairwise fun a b => a.key.rank base < b.key.rank base

/-- A sorted tree can be searched for every ordered request. -/
lemma Sorted.cuts (hord : Ordered base K) {rs : List OpRef} (hs : Sorted base rs)
    (hrs : ∀ r ∈ rs, K r.key) (hk : K k) : Cuts (fun r : OpRef => drcCompareReqs k r.key) rs := by
  apply List.Pairwise.imp_of_mem _ hs
  intro a b ha hb hlt hle
  dsimp only at hle ⊢
  rw [drcCompareReqs_eq_rank hord hk (hrs a ha)] at hle
  rw [drcCompareReqs_eq_rank hord hk (hrs b hb)]
  omega

/-- A node may be put between those of smaller and those of greater rank. -/
lemma Sorted.insert {xs ys : List OpRef} {r : OpRef} (hs : Sorted base (xs ++ ys))
    (hxs : ∀ a ∈ xs, a.key.rank base < r.key.rank base)
    (hys : ∀ a ∈ ys, r.key.rank base < a.key.rank base) : Sorted base (xs ++ r :: ys) := by
  unfold Sorted at hs ⊢
  rw [pairwise_append] at hs ⊢
  refine ⟨hs.1, pairwise_cons.mpr ⟨hys, hs.2.1⟩, ?_⟩
  intro a ha b hb
  rcases mem_cons.mp hb with rfl | hb
  · exact hxs a ha
  · exact hs.2.2 a ha b hb

private lemma Sorted.remove {xs ys : List OpRef} {r : OpRef} (hs : Sorted base (xs ++ r :: ys)) :
    Sorted base (xs ++ ys) := by
  apply List.Pairwise.sublist _ hs
  exact List.Sublist.append_left (sublist_cons_self r ys) xs

/-- In a sorted list a node is known by its key. -/
lemma Sorted.eq_of_key {rs : List OpRef} (hs : Sorted base rs) {a b : OpRef} (ha : a ∈ rs)
    (hb : b ∈ rs) (heq : a.key = b.key) : a = b := by
  induction rs with
  | nil => cases ha
  | cons r rs ih =>
    have hcons := pairwise_cons.mp hs
    rcases mem_cons.mp ha with rfl | ha'
    · rcases mem_cons.mp hb with rfl | hb'
      · rfl
      · have hlt := hcons.1 b hb'
        rw [heq] at hlt
        omega
    · rcases mem_cons.mp hb with rfl | hb'
      · have hlt := hcons.1 a ha'
        rw [heq] at hlt
        omega
      · exact ih hcons.2 ha' hb'

private lemma Sorted.nodup {rs : List OpRef} (hs : Sorted base rs) : rs.Nodup := by
  apply List.Pairwise.imp _ hs
  rintro a b hlt rfl
  omega

variable {t : RbTree OpRef} {r : OpRef}

/-- Deleting a node takes it out of the tree, and no other. -/
lemma Sorted.rbDelete (hord : Ordered base K) (hs : Sorted base t.toList)
    (hK : ∀ a ∈ t.toList, K a.key) (hr : r ∈ t.toList) :
    Sorted base (RbTree.rbDelete compareRefs r t).toList ∧
      ∀ a, a ∈ (RbTree.rbDelete compareRefs r t).toList ↔ a ∈ t.toList ∧ a ≠ r := by
  have hcuts : Cuts (compareRefs r) t.toList := hs.cuts hord hK (hK r hr)
  rcases RbTree.rbDelete_spec hcuts with
    ⟨xs, found, ys, hlist, hzero, hdel⟩ | ⟨hnone, -⟩
  · have hmem : found ∈ t.toList := by
      rw [hlist]
      exact mem_append_right xs mem_cons_self
    have hkey := (drcCompareReqs_eq_zero_iff hord (hK r hr) (hK found hmem)).mp hzero
    have heq : r = found := hs.eq_of_key hr hmem hkey
    subst heq
    have hnodup := hs.nodup
    rw [hlist] at hs hnodup
    refine ⟨?_, ?_⟩
    · rw [hdel]
      exact hs.remove
    intro a
    rw [hdel, hlist]
    have hnot := (nodup_middle.mp hnodup)
    rw [nodup_cons] at hnot
    constructor
    · intro ha
      refine ⟨?_, fun heq => hnot.1 (heq ▸ ha)⟩
      rcases mem_append.mp ha with ha | ha
      · exact mem_append_left _ ha
      · exact mem_append_right _ (mem_cons_of_mem _ ha)
    · rintro ⟨ha, hne⟩
      simpa [hne] using ha
  · exact absurd ((drcCompareReqs_eq_zero_iff hord (hK r hr) (hK r hr)).mpr rfl) (hnone r hr)

/-- Probing finds a node with the key, or has no memory, or adds the node. -/
lemma Sorted.rbProbe (hord : Ordered base K) (hs : Sorted base t.toList)
    (hK : ∀ a ∈ t.toList, K a.key) (hr : K r.key) (alloc : Bool) :
    (∃ found ∈ t.toList, found.key = r.key ∧
      RbTree.rbProbe compareRefs r alloc t = (some found, t)) ∨
    RbTree.rbProbe compareRefs r alloc t = (none, t) ∨
    ∃ s, RbTree.rbProbe compareRefs r alloc t = (some r, s) ∧ Sorted base s.toList ∧
      ∀ a, a ∈ s.toList ↔ a = r ∨ a ∈ t.toList := by
  have hcuts : Cuts (compareRefs r) t.toList := hs.cuts hord hK hr
  rcases RbTree.rbProbe_spec hcuts alloc with
    ⟨found, hmem, hzero, heq⟩ | ⟨-, hfail, hadd⟩
  · have hkey := (drcCompareReqs_eq_zero_iff hord hr (hK found hmem)).mp hzero
    exact .inl ⟨found, hmem, hkey.symm, heq⟩
  right
  cases alloc with
  | false => exact .inl (hfail rfl)
  | true =>
    right
    obtain ⟨xs, ys, s, hlist, hnew, hxs, hys, heq⟩ := hadd rfl
    have hrank : ∀ a ∈ t.toList, compareRefs r a = r.key.rank base - a.key.rank base :=
      fun a ha => drcCompareReqs_eq_rank hord hr (hK a ha)
    refine ⟨s, heq, ?_, ?_⟩
    · rw [hnew]
      rw [hlist] at hs
      apply hs.insert
      · intro a ha
        have hpos := hxs a ha
        rw [hrank a (by rw [hlist]; exact mem_append_left ys ha)] at hpos
        omega
      · intro a ha
        have hneg := hys a ha
        rw [hrank a (by rw [hlist]; exact mem_append_right xs ha)] at hneg
        omega
    · intro a
      rw [hnew, hlist]
      simp only [mem_append, mem_cons]
      constructor
      · rintro (ha | rfl | ha)
        · exact .inr (.inl ha)
        · exact .inl rfl
        · exact .inr (.inr ha)
      · rintro (rfl | ha | ha)
        · exact .inr (.inl rfl)
        · exact .inl ha
        · exact .inr (.inr ha)

end TagItGluster.Rpc
