import TagItGluster.Libglusterfs.InodeGraph

/-!
# The lists and counts of an inode table

Each inode is in the list that its reference count and its state say, and the sizes are those of the
lists. The count of an inode other than the root is the references that callers hold and the
dentries that have it as parent, so that an inode without references has nothing below it when it is
retired.

The root is made without a reference, and nothing is counted for it after the first. The results
below are for tables whose root has been referenced.
-/

namespace TagItGluster.Libglusterfs

open Base List

lemma inc32_of_lt {n : Nat} (h : n + 1 < UInt32.size) : inc32 n = n + 1 := by
  unfold inc32
  rw [if_neg (by omega)]

lemma dec32_succ (n : Nat) : dec32 (n + 1) = n := by
  unfold dec32
  rw [if_neg (by omega), Nat.add_sub_cancel]

lemma inc32_mod (n : Nat) : inc32 (n % UInt32.size) = (n + 1) % UInt32.size := by
  have hlt := Nat.mod_lt n (show 0 < UInt32.size by decide)
  have hmod : (n + 1) % UInt32.size = (n % UInt32.size + 1) % UInt32.size := by
    rw [Nat.mod_add_mod]
  rw [hmod]
  unfold inc32
  by_cases heq : n % UInt32.size + 1 = UInt32.size
  · rw [if_pos heq, heq, Nat.mod_self]
  · rw [if_neg heq]
    exact (Nat.mod_eq_of_lt (by omega)).symm

private lemma dec32_mod (n : Nat) : dec32 ((n + 1) % UInt32.size) = n % UInt32.size := by
  rw [← inc32_mod]
  have hlt := Nat.mod_lt n (show 0 < UInt32.size by decide)
  generalize n % UInt32.size = m at hlt ⊢
  unfold inc32 dec32
  by_cases hm : m + 1 = UInt32.size
  · rw [if_pos hm, if_pos rfl]
    omega
  · rw [if_neg hm, if_neg (by omega), Nat.add_sub_cancel]

namespace Inode

/-- The inode should be in the list of active inodes. -/
def isActive (i : Inode) : Bool := i.ref ≠ 0

/-- The inode should be in the LRU list. -/
def isLru (i : Inode) : Bool := i.ref = 0 && !i.retired

/-- The inode should be in the purge list. -/
def isPurge (i : Inode) : Bool := i.retired

end Inode

/-- The lists of inodes and their sizes. -/
structure Sized (inodes : List Inode) (active lru purge : List Nat)
    (activeSize lruSize purgeSize : Nat) : Prop where
  lists_active : ListsKeys Inode.ptr Inode.isActive inodes active
  lists_lru : ListsKeys Inode.ptr Inode.isLru inodes lru
  lists_purge : ListsKeys Inode.ptr Inode.isPurge inodes purge
  activeSize_eq : activeSize = active.length % UInt32.size
  lruSize_eq : lruSize = lru.length % UInt32.size
  purgeSize_eq : purgeSize = purge.length % UInt32.size

private lemma dec32_erase {l : List Nat} {k size : Nat} (hk : k ∈ l)
    (h : size = l.length % UInt32.size) : dec32 size = (l.erase k).length % UInt32.size := by
  obtain ⟨n, hn⟩ := Nat.exists_eq_succ_of_ne_zero (length_pos_of_mem hk).ne'
  rw [h, length_erase_of_mem hk, hn]
  exact dec32_mod n

namespace Sized

variable {inodes : List Inode} {active lru purge : List Nat} {activeSize lruSize purgeSize : Nat}
  {i : Inode} {f : Inode → Inode}
  (h : Sized inodes active lru purge activeSize lruSize purgeSize)
  (hnodup : (inodes.map Inode.ptr).Nodup) (hi : i ∈ inodes) (hkey : (f i).ptr = i.ptr)
include h hnodup hi hkey

/-- A change that keeps the inode in its list. -/
lemma stay (href : (f i).ref = 0 ↔ i.ref = 0) (hret : (f i).retired = i.retired) :
    Sized (updateAt Inode.ptr i.ptr f inodes) active lru purge activeSize lruSize purgeSize where
  lists_active := h.lists_active.stay hnodup hi rfl (by simp [Inode.isActive, href]) hkey
  lists_lru := h.lists_lru.stay hnodup hi rfl (by simp [Inode.isLru, href, hret]) hkey
  lists_purge := h.lists_purge.stay hnodup hi rfl hret hkey
  activeSize_eq := h.activeSize_eq
  lruSize_eq := h.lruSize_eq
  purgeSize_eq := h.purgeSize_eq

/-- From the lru list to the head of the active list. -/
lemma activate (href : i.ref = 0) (hret : i.retired = false) (href' : (f i).ref ≠ 0)
    (hret' : (f i).retired = false) :
    Sized (updateAt Inode.ptr i.ptr f inodes) (i.ptr :: active.erase i.ptr) (lru.erase i.ptr)
      (purge.erase i.ptr) (inc32 activeSize) (dec32 lruSize) purgeSize := by
  have hactive : Inode.isActive i = false := by simp [Inode.isActive, href]
  have hlru : Inode.isLru i := by simp [Inode.isLru, href, hret]
  rw [h.lists_active.erase_eq hnodup hi rfl hactive, h.lists_purge.erase_eq hnodup hi rfl hret]
  refine ⟨?_, ?_, ?_, ?_, ?_, h.purgeSize_eq⟩
  · exact h.lists_active.enter hnodup hi rfl hactive (by simp [Inode.isActive, href']) hkey
  · exact h.lists_lru.leave hnodup hi rfl hlru (by simp [Inode.isLru, href'])
  · exact h.lists_purge.stay hnodup hi rfl (hret'.trans hret.symm) hkey
  · rw [h.activeSize_eq, inc32_mod, length_cons]
  · exact dec32_erase ((h.lists_lru.mem_key hnodup hi).mpr hlru) h.lruSize_eq

/-- From the active list to the tail of the lru list. -/
lemma passivate (href : i.ref ≠ 0) (hret : i.retired = false) (href' : (f i).ref = 0)
    (hret' : (f i).retired = false) :
    Sized (updateAt Inode.ptr i.ptr f inodes) (active.erase i.ptr) (lru.erase i.ptr ++ [i.ptr])
      (purge.erase i.ptr) (dec32 activeSize) (inc32 lruSize) purgeSize := by
  have hactive : Inode.isActive i := by simp [Inode.isActive, href]
  have hlru : Inode.isLru i = false := by simp [Inode.isLru, href]
  rw [h.lists_lru.erase_eq hnodup hi rfl hlru, h.lists_purge.erase_eq hnodup hi rfl hret]
  refine ⟨?_, ?_, ?_, ?_, ?_, h.purgeSize_eq⟩
  · exact h.lists_active.leave hnodup hi rfl hactive (by simp [Inode.isActive, href'])
  · exact (perm_append_singleton _ _).trans
      (h.lists_lru.enter hnodup hi rfl hlru (by simp [Inode.isLru, href', hret']) hkey)
  · exact h.lists_purge.stay hnodup hi rfl (hret'.trans hret.symm) hkey
  · exact dec32_erase ((h.lists_active.mem_key hnodup hi).mpr hactive) h.activeSize_eq
  · rw [h.lruSize_eq, inc32_mod, length_append, length_singleton]

/-- From the active list to the tail of the purge list. -/
lemma retireActive (href : i.ref ≠ 0) (hret : i.retired = false) (href' : (f i).ref = 0)
    (hret' : (f i).retired) :
    Sized (updateAt Inode.ptr i.ptr f inodes) (active.erase i.ptr) (lru.erase i.ptr)
      (purge.erase i.ptr ++ [i.ptr]) (dec32 activeSize) lruSize (inc32 purgeSize) := by
  have hactive : Inode.isActive i := by simp [Inode.isActive, href]
  have hlru : Inode.isLru i = false := by simp [Inode.isLru, href]
  rw [h.lists_lru.erase_eq hnodup hi rfl hlru, h.lists_purge.erase_eq hnodup hi rfl hret]
  refine ⟨?_, ?_, ?_, ?_, h.lruSize_eq, ?_⟩
  · exact h.lists_active.leave hnodup hi rfl hactive (by simp [Inode.isActive, href'])
  · exact h.lists_lru.stay hnodup hi rfl (by simp [Inode.isLru, href, hret']) hkey
  · exact (perm_append_singleton _ _).trans (h.lists_purge.enter hnodup hi rfl hret hret' hkey)
  · exact dec32_erase ((h.lists_active.mem_key hnodup hi).mpr hactive) h.activeSize_eq
  · rw [h.purgeSize_eq, inc32_mod, length_append, length_singleton]

/-- From the lru list to the tail of the purge list. -/
lemma retireLru (href : i.ref = 0) (hret : i.retired = false) (href' : (f i).ref = 0)
    (hret' : (f i).retired) :
    Sized (updateAt Inode.ptr i.ptr f inodes) (active.erase i.ptr) (lru.erase i.ptr)
      (purge.erase i.ptr ++ [i.ptr]) activeSize (dec32 lruSize) (inc32 purgeSize) := by
  have hactive : Inode.isActive i = false := by simp [Inode.isActive, href]
  have hlru : Inode.isLru i := by simp [Inode.isLru, href, hret]
  rw [h.lists_active.erase_eq hnodup hi rfl hactive, h.lists_purge.erase_eq hnodup hi rfl hret]
  refine ⟨?_, ?_, ?_, h.activeSize_eq, ?_, ?_⟩
  · exact h.lists_active.stay hnodup hi rfl (by simp [Inode.isActive, href, href']) hkey
  · exact h.lists_lru.leave hnodup hi rfl hlru (by simp [Inode.isLru, hret'])
  · exact (perm_append_singleton _ _).trans (h.lists_purge.enter hnodup hi rfl hret hret' hkey)
  · exact dec32_erase ((h.lists_lru.mem_key hnodup hi).mpr hlru) h.lruSize_eq
  · rw [h.purgeSize_eq, inc32_mod, length_append, length_singleton]

end Sized

/-! ### Counts -/

/-- The number of dentries that have an inode as parent. -/
def below (ptr : Nat) (ds : List Dentry) : Nat := ds.countP (·.parent = ptr)

/-- What holds of each inode: `n` bounds its references. -/
structure InodeFits (n : Nat) (ds : List Dentry) (i : Inode) : Prop where
  retired : i.retired = true → i.ref = 0 ∧ i.hashed = false
  nlookup : i.ref = 0 → i.retired = false → i.nlookup ≠ 0
  root : i.gfid = some rootGfid → i.ref = 1 ∧ i.hashed = true
  ref : i.gfid ≠ some rootGfid → i.ref = i.held + below i.ptr ds
  le : i.ref ≤ n

/-- Another bound, and other dentries of which as many are below the inode. -/
lemma InodeFits.mono {n n' : Nat} {ds ds' : List Dentry} {i : Inode} (h : InodeFits n ds i)
    (hn : n ≤ n') (hbelow : below i.ptr ds' = below i.ptr ds) : InodeFits n' ds' i :=
  ⟨h.retired, h.nlookup, h.root, fun hg => hbelow ▸ h.ref hg, h.le.trans hn⟩

/-- The invariant of a table whose root has been referenced. -/
structure TableInv (n : Nat) (t : InodeTable) : Prop where
  ptrs : (t.inodes.map Inode.ptr).Nodup
  sized : Sized t.inodes t.active t.lru t.purge t.activeSize t.lruSize t.purgeSize
  fits : ∀ i ∈ t.inodes, InodeFits n t.dentries i
  root : ∃ i ∈ t.inodes, i.ptr = rootPtr ∧ i.gfid = some rootGfid
  root_ptr : ∀ i ∈ t.inodes, i.gfid = some rootGfid → i.ptr = rootPtr
  parents : ∀ d ∈ t.dentries, d.parent ∈ t.inodes.map Inode.ptr
  destroyed : ∀ i ∈ t.destroyed, i.ref = 0 ∧ i.held = 0 ∧ i.ptr < t.nextPtr ∧
    i.ptr ∉ t.inodes.map Inode.ptr

namespace TableInv

variable {n n' : Nat} {t t' : InodeTable} {i : Inode} {f : Inode → Inode}

lemma mono (h : TableInv n t) (hn : n ≤ n') : TableInv n' t :=
  { h with fits := fun i hi => (h.fits i hi).mono hn rfl }

/-- A change of one inode, and of the dentries below it. -/
lemma update (h : TableInv n t) (hi : i ∈ t.inodes) (hn : n ≤ n')
    (hinodes : t'.inodes = updateAt Inode.ptr i.ptr f t.inodes)
    (hkey : ∀ j, (f j).ptr = j.ptr)
    (hgfid : (f i).gfid = some rootGfid ↔ i.gfid = some rootGfid)
    (hsized : Sized (updateAt Inode.ptr i.ptr f t.inodes) t'.active t'.lru t'.purge
      t'.activeSize t'.lruSize t'.purgeSize)
    (hfits : InodeFits n' t'.dentries (f i))
    (hbelow : ∀ q, q ≠ i.ptr → below q t'.dentries = below q t.dentries)
    (hparents : ∀ d ∈ t'.dentries, d.parent ∈ t.inodes.map Inode.ptr)
    (hdestroyed : t'.destroyed = t.destroyed) (hnext : t'.nextPtr = t.nextPtr) :
    TableInv n' t' := by
  have hmap : t'.inodes.map Inode.ptr = t.inodes.map Inode.ptr := by
    rw [hinodes]
    exact map_updateAt Inode.ptr fun j _ => hkey j
  have hcases (j : Inode) (hj : j ∈ t'.inodes) :
      j = f i ∨ (j ∈ t.inodes ∧ j.ptr ≠ i.ptr) := by
    rw [hinodes, mem_updateAt] at hj
    rcases hj with ⟨k, hk, hp, rfl⟩ | hj
    · rw [inj_on_of_nodup_map h.ptrs hk hi hp]
      exact .inl rfl
    · exact .inr hj
  refine ⟨hmap ▸ h.ptrs, hinodes ▸ hsized, ?_, ?_, ?_, ?_, ?_⟩
  · intro j hj
    rcases hcases j hj with rfl | ⟨hj, hp⟩
    · exact hfits
    · exact (h.fits j hj).mono hn (hbelow j.ptr hp)
  · obtain ⟨r, hr, hptr, hg⟩ := h.root
    by_cases hp : r.ptr = i.ptr
    · rw [inj_on_of_nodup_map h.ptrs hr hi hp] at hptr hg
      refine ⟨f i, ?_, (hkey i).trans hptr, hgfid.mpr hg⟩
      rw [hinodes]
      exact mem_updateAt.mpr (.inl ⟨i, hi, rfl, rfl⟩)
    · refine ⟨r, ?_, hptr, hg⟩
      rw [hinodes]
      exact mem_updateAt.mpr (.inr ⟨hr, hp⟩)
  · intro j hj hg
    rcases hcases j hj with rfl | ⟨hj, -⟩
    · exact (hkey i).trans (h.root_ptr i hi (hgfid.mp hg))
    · exact h.root_ptr j hj hg
  · intro d hd
    rw [hmap]
    exact hparents d hd
  · intro j hj
    rw [hdestroyed] at hj
    rw [hmap, hnext]
    exact h.destroyed j hj

variable {ds : List Dentry} {d : Dentry}

section

variable (h : TableInv n t)
include h

/-- Other dentries, of which only those below the root may be more or less. -/
lemma dentries (hbelow : ∀ q, q ≠ rootPtr → below q ds = below q t.dentries)
    (hparents : ∀ d ∈ ds, d.parent ∈ t.inodes.map Inode.ptr) :
    TableInv n { t with dentries := ds } := by
  obtain ⟨r, hr, hptr, hg⟩ := h.root
  have hfits := h.fits r hr
  have hroot : InodeFits n ds r :=
    ⟨hfits.retired, hfits.nlookup, hfits.root, fun hne => absurd hg hne, hfits.le⟩
  have hsized : Sized (updateAt Inode.ptr r.ptr id t.inodes) t.active t.lru t.purge
      t.activeSize t.lruSize t.purgeSize := by
    rw [updateAt_id]
    exact h.sized
  exact h.update hr le_rfl updateAt_id.symm (fun _ => rfl) Iff.rfl hsized hroot
    (hptr ▸ hbelow) hparents rfl rfl

lemma inodeAt (hi : i ∈ t.inodes) : t.inodeAt i.ptr = some i :=
  find?_key_of_mem h.ptrs hi rfl

/-- One more reference, for a caller or for one more dentry below the inode. -/
lemma ref (hroom : n + 1 < UInt32.size) (hi : i ∈ t.inodes) (hret : i.retired = false)
    (byCaller : Bool) (hcount : i.gfid ≠ some rootGfid → (i.addRef byCaller).held + below i.ptr ds =
      i.held + below i.ptr t.dentries + 1)
    (hbelow : ∀ q, q ≠ i.ptr → below q ds = below q t.dentries)
    (hparents : ∀ d ∈ ds, d.parent ∈ t.inodes.map Inode.ptr) :
    TableInv (n + 1) { t.ref byCaller i.ptr with dentries := ds } := by
  have hfits := h.fits i hi
  by_cases hg : i.gfid = some rootGfid
  · -- The root has its one reference, and nothing is written.
    have href : i.ref ≠ 0 := by
      rw [(hfits.root hg).1]
      decide
    have heq : t.ref byCaller i.ptr = t := by
      simp [InodeTable.ref, InodeTable.wake, h.inodeAt hi, hg, href]
    have hptr := h.root_ptr i hi hg
    rw [heq]
    exact (h.dentries (hptr ▸ hbelow) hparents).mono (Nat.le_succ n)
  · have hinc : (i.addRef byCaller).ref = i.ref + 1 :=
      inc32_of_lt (by have hle := hfits.le; omega)
    have hpos : (i.addRef byCaller).ref ≠ 0 := by omega
    have hfits' : InodeFits (n + 1) ds (i.addRef byCaller) := by
      refine ⟨fun hr => absurd (hret.symm.trans hr) Bool.false_ne_true,
        fun hzero => absurd hzero hpos, fun hroot => absurd hroot hg, fun _ => ?_, ?_⟩
      · rw [hinc, hfits.ref hg]
        exact (hcount hg).symm
      · rw [hinc]
        exact Nat.succ_le_succ hfits.le
    by_cases href : i.ref = 0
    · have heq : t.ref byCaller i.ptr =
          (t.leaveLru.activate i.ptr).modify i.ptr (Inode.addRef byCaller) := by
        simp [InodeTable.ref, InodeTable.wake, h.inodeAt hi, href]
      rw [heq]
      exact h.update hi (Nat.le_succ n) rfl (fun _ => rfl) Iff.rfl
        (h.sized.activate h.ptrs hi rfl href hret hpos hret) hfits' hbelow hparents rfl rfl
    · have heq : t.ref byCaller i.ptr = t.modify i.ptr (Inode.addRef byCaller) := by
        simp [InodeTable.ref, InodeTable.wake, h.inodeAt hi, hg, href]
      rw [heq]
      exact h.update hi (Nat.le_succ n) rfl (fun _ => rfl) Iff.rfl
        (h.sized.stay h.ptrs hi rfl (by simp [hpos, href]) rfl) hfits' hbelow hparents rfl rfl

/-- One reference less, of a caller or of a dentry that is gone from `ds`. -/
lemma unrefOne (hi : i ∈ t.inodes) (hg : i.gfid ≠ some rootGfid) (byCaller : Bool)
    (hcount : i.ref = (i.dropRef byCaller).held + below i.ptr ds + 1)
    (hbelow : ∀ q, q ≠ i.ptr → below q ds = below q t.dentries)
    (hparents : ∀ d ∈ ds, d ∈ t.dentries) :
    TableInv n (InodeTable.unrefOne byCaller i.ptr { t with dentries := ds }).1 := by
  have hfits := h.fits i hi
  have hret : i.retired = false := by
    rw [Bool.eq_false_iff]
    intro hr
    have hzero := (hfits.retired hr).1
    omega
  have href : i.ref ≠ 0 := by omega
  have hdec : dec32 i.ref = (i.dropRef byCaller).held + below i.ptr ds := by
    rw [hcount]
    exact dec32_succ _
  have hat : InodeTable.inodeAt i.ptr { t with dentries := ds } = some i := h.inodeAt hi
  have hdentry : ∀ d ∈ ds, d.parent ∈ t.inodes.map Inode.ptr :=
    fun d hd => h.parents d (hparents d hd)
  have hle : dec32 i.ref ≤ n := by
    have hle := hfits.le
    omega
  have hlive (hn : (i.dropRef byCaller).ref = 0 → i.nlookup ≠ 0) :
      InodeFits n ds (i.dropRef byCaller) :=
    ⟨fun hr => absurd (hret.symm.trans hr) Bool.false_ne_true, fun hr _ => hn hr,
      fun hroot => absurd hroot hg, fun _ => hdec, hle⟩
  unfold InodeTable.unrefOne
  rw [hat]
  dsimp only
  rw [if_neg hg]
  by_cases hzero : dec32 i.ref = 0
  · rw [if_pos hzero]
    unfold InodeTable.sleep
    by_cases hlookup : i.nlookup = 0
    · rw [if_neg (by simpa using hlookup)]
      have hfits' : InodeFits n ds (i.dropRef byCaller).unhash :=
        ⟨fun _ => ⟨hzero, rfl⟩, fun _ hr => (by cases hr), fun hroot => absurd hroot hg,
          fun _ => hdec, hle⟩
      have hinodes : updateAt Inode.ptr i.ptr Inode.unhash
          (updateAt Inode.ptr i.ptr (Inode.dropRef byCaller) t.inodes) =
          updateAt Inode.ptr i.ptr (Inode.unhash ∘ Inode.dropRef byCaller) t.inodes :=
        updateAt_updateAt fun _ hp => hp
      exact h.update hi le_rfl hinodes (fun _ => rfl) Iff.rfl
        (h.sized.retireActive h.ptrs hi rfl href hret hzero rfl) hfits' hbelow hdentry rfl rfl
    · rw [if_pos hlookup]
      exact h.update hi le_rfl rfl (fun _ => rfl) Iff.rfl
        (h.sized.passivate h.ptrs hi rfl href hret hzero hret) (hlive fun _ => hlookup) hbelow
        hdentry rfl rfl
  · rw [if_neg hzero]
    have hiff : (i.dropRef byCaller).ref = 0 ↔ i.ref = 0 :=
      ⟨fun hr => absurd hr hzero, fun hr => absurd hr href⟩
    exact h.update hi le_rfl rfl (fun _ => rfl) Iff.rfl
      (h.sized.stay h.ptrs hi rfl hiff rfl) (hlive fun hr => absurd hr hzero) hbelow hdentry rfl rfl

end

lemma below_erase (hd : d ∈ ds) (q : Nat) :
    below q (ds.erase d) + (if d.parent = q then 1 else 0) = below q ds := by
  unfold below
  rw [(perm_cons_erase hd).countP_eq, countP_cons]
  simp

lemma unsetOne (h : TableInv n t) (hd : d ∈ t.dentries) : TableInv n (t.unsetOne d).1 := by
  obtain ⟨i, hi, hp⟩ := mem_map.mp (h.parents d hd)
  have hbelow : ∀ q, q ≠ i.ptr → below q (t.dentries.erase d) = below q t.dentries := by
    intro q hq
    have hcount := below_erase hd q
    have hne : d.parent ≠ q := fun heq => hq (heq.symm.trans hp.symm)
    rwa [if_neg hne] at hcount
  unfold InodeTable.unsetOne
  rw [← hp]
  by_cases hg : i.gfid = some rootGfid
  · -- Nothing is counted for the root.
    have heq : InodeTable.unrefOne false i.ptr { t with dentries := t.dentries.erase d } =
        ({ t with dentries := t.dentries.erase d }, []) := by
      have hat : InodeTable.inodeAt i.ptr { t with dentries := t.dentries.erase d } = some i :=
        h.inodeAt hi
      unfold InodeTable.unrefOne
      rw [hat]
      exact if_pos hg
    have hptr := h.root_ptr i hi hg
    rw [heq]
    exact h.dentries (hptr ▸ hbelow) fun e he => h.parents e (mem_of_mem_erase he)
  · apply h.unrefOne hi hg false _ hbelow fun e he => mem_of_mem_erase he
    have hcount := below_erase hd i.ptr
    rw [if_pos hp.symm] at hcount
    rw [(h.fits i hi).ref hg, ← hcount]
    rfl

private lemma unsetAll {all : List Dentry} (hacyclic : Acyclic Dentry.inode Dentry.parent all)
    (h : TableInv n t) (hw : InodeTable.Waiting all ds t) (fuel : Nat) :
    TableInv n (InodeTable.unsetAll fuel ds t) := by
  induction fuel generalizing ds t with
  | zero => exact h
  | succ fuel ih =>
    cases ds with
    | nil => exact h
    | cons d ds =>
      exact ih (h.unsetOne (hw.waiting_subset mem_cons_self)) (hw.unsetOne hacyclic)

/-- Unsetting dentries of one inode. -/
lemma unset (h : TableInv n t) (hgraph : NameGraph t) {ptr : Nat}
    (hds : ds.Sublist (t.dentriesOf ptr)) : TableInv n (t.unset ds) :=
  h.unsetAll hgraph.acyclic (InodeTable.waiting_of_sublist (hgraph.names.of_map _) hds) _

/-- Unsetting a dentry that may close a cycle. -/
lemma unset_singleton (h : TableInv n t) (hd : d ∈ t.dentries) (hnodup : (t.dentries.erase d).Nodup)
    (hacyclic : Acyclic Dentry.inode Dentry.parent (t.dentries.erase d)) :
    TableInv n (t.unset [d]) := by
  rw [InodeTable.unset_singleton hd]
  exact (h.unsetOne hd).unsetAll hacyclic (InodeTable.waiting_unsetOne hnodup) _

/-- `inode_unref` of a reference that a caller holds. -/
lemma unref (h : TableInv n t) (hgraph : NameGraph t) (hi : i ∈ t.inodes)
    (hheld : i.gfid = some rootGfid ∨ i.held ≠ 0) : TableInv n (t.unref i.ptr) := by
  unfold InodeTable.unref
  by_cases hg : i.gfid = some rootGfid
  · have heq : t.unrefOne true i.ptr = (t, []) := by
      unfold InodeTable.unrefOne
      rw [h.inodeAt hi]
      exact if_pos hg
    rw [heq]
    exact h.unset hgraph (nil_sublist (t.dentriesOf i.ptr))
  · have hheld := hheld.resolve_left hg
    have hstep : TableInv n (t.unrefOne true i.ptr).1 := by
      apply h.unrefOne hi hg true _ (fun _ _ => rfl) fun _ hd => hd
      rw [(h.fits i hi).ref hg, show (i.dropRef true).held = i.held - 1 from rfl]
      omega
    apply hstep.unset (hgraph.shrinks (InodeTable.shrinks_unrefOne true i.ptr t))
    unfold InodeTable.dentriesOf
    rw [InodeTable.dentries_unrefOne]
    exact InodeTable.unrefOne_sublist true i.ptr t

end TableInv

end TagItGluster.Libglusterfs
