import TagItGluster.Libglusterfs.InodeLists

/-!
# Runs of an inode table

The lists and counts are kept by every call on a table whose root has been referenced, by callers
that forget look-ups of an inode only while they reference it, as long as no counter passes its
width. Without the first reference the root stands in the lru list like any other inode.
-/

namespace TagItGluster.Libglusterfs

open Base List

/-- The inode is in the table and has not been retired. -/
def Alive (ptr : Nat) (t : InodeTable) : Prop :=
  ∃ i ∈ t.inodes, i.ptr = ptr ∧ i.retired = false

section

variable {ptr q : Nat} {t : InodeTable}

private lemma Alive.modify {f : Inode → Inode} (h : Alive ptr t) (hkey : ∀ j, (f j).ptr = j.ptr)
    (hret : ∀ j, (f j).retired = j.retired) : Alive ptr (t.modify q f) := by
  obtain ⟨i, hi, hp, hr⟩ := h
  by_cases hq : i.ptr = q
  · refine ⟨f i, mem_updateAt.mpr (.inl ⟨i, hi, hq, rfl⟩), (hkey i).trans hp, (hret i).trans hr⟩
  · exact ⟨i, mem_updateAt.mpr (.inr ⟨hi, hq⟩), hp, hr⟩

lemma Alive.ref (h : Alive ptr t) (byCaller : Bool) : Alive ptr (t.ref byCaller q) := by
  have hwake (i : Inode) : Alive ptr (t.wake i) := by
    unfold InodeTable.wake
    split <;> exact h
  unfold InodeTable.ref
  cases t.inodeAt q with
  | none => exact h
  | some i =>
    dsimp only
    split
    · exact hwake i
    · exact (hwake i).modify (fun _ => rfl) fun _ => rfl

private lemma alive_of_usable (h : t.usable ptr) : Alive ptr t := by
  obtain ⟨i, hi, hret⟩ := InodeTable.exists_of_usable h
  obtain ⟨hmem, hp⟩ := InodeTable.mem_of_inodeAt hi
  exact ⟨i, hmem, hp, hret⟩

end

/-- Inodes are not taken back once they are retired. -/
private lemma Shrinks.countP_le {t t' : InodeTable} (hs : Shrinks t t')
    (hnodup : (t.inodes.map Inode.ptr).Nodup) :
    t'.inodes.countP (!·.retired) ≤ t.inodes.countP (!·.retired) := by
  have hnodup' : ((t'.inodes.filter (!·.retired)).map Inode.ptr).Nodup :=
    (hnodup.sublist hs.ptrs).sublist (filter_sublist.map _)
  have hsub : (t'.inodes.filter (!·.retired)).map Inode.ptr ⊆
      (t.inodes.filter (!·.retired)).map Inode.ptr := by
    intro p hp
    obtain ⟨i', hi', rfl⟩ := mem_map.mp hp
    obtain ⟨hi', hret⟩ := mem_filter.mp hi'
    obtain ⟨i, hi, haged⟩ := hs.inodes i' hi'
    have hret := (haged.usable (by simpa using hret)).1
    exact mem_map.mpr ⟨i, mem_filter.mpr ⟨hi, by simp [hret]⟩, haged.ptr.symm⟩
  have hle := hnodup'.length_le_of_subset hsub
  rwa [length_map, length_map, ← countP_eq_length_filter, ← countP_eq_length_filter] at hle

namespace TableInv

variable {n : Nat} {t : InodeTable} {i : Inode} {ptr : Nat}

/-! ### Look-ups -/

variable (h : TableInv n t)
include h

section

variable (hi : i ∈ t.inodes)
include hi

private lemma lookup (hroom : i.nlookup + 1 < UInt64.size) : TableInv n (t.lookup i.ptr) := by
  have hfits := h.fits i hi
  have hnext : (if i.nlookup + 1 = UInt64.size then 0 else i.nlookup + 1) = i.nlookup + 1 :=
    if_neg (by omega)
  refine h.update hi le_rfl rfl (fun _ => rfl) Iff.rfl (h.sized.stay h.ptrs hi rfl Iff.rfl rfl)
    ⟨hfits.retired, ?_, hfits.root, hfits.ref, hfits.le⟩ (fun _ _ => rfl) h.parents rfl rfl
  intro _ _
  dsimp only
  omega

lemma forget (href : i.ref ≠ 0) (m : Nat) : TableInv n (t.forget i.ptr m) := by
  have hfits := h.fits i hi
  exact h.update hi le_rfl rfl (fun _ => rfl) Iff.rfl (h.sized.stay h.ptrs hi rfl Iff.rfl rfl)
    ⟨hfits.retired, fun hr => absurd hr href, hfits.root, hfits.ref, hfits.le⟩ (fun _ _ => rfl)
    h.parents rfl rfl

/-! ### Links -/

private lemma known (hret : i.retired = false) (hhash : i.hashed = false) {gfid : Nat}
    (hg : gfid ≠ rootGfid) (isDir : Bool) :
    TableInv n (t.modify i.ptr (Inode.known gfid isDir)) := by
  have hfits := h.fits i hi
  have hnot : i.gfid ≠ some rootGfid := by
    intro hroot
    rw [(hfits.root hroot).2] at hhash
    cases hhash
  have hnew : (Inode.known gfid isDir i).gfid ≠ some rootGfid :=
    fun heq => hg (Option.some.inj heq)
  refine h.update hi le_rfl rfl (fun _ => rfl) ⟨fun hr => absurd hr hnew, fun hr => absurd hr hnot⟩
    (h.sized.stay h.ptrs hi rfl Iff.rfl rfl) ⟨?_, hfits.nlookup, fun hr => absurd hr hnew,
      fun _ => hfits.ref hnot, hfits.le⟩ (fun _ _ => rfl) h.parents rfl rfl
  intro hr
  rw [show (Inode.known gfid isDir i).retired = i.retired from rfl, hret] at hr
  cases hr

end

private lemma alive_root : Alive rootPtr t := by
  obtain ⟨r, hr, hptr, hg⟩ := h.root
  refine ⟨r, hr, hptr, ?_⟩
  rw [Bool.eq_false_iff]
  intro hret
  have hzero := ((h.fits r hr).retired hret).1
  rw [((h.fits r hr).root hg).1] at hzero
  cases hzero

private lemma alive_of_find {gfid : Nat} (hfind : t.find gfid = some ptr) : Alive ptr t := by
  unfold InodeTable.find at hfind
  split at hfind
  · cases hfind
    exact h.alive_root
  obtain ⟨i, hi, rfl⟩ := Option.map_eq_some_iff.mp hfind
  have hmem := mem_of_find?_eq_some hi
  have hhash : i.hashed := by
    have hfound := find?_some hi
    simp only [Bool.and_eq_true] at hfound
    exact hfound.1
  refine ⟨i, hmem, rfl, ?_⟩
  rw [Bool.eq_false_iff]
  intro hret
  rw [((h.fits i hmem).retired hret).2] at hhash
  cases hhash

/-- The start of a link leaves an inode that can be linked. -/
lemma linkInode {inode link : Nat} (husable : t.usable inode) {iatt : Option Iatt}
    {t' : InodeTable} {check : Bool} (hlink : t.linkInode inode iatt = some (t', link, check)) :
    TableInv n t' ∧ Alive link t' ∧ ∀ q, Alive q t → Alive q t' := by
  obtain ⟨i, hi, hret⟩ := InodeTable.exists_of_usable husable
  obtain ⟨hmem, hp⟩ := InodeTable.mem_of_inodeAt hi
  have halive : Alive inode t := ⟨i, hmem, hp, hret⟩
  unfold InodeTable.linkInode at hlink
  rw [hi] at hlink
  dsimp only at hlink
  split at hlink
  · obtain ⟨rfl, rfl, -⟩ : t = t' ∧ inode = link ∧ true = check := by simpa using hlink
    exact ⟨h, halive, fun _ hq => hq⟩
  rename_i hhash
  split at hlink
  · rename_i gfid isDir
    cases hfind : t.find gfid with
    | some old =>
      rw [hfind] at hlink
      obtain ⟨rfl, rfl, -⟩ : t = t' ∧ old = link ∧ true = check := by simpa using hlink
      exact ⟨h, h.alive_of_find hfind, fun _ hq => hq⟩
    | none =>
      rw [hfind] at hlink
      obtain ⟨rfl, rfl, -⟩ : t.modify inode (Inode.known gfid isDir) = t' ∧ inode = link ∧
        false = check := by simpa using hlink
      have hg : gfid ≠ rootGfid := by
        rintro rfl
        simp [InodeTable.find] at hfind
      have hkeep (q : Nat) (hq : Alive q t) :
          Alive q (t.modify inode (Inode.known gfid isDir)) :=
        hq.modify (fun _ => rfl) fun _ => rfl
      refine ⟨?_, hkeep inode halive, hkeep⟩
      rw [← hp]
      exact h.known hmem hret (by simpa using hhash) hg isDir
  · cases hlink

private lemma refCaller (hroom : n + 1 < UInt32.size) (halive : Alive ptr t) :
    TableInv (n + 1) (t.ref true ptr) := by
  obtain ⟨i, hi, rfl, hret⟩ := halive
  have hinv : TableInv (n + 1) { t.ref true i.ptr with dentries := t.dentries } :=
    h.ref hroom hi hret true (fun _ => Nat.add_right_comm _ _ _) (fun _ _ => rfl) h.parents
  have heq : { t.ref true i.ptr with dentries := t.dentries } = t.ref true i.ptr := by
    rw [← InodeTable.dentries_ref true i.ptr t]
  rwa [heq] at hinv

/-- A new dentry with its reference. -/
lemma cons (hroom : n + 1 < UInt32.size) {d : Dentry} (hparent : Alive d.parent t) :
    TableInv (n + 1) { t.ref false d.parent with dentries := d :: t.dentries } := by
  obtain ⟨i, hi, hp, hret⟩ := hparent
  rw [← hp]
  apply h.ref hroom hi hret false
  · intro _
    have hcons : below i.ptr (d :: t.dentries) = below i.ptr t.dentries + 1 :=
      countP_cons_of_pos (by simpa using hp.symm)
    rw [hcons]
    exact (add_assoc _ _ _).symm
  · intro q hq
    have hne : d.parent ≠ q := fun heq => hq (heq.symm.trans hp.symm)
    exact countP_cons_of_neg (by simpa using hne)
  · exact forall_mem_cons.mpr ⟨hp ▸ mem_map_of_mem hi, h.parents⟩

/-- Where another dentry is below the directory, unsetting a dentry is one step. -/
lemma unset_of_two {o d : Dentry} (ho : o ∈ t.dentries) (hd : d ∈ t.dentries.erase o)
    (hparent : d.parent = o.parent) :
    TableInv n (t.unset [o]) ∧ ∀ q, Alive q t → Alive q (t.unset [o]) := by
  obtain ⟨i, hi, hp⟩ := mem_map.mp (h.parents o ho)
  have hat : InodeTable.inodeAt o.parent { t with dentries := t.dentries.erase o } = some i := by
    rw [← hp]
    exact h.inodeAt hi
  have hstep : (t.unsetOne o).2 = [] ∧ ∀ q, Alive q t → Alive q (t.unsetOne o).1 := by
    unfold InodeTable.unsetOne InodeTable.unrefOne
    rw [hat]
    dsimp only
    by_cases hg : i.gfid = some rootGfid
    · rw [if_pos hg]
      exact ⟨rfl, fun _ ha => ha⟩
    -- The other dentry is counted too.
    have hcount := below_erase ho i.ptr
    rw [if_pos hp.symm] at hcount
    have hpos : 0 < below i.ptr (t.dentries.erase o) :=
      countP_pos_iff.mpr ⟨d, hd, by simpa using hparent.trans hp.symm⟩
    have href := (h.fits i hi).ref hg
    have hdec : dec32 i.ref ≠ 0 := by
      rw [href, ← hcount, ← add_assoc, dec32_succ]
      omega
    rw [if_neg hg, if_neg hdec]
    refine ⟨rfl, ?_⟩
    intro q ha
    have halive : Alive q { t with dentries := t.dentries.erase o } := ha
    exact halive.modify (fun _ => rfl) fun _ => rfl
  have hunset : t.unset [o] = (t.unsetOne o).1 := by
    rw [InodeTable.unset_singleton ho, hstep.1]
    cases (t.dentries.erase o).length <;> rfl
  rw [hunset]
  exact ⟨h.unsetOne ho, hstep.2⟩

section

variable (hgraph : NameGraph t)
include hgraph

private lemma linkDentry (hroom : n + 1 < UInt32.size) {link p : Nat} (hparent : Alive p t)
    (hlink : Alive link t) (allocated check : Bool) (name : Text) :
    TableInv (n + 1) (t.linkDentry allocated check link p name).1 ∧
      ∀ linked, (t.linkDentry allocated check link p name).2 = some linked →
        Alive linked (t.linkDentry allocated check link p name).1 := by
  have hnone {u : InodeTable} (linked : Nat) (hl : none = some linked) :
      Alive linked u := by cases hl
  unfold InodeTable.linkDentry
  dsimp only
  split
  · refine ⟨h.mono (Nat.le_succ n), ?_⟩
    rintro linked hl
    cases hl
    exact hlink
  split
  · exact ⟨h.mono (Nat.le_succ n), hnone⟩
  have hcreate : t.dentryCreate ⟨link, p, name, false⟩ =
      { t.ref false p with dentries := ⟨link, p, name, false⟩ :: t.dentries } := by
    simp [InodeTable.dentryCreate]
  have hhash : (t.dentryCreate ⟨link, p, name, false⟩).dentryHash ⟨link, p, name, false⟩ =
      { t.ref false p with dentries := ⟨link, p, name, true⟩ :: t.dentries } := by
    rw [hcreate, InodeTable.dentryHash]
    rw [erase_cons_head]
  split
  · -- The dentry that would close a cycle is taken back.
    refine ⟨?_, hnone⟩
    rw [hcreate]
    have hinv := h.cons hroom (d := ⟨link, p, name, false⟩) hparent
    apply hinv.unset_singleton mem_cons_self
    · rw [erase_cons_head]
      exact hgraph.names.of_map _
    · rw [erase_cons_head]
      exact hgraph.acyclic
  · rename_i hold _ _
    rw [hhash]
    have hinv := h.cons hroom (d := ⟨link, p, name, true⟩) hparent
    have halive : Alive link
        { t.ref false p with dentries := ⟨link, p, name, true⟩ :: t.dentries } :=
      hlink.ref false
    cases hgrep : t.dentryGrep p name with
    | none =>
      refine ⟨hinv, ?_⟩
      rintro linked hl
      cases hl
      exact halive
    | some o =>
      obtain ⟨hmem, -⟩ := InodeTable.dentryGrep_some hgraph hgrep
      have hparent' : p = o.parent := by
        have hfound := find?_some hgrep
        simp only [Bool.and_eq_true, decide_eq_true_eq] at hfound
        exact hfound.1.2.symm
      have hne : (⟨link, p, name, true⟩ : Dentry) ≠ o := by
        rintro rfl
        exact hold (by rw [hgrep]; rfl)
      have hother : (⟨link, p, name, true⟩ : Dentry) ∈
          ((⟨link, p, name, true⟩ : Dentry) :: t.dentries).erase o := by
        rw [erase_cons_tail (by simpa using hne)]
        exact mem_cons_self
      obtain ⟨hinv, hkeep⟩ := hinv.unset_of_two (mem_cons_of_mem _ hmem) hother hparent'
      refine ⟨hinv, ?_⟩
      rintro linked hl
      cases hl
      exact hkeep link halive

private lemma linkCore (hroom : n + 1 < UInt32.size) {inode : Nat} (husable : t.usable inode)
    {parent : Option Nat} (hparent : parent.all t.usable) (allocated : Bool) (name : Option Text)
    (iatt : Option Iatt) :
    TableInv (n + 1) (t.linkCore allocated inode parent name iatt).1 ∧
      ∀ linked, (t.linkCore allocated inode parent name iatt).2 = some linked →
        Alive linked (t.linkCore allocated inode parent name iatt).1 := by
  have hnone {u : InodeTable} (linked : Nat) (hl : none = some linked) :
      Alive linked u := by cases hl
  unfold InodeTable.linkCore
  split
  · exact ⟨h.mono (Nat.le_succ n), hnone⟩
  cases hlink : t.linkInode inode iatt with
  | none => exact ⟨h.mono (Nat.le_succ n), hnone⟩
  | some out =>
    obtain ⟨t', link, check⟩ := out
    obtain ⟨hinv, halive, hkeep⟩ := h.linkInode husable hlink
    have hsome (linked : Nat) (hl : some link = some linked) : Alive linked t' := by
      cases hl
      exact halive
    dsimp only
    split
    · exact ⟨hinv.mono (Nat.le_succ n), hsome⟩
    split
    · exact ⟨hinv.mono (Nat.le_succ n), hnone⟩
    cases parent with
    | none => exact ⟨hinv.mono (Nat.le_succ n), hsome⟩
    | some p =>
      have hp := hkeep p (alive_of_usable (by simpa using hparent))
      exact hinv.linkDentry (InodeTable.nameGraph_linkInode hgraph husable hlink) hroom hp halive
        allocated check (name.getD [])

private lemma link (hroom : n + 2 < UInt32.size) {inode : Nat} (husable : t.usable inode)
    {parent : Option Nat} (hparent : parent.all t.usable) (allocated : Bool) (name : Option Text)
    (iatt : Option Iatt) : TableInv (n + 2) (t.link allocated inode parent name iatt) := by
  have hcore := h.linkCore hgraph (by omega) husable hparent allocated name iatt
  unfold InodeTable.link
  rcases hout : t.linkCore allocated inode parent name iatt with ⟨t', _ | linked⟩
  · rw [hout] at hcore
    exact hcore.1.mono (Nat.le_succ _)
  · rw [hout] at hcore
    exact hcore.1.refCaller hroom (hcore.2 linked rfl)

private lemma unlink (inode parent : Nat) (name : Text) :
    TableInv n (t.unlink inode parent name) := by
  have hsub : (t.dentrySearchForInode inode parent name).toList.Sublist (t.dentriesOf inode) := by
    unfold InodeTable.dentrySearchForInode
    split
    · exact nil_sublist _
    · cases hfind : (t.dentriesOf inode).find? _ with
      | none => exact nil_sublist _
      | some d => exact singleton_sublist.mpr (mem_of_find?_eq_some hfind)
  exact h.unset hgraph hsub

end

/-! ### Pruning -/

lemma retire (hi : i ∈ t.inodes) (href : i.ref = 0) (hret : i.retired = false) :
    TableInv n (t.leaveLru.retire i.ptr) := by
  have hfits := h.fits i hi
  have hg : i.gfid ≠ some rootGfid := by
    intro hroot
    rw [(hfits.root hroot).1] at href
    cases href
  exact h.update hi le_rfl rfl (fun _ => rfl) Iff.rfl
    (h.sized.retireLru h.ptrs hi rfl href hret href rfl)
    ⟨fun _ => ⟨href, rfl⟩, fun _ hr => (by cases hr), fun hr => absurd hr hg, hfits.ref, hfits.le⟩
    (fun _ _ => rfl) h.parents rfl rfl

private lemma of_lru (hmem : ptr ∈ t.lru) :
    ∃ i ∈ t.inodes, i.ptr = ptr ∧ i.ref = 0 ∧ i.retired = false := by
  obtain ⟨i, hi, hlru, hp⟩ := h.sized.lists_lru.mem_iff.mp hmem
  simp only [Inode.isLru, Bool.and_eq_true, decide_eq_true_eq, Bool.not_eq_true'] at hlru
  exact ⟨i, hi, hp, hlru.1, hlru.2⟩

/-- A turn of the loop of `inode_table_prune`: there is one more inode that is retired. -/
private lemma pruneTurn (hgraph : NameGraph t) (hmem : ptr ∈ t.lru) :
    let t' := (t.leaveLru.retire ptr).unset (t.dentriesOf ptr)
    TableInv n t' ∧ NameGraph t' ∧
      t'.inodes.countP (!·.retired) < t.inodes.countP (!·.retired) := by
  obtain ⟨i, hi, rfl, href, hret⟩ := h.of_lru hmem
  have hsize : Shrinks t t.leaveLru := .of_eq rfl rfl rfl
  have hgraph' := hgraph.shrinks (hsize.trans (InodeTable.shrinks_retire i.ptr _))
  have hshrinks := InodeTable.shrinks_unset (t.dentriesOf i.ptr) (t.leaveLru.retire i.ptr)
  refine ⟨(h.retire hi href hret).unset hgraph' (.refl _), hgraph'.shrinks hshrinks, ?_⟩
  have hcount := countP_updateAt (f := Inode.unhash) (!·.retired) h.ptrs hi rfl
  rw [if_pos (by simp [hret]), if_neg (by simp [Inode.unhash])] at hcount
  exact lt_of_le_of_lt (hshrinks.countP_le hgraph'.ptrs) (Nat.lt_of_succ_le hcount.le)

private lemma pruneLru (hgraph : NameGraph t) (fuel : Nat) :
    TableInv n (InodeTable.pruneLru fuel t) := by
  induction fuel generalizing t with
  | zero => exact h
  | succ fuel ih =>
    unfold InodeTable.pruneLru
    split
    · cases hlru : t.lru with
      | nil => exact h
      | cons entry rest =>
        obtain ⟨hinv, hgraph', -⟩ := h.pruneTurn hgraph (hlru ▸ mem_cons_self)
        exact ih hinv hgraph'
    · exact h

/-- The loop ends with the list within its limit. -/
lemma within_pruneLru (hgraph : NameGraph t) {fuel : Nat}
    (hfuel : t.inodes.countP (!·.retired) ≤ fuel) :
    ¬((InodeTable.pruneLru fuel t).lruLimit ≠ 0 ∧
      (InodeTable.pruneLru fuel t).lruLimit < (InodeTable.pruneLru fuel t).lruSize) := by
  have hempty (t : InodeTable) (h : TableInv n t) (hlru : t.lru = []) :
      ¬(t.lruLimit ≠ 0 ∧ t.lruLimit < t.lruSize) := by
    have hsize := h.sized.lruSize_eq
    rw [hlru, length_nil, Nat.zero_mod] at hsize
    omega
  induction fuel generalizing t with
  | zero =>
    refine hempty _ h (eq_nil_iff_forall_not_mem.mpr fun p hp => ?_)
    have hlt := (h.pruneTurn hgraph hp).2.2
    omega
  | succ fuel ih =>
    unfold InodeTable.pruneLru
    split
    · next hover =>
      cases hlru : t.lru with
      | nil => exact absurd hover (hempty t h hlru)
      | cons entry rest =>
        obtain ⟨hinv, hgraph', hlt⟩ := h.pruneTurn hgraph (hlru ▸ mem_cons_self)
        exact ih hinv hgraph' (Nat.le_of_lt_succ (lt_of_lt_of_le hlt hfuel))
    · assumption

/-- What is in the purge list has no references, and nothing is below it. -/
lemma of_retired (hi : i ∈ t.inodes) (hret : i.retired) :
    i.ref = 0 ∧ i.held = 0 ∧ ∀ d ∈ t.dentries, d.parent ≠ i.ptr := by
  have hfits := h.fits i hi
  have href := (hfits.retired hret).1
  have hg : i.gfid ≠ some rootGfid := by
    intro hroot
    rw [(hfits.root hroot).1] at href
    cases href
  have hcount := hfits.ref hg
  refine ⟨href, by omega, ?_⟩
  intro d hd hp
  have hpos : 0 < below i.ptr t.dentries := countP_pos_iff.mpr ⟨d, hd, by simpa using hp⟩
  omega

private lemma destroyPurge (hgraph : NameGraph t) : TableInv n t.destroyPurge := by
  have hmem (i : Inode) (hi : i ∈ t.inodes) : i.ptr ∈ t.purge ↔ i.retired = true :=
    h.sized.lists_purge.mem_key h.ptrs hi
  have hleft (i : Inode) : i ∈ t.destroyPurge.inodes ↔ i ∈ t.inodes ∧ i.retired = false := by
    unfold InodeTable.destroyPurge
    rw [mem_filter, decide_eq_true_iff]
    constructor
    · rintro ⟨hi, hp⟩
      exact ⟨hi, by simpa using (hmem i hi).not.mp hp⟩
    · rintro ⟨hi, hret⟩
      exact ⟨hi, (hmem i hi).not.mpr (by simp [hret])⟩
  -- The inodes of the other two lists stay.
  have hlists (p : Inode → Bool) (hp : ∀ i ∈ t.inodes, p i = true → i.retired = false)
      {l : List Nat} (hl : ListsKeys Inode.ptr p t.inodes l) :
      ListsKeys Inode.ptr p t.destroyPurge.inodes l := by
    have heq : t.destroyPurge.inodes.filter p = t.inodes.filter p := by
      unfold InodeTable.destroyPurge
      rw [filter_filter]
      apply filter_congr
      intro i hi
      cases hpi : p i with
      | false => rfl
      | true =>
        have hnot := (hmem i hi).not.mpr (by simp [hp i hi hpi])
        simpa using hnot
    unfold ListsKeys
    rw [heq]
    exact hl
  refine ⟨?_, ⟨?_, ?_, ?_, h.sized.activeSize_eq, h.sized.lruSize_eq, rfl⟩, ?_, ?_, ?_, ?_, ?_⟩
  · exact h.ptrs.sublist (filter_sublist.map _)
  · apply hlists _ _ h.sized.lists_active
    intro i hi hact
    rw [Bool.eq_false_iff]
    intro hret
    simp [Inode.isActive, ((h.fits i hi).retired hret).1] at hact
  · apply hlists _ _ h.sized.lists_lru
    intro i _ hlru
    simp only [Inode.isLru, Bool.and_eq_true, Bool.not_eq_true'] at hlru
    exact hlru.2
  · have hnil : t.destroyPurge.inodes.filter Inode.isPurge = [] := by
      apply filter_eq_nil_iff.mpr
      intro i hi
      simp [Inode.isPurge, ((hleft i).mp hi).2]
    unfold ListsKeys
    rw [hnil]
    exact .nil
  · intro i hi
    exact h.fits i ((hleft i).mp hi).1
  · obtain ⟨r, hr, hptr, hret⟩ := h.alive_root
    obtain ⟨r', hr', hptr', hg⟩ := h.root
    obtain rfl : r = r' := inj_on_of_nodup_map h.ptrs hr hr' (hptr.trans hptr'.symm)
    exact ⟨r, (hleft r).mpr ⟨hr, hret⟩, hptr, hg⟩
  · intro i hi hg
    exact h.root_ptr i ((hleft i).mp hi).1 hg
  · intro d hd
    obtain ⟨i, hi, hp⟩ := mem_map.mp (h.parents d hd)
    have hret : i.retired = false := by
      rw [Bool.eq_false_iff]
      intro hret
      exact (h.of_retired hi hret).2.2 d hd hp.symm
    exact mem_map.mpr ⟨i, (hleft i).mpr ⟨hi, hret⟩, hp⟩
  · intro i hi
    rcases mem_append.mp hi with hi | hi
    · obtain ⟨hi, hp⟩ := mem_filter.mp hi
      have hret := (hmem i hi).mp (by simpa using hp)
      obtain ⟨href, hheld, -⟩ := h.of_retired hi hret
      refine ⟨href, hheld, hgraph.ptr_lt i hi, ?_⟩
      intro hin
      obtain ⟨j, hj, hptr⟩ := mem_map.mp hin
      obtain ⟨hj, hjret⟩ := (hleft j).mp hj
      rw [inj_on_of_nodup_map h.ptrs hj hi hptr, hret] at hjret
      cases hjret
    · obtain ⟨href, hheld, hlt, hnot⟩ := h.destroyed i hi
      exact ⟨href, hheld, hlt, fun hin => hnot ((filter_sublist.map _).subset hin)⟩

private lemma prune (hgraph : NameGraph t) : TableInv n t.prune :=
  (h.pruneLru hgraph _).destroyPurge (hgraph.shrinks (InodeTable.shrinks_pruneLru _ t))

end TableInv

/-! ### Events -/

namespace InodeTable

variable {n : Nat} {t : InodeTable}

private lemma tableInv_new (h : TableInv n t) (hgraph : NameGraph t) : TableInv n t.new := by
  have hcreate := nameGraph_create hgraph
  have hsized : Sized t.create.inodes t.create.active t.create.lru t.create.purge
      t.create.activeSize t.create.lruSize t.create.purgeSize := by
    refine ⟨h.sized.lists_active, ?_, h.sized.lists_purge, h.sized.activeSize_eq, ?_,
      h.sized.purgeSize_eq⟩
    · exact h.sized.lists_lru.cons t.nextPtr
    · rw [show t.create.lruSize = inc32 t.lruSize from rfl, h.sized.lruSize_eq, inc32_mod]
      rfl
  have hinc : inc32 0 = 1 := inc32_of_lt (by decide)
  have hnew : t.new = (t.create.leaveLru.activate t.nextPtr).modify t.nextPtr
      (Inode.addRef true) := by
    have hat : t.create.inodeAt t.nextPtr =
        some ⟨t.nextPtr, none, false, 0, 0, false, 0, false⟩ :=
      find?_cons_of_pos (by simp)
    unfold new ref
    rw [hat]
    rfl
  have hinodes : t.new.inodes =
      Inode.addRef true ⟨t.nextPtr, none, false, 0, 0, false, 0, false⟩ :: t.inodes := by
    have hrest : updateAt Inode.ptr t.nextPtr (Inode.addRef true) t.inodes = t.inodes := by
      apply updateAt_of_notMem
      intro hmem
      obtain ⟨i, hi, hp⟩ := mem_map.mp hmem
      have hlt := hgraph.ptr_lt i hi
      omega
    rw [hnew]
    change (if t.nextPtr = t.nextPtr then _ else _) ::
      updateAt Inode.ptr t.nextPtr (Inode.addRef true) t.inodes = _
    rw [if_pos rfl, hrest]
  have hsized' := hsized.activate hcreate.ptrs mem_cons_self rfl rfl
    rfl (by rw [show (Inode.addRef true _).ref = inc32 0 from rfl, hinc]; decide) rfl
  have hdentries : t.new.dentries = t.dentries := dentries_ref _ _ _
  have hmap : t.new.inodes.map Inode.ptr = t.nextPtr :: t.inodes.map Inode.ptr := by
    rw [hinodes]
    rfl
  obtain ⟨r, hr, hptr, hg⟩ := h.root
  refine ⟨?_, hnew ▸ hsized', ?_, ?_, ?_, ?_, ?_⟩
  · rw [hmap]
    exact hcreate.ptrs
  · rw [hinodes, hdentries]
    refine forall_mem_cons.mpr ⟨⟨fun hr => (by cases hr), ?_, fun hr => (by cases hr), ?_, ?_⟩,
      h.fits⟩
    · intro hzero
      rw [show (Inode.addRef true _).ref = inc32 0 from rfl, hinc] at hzero
      cases hzero
    · intro _
      have hbelow : below t.nextPtr t.dentries = 0 := by
        apply countP_eq_zero.mpr
        intro d hd
        have hlt := hgraph.parent_lt d hd
        simpa using (by omega : d.parent ≠ t.nextPtr)
      change inc32 0 = 0 + 1 + below t.nextPtr t.dentries
      rw [hbelow, hinc]
    · -- The root has one reference, so that the bound is at least one.
      have hle := (h.fits r hr).le
      rw [((h.fits r hr).root hg).1] at hle
      exact hinc.trans_le hle
  · exact ⟨r, hinodes ▸ mem_cons_of_mem _ hr, hptr, hg⟩
  · rw [hinodes]
    exact forall_mem_cons.mpr ⟨fun hg => (by cases hg), h.root_ptr⟩
  · intro d hd
    rw [hmap]
    exact mem_cons_of_mem _ (h.parents d (hdentries ▸ hd))
  · intro i hi
    rw [hnew] at hi
    obtain ⟨href, hheld, hlt, hnot⟩ := h.destroyed i hi
    refine ⟨href, hheld, ?_, ?_⟩
    · rw [hnew]
      exact Nat.lt_succ_of_lt hlt
    · rw [hmap, mem_cons, not_or]
      exact ⟨by omega, hnot⟩

/-- An event adds at most two references to an inode. -/
lemma tableInv_step (e : InodeEvent) (h : TableInv n t) (hgraph : NameGraph t)
    (hroom : n + 2 < UInt32.size) (hlookup : ∀ i ∈ t.inodes, i.nlookup + 1 < UInt64.size)
    (hforget : ∀ ptr m, e = .forget ptr m → ∀ i ∈ t.inodes, i.ptr = ptr → i.ref ≠ 0) :
    TableInv (n + 2) (step e t) := by
  have hsame : TableInv (n + 2) t := h.mono (by omega)
  cases e with
  | new => exact (tableInv_new h hgraph).mono (by omega)
  | ref ptr =>
    dsimp only [step]
    split
    · rename_i husable
      exact (h.refCaller (by omega) (alive_of_usable husable)).mono (by omega)
    · exact hsame
  | unref ptr =>
    dsimp only [step]
    split
    · rename_i hok
      obtain ⟨husable, hrel⟩ := Bool.and_eq_true_iff.mp hok
      obtain ⟨i, hi, -⟩ := exists_of_usable husable
      obtain ⟨hmem, rfl⟩ := mem_of_inodeAt hi
      have hheld : i.gfid = some rootGfid ∨ i.held ≠ 0 := by
        simpa [releasable, hi] using hrel
      exact (h.unref hgraph hmem hheld).mono (by omega)
    · exact hsame
  | lookup ptr =>
    dsimp only [step]
    split
    · rename_i husable
      obtain ⟨i, hi, rfl, -⟩ := alive_of_usable husable
      exact (h.lookup hi (hlookup i hi)).mono (by omega)
    · exact hsame
  | forget ptr m =>
    dsimp only [step]
    split
    · rename_i husable
      obtain ⟨i, hi, rfl, -⟩ := alive_of_usable husable
      exact (h.forget hi (hforget _ _ rfl i hi rfl) m).mono (by omega)
    · exact hsame
  | link allocated inode parent name iatt =>
    dsimp only [step]
    split
    · rename_i hok
      obtain ⟨husable, hparent⟩ := Bool.and_eq_true_iff.mp hok
      exact h.link hgraph hroom husable hparent allocated name iatt
    · exact hsame
  | unlink inode parent name =>
    dsimp only [step]
    split
    · exact (h.unlink hgraph inode parent name).mono (by omega)
    · exact hsame
  | rename allocated inode srcdir srcname dstdir dstname iatt =>
    dsimp only [step]
    split
    · rename_i hok
      simp only [Bool.and_eq_true] at hok
      have hcore := h.linkCore hgraph (by omega) hok.1.1 hok.2 allocated dstname iatt
      have hgraph' := nameGraph_linkCore hgraph allocated hok.1.1 dstdir dstname iatt
      exact (hcore.1.unlink hgraph' inode srcdir srcname).mono (by omega)
    · exact hsame
  | prune => exact (h.prune hgraph).mono (by omega)

/-! ### Runs -/

/-- No counter is about to pass its width. -/
def Roomy (t : InodeTable) : Prop :=
  (∀ i ∈ t.inodes, i.ref + 3 < UInt32.size ∧ i.nlookup + 1 < UInt64.size) ∧
    t.inodes.length + 1 < UInt32.size

instance decidableRoomy (t : InodeTable) : Decidable t.Roomy :=
  inferInstanceAs (Decidable (_ ∧ _))

/-- Look-ups are forgotten by a caller that references the inode. -/
def Proper : InodeEvent → InodeTable → Prop
  | .forget ptr _, t => t.Roomy ∧ ∀ i ∈ t.inodes, i.ptr = ptr → i.ref ≠ 0
  | _, t => t.Roomy

instance decidableProper : ∀ e t, Decidable (Proper e t)
  | .forget _ _, _ => inferInstanceAs (Decidable (_ ∧ _))
  | .new, t | .ref _, t | .unref _, t | .lookup _, t | .link _ _ _ _ _, t | .unlink _ _ _, t
  | .rename _ _ _ _ _ _ _, t | .prune, t => decidableRoomy t

private lemma roomy_of_proper {e : InodeEvent} (h : Proper e t) : t.Roomy := by
  cases e with
  | forget ptr m => exact h.1
  | _ => exact h

/-- What holds between the events of a run. -/
structure RunInv (t : InodeTable) : Prop where
  graph : NameGraph t
  table : TableInv (UInt32.size - 1) t
  length_lt : t.inodes.length < UInt32.size

/-- Links bring no inodes. -/
lemma ptrs_linkCore (allocated : Bool) (inode : Nat) (parent : Option Nat)
    (name : Option Text) (iatt : Option Iatt) (t : InodeTable) :
    ((t.linkCore allocated inode parent name iatt).1.inodes.map Inode.ptr).Sublist
      (t.inodes.map Inode.ptr) := by
  have hdentry (check : Bool) (link p : Nat) (nm : Text) (t : InodeTable) :
      ((t.linkDentry allocated check link p nm).1.inodes.map Inode.ptr).Sublist
        (t.inodes.map Inode.ptr) := by
    have href := (shrinks_ref false p t).ptrs
    unfold linkDentry
    dsimp only
    split
    · exact .refl _
    split
    · exact .refl _
    split
    · exact (shrinks_unset _ _).ptrs.trans href
    · exact (shrinks_unset _ _).ptrs.trans href
  unfold linkCore
  split
  · exact .refl _
  cases hlink : t.linkInode inode iatt with
  | none => exact .refl _
  | some out =>
    obtain ⟨t', link, check⟩ := out
    have hstart : t'.inodes.map Inode.ptr = t.inodes.map Inode.ptr := by
      rcases linkInode_cases hlink with ⟨rfl, -⟩ | ⟨_, gfid, isDir, -, -, rfl, -⟩
      · rfl
      · exact map_updateAt Inode.ptr fun i _ => show (Inode.known gfid isDir i).ptr = i.ptr from rfl
    rw [← hstart]
    dsimp only
    split
    · exact .refl _
    split
    · exact .refl _
    cases parent with
    | none => exact .refl _
    | some p => exact hdentry check link p (name.getD []) t'

private lemma length_step (e : InodeEvent) (t : InodeTable) :
    (step e t).inodes.length ≤ t.inodes.length + 1 := by
  have hle {u v : InodeTable}
      (h : (v.inodes.map Inode.ptr).Sublist (u.inodes.map Inode.ptr)) :
      v.inodes.length ≤ u.inodes.length := by
    simpa using h.length_le
  have hsame : t.inodes.length ≤ t.inodes.length + 1 := Nat.le_succ _
  cases e with
  | new => exact hle (shrinks_ref true t.nextPtr t.create).ptrs
  | ref ptr =>
    dsimp only [step]
    split
    · exact (hle (shrinks_ref true ptr t).ptrs).trans hsame
    · exact hsame
  | unref ptr =>
    dsimp only [step]
    split
    · exact (hle ((shrinks_unrefOne true ptr t).trans (shrinks_unset _ _)).ptrs).trans hsame
    · exact hsame
  | lookup ptr =>
    dsimp only [step]
    split
    · exact (hle (shrinks_lookup ptr t).ptrs).trans hsame
    · exact hsame
  | forget ptr m =>
    dsimp only [step]
    split
    · exact (hle (shrinks_forget ptr m t).ptrs).trans hsame
    · exact hsame
  | link allocated inode parent name iatt =>
    have hcore := ptrs_linkCore allocated inode parent name iatt t
    dsimp only [step]
    split
    · unfold link
      rcases hout : t.linkCore allocated inode parent name iatt with ⟨t', _ | linked⟩
      · rw [hout] at hcore
        exact (hle hcore).trans hsame
      · rw [hout] at hcore
        exact (hle ((shrinks_ref true linked t').ptrs.trans hcore)).trans hsame
    · exact hsame
  | unlink inode parent name =>
    dsimp only [step]
    split
    · exact (hle (shrinks_unset _ t).ptrs).trans hsame
    · exact hsame
  | rename allocated inode srcdir srcname dstdir dstname iatt =>
    dsimp only [step]
    split
    · exact (hle ((shrinks_unset _ _).ptrs.trans (ptrs_linkCore _ _ _ _ _ t))).trans hsame
    · exact hsame
  | prune => exact (hle (shrinks_prune t).ptrs).trans hsame

private lemma runInv_step (e : InodeEvent) (t : InodeTable) (h : RunInv t) (hok : Proper e t) :
    RunInv (step e t) := by
  obtain ⟨hroom, hlength⟩ := roomy_of_proper hok
  have htable : TableInv (UInt32.size - 4) t :=
    { h.table with
      fits := by
        intro i hi
        have hfits := h.table.fits i hi
        have hlt := (hroom i hi).1
        exact ⟨hfits.retired, hfits.nlookup, hfits.root, hfits.ref, by omega⟩ }
  have hforget : ∀ ptr m, e = .forget ptr m → ∀ i ∈ t.inodes, i.ptr = ptr → i.ref ≠ 0 := by
    rintro ptr m rfl
    exact hok.2
  have hstep := tableInv_step e htable h.graph (by decide) (fun i hi => (hroom i hi).2) hforget
  refine ⟨nameGraph_step e t h.graph, hstep.mono (by decide), ?_⟩
  have hle := length_step e t
  omega

/-- The root with its one reference. -/
lemma step_ref_root (lruLimit : Nat) : step (.ref rootPtr) (init lruLimit) =
    { lruLimit
      inodes := [⟨rootPtr, some rootGfid, true, 0, 1, true, 1, false⟩]
      dentries := []
      active := [rootPtr]
      lru := []
      purge := []
      activeSize := 1
      lruSize := 0
      purgeSize := 0
      destroyed := []
      nextPtr := rootPtr + 1 } := by
  have hinc : inc32 0 = 1 := inc32_of_lt (by decide)
  have hdec : dec32 1 = 0 := dec32_succ 0
  simp [step, usable, inodeAt, init, ref, wake, leaveLru, activate, listDel, modify, updateAt,
    Inode.addRef, hinc, hdec]

private lemma runInv_init (lruLimit : Nat) : RunInv (step (.ref rootPtr) (init lruLimit)) := by
  have hgraph := nameGraph_step (.ref rootPtr) (init lruLimit) (nameGraph_init lruLimit)
  rw [step_ref_root] at hgraph ⊢
  have hfits (ds : List Dentry) : InodeFits (UInt32.size - 1) ds
      ⟨rootPtr, some rootGfid, true, 0, 1, true, 1, false⟩ :=
    ⟨fun hret => (by cases hret), fun href => (by cases href), fun _ => ⟨rfl, rfl⟩,
      fun hne => absurd rfl hne, show 1 ≤ UInt32.size - 1 by decide⟩
  have hone : 1 = 1 % UInt32.size := by decide
  refine ⟨hgraph, ⟨hgraph.ptrs, ⟨.refl _, .refl _, .refl _, hone, rfl, rfl⟩, ?_, ?_, ?_, ?_, ?_⟩,
    show 1 < UInt32.size by decide⟩
  · exact forall_mem_singleton.mpr (hfits _)
  · exact ⟨_, mem_singleton_self _, rfl, rfl⟩
  · exact forall_mem_singleton.mpr fun _ => rfl
  · exact fun _ hd => absurd hd not_mem_nil
  · exact fun _ hi => absurd hi not_mem_nil

/-- On a table whose root has been referenced first, by callers that release only references they
hold and forget look-ups only of inodes they reference, and while no counter passes its width: an
inode is in the active list exactly when it is referenced and in the lru list only without a
reference and with look-ups, the sizes are those of the lists, each inode but the root has at least
as many references as dentries below it, and what has been destroyed had no reference and has no
dentry below it. -/
theorem inode_lists_ok (lruLimit : Nat) (es : List InodeEvent)
    (h : Throughout step Proper es (step (.ref rootPtr) (init lruLimit))) :
    let t := runAll step (.ref rootPtr :: es) (init lruLimit)
    (∀ i ∈ t.inodes, i.ptr ∈ t.active ↔ 0 < i.ref) ∧
      (∀ i ∈ t.inodes, i.ptr ∈ t.lru → i.ref = 0 ∧ 0 < i.nlookup) ∧
      (t.activeSize = t.active.length ∧ t.lruSize = t.lru.length ∧ t.purgeSize = t.purge.length) ∧
      (∀ i ∈ t.inodes, i.ptr ≠ rootPtr → below i.ptr t.dentries ≤ i.ref) ∧
      ∀ i ∈ t.destroyed, i.ref = 0 ∧ i.held = 0 ∧ ∀ d ∈ t.dentries, d.parent ≠ i.ptr := by
  intro t
  have hrun : RunInv (runAll step es (step (.ref rootPtr) (init lruLimit))) :=
    runAll_inv step RunInv runInv_step (runInv_init lruLimit) h
  obtain ⟨-, htable, hlength⟩ : RunInv t := hrun
  have hsized := htable.sized
  refine ⟨?_, ?_, ⟨?_, ?_, ?_⟩, ?_, ?_⟩
  · intro i hi
    rw [hsized.lists_active.mem_key htable.ptrs hi, Inode.isActive, decide_eq_true_iff]
    exact Nat.pos_iff_ne_zero.symm
  · intro i hi hmem
    rw [hsized.lists_lru.mem_key htable.ptrs hi] at hmem
    simp only [Inode.isLru, Bool.and_eq_true, decide_eq_true_eq, Bool.not_eq_true'] at hmem
    have hlookup := (htable.fits i hi).nlookup hmem.1 hmem.2
    exact ⟨hmem.1, Nat.pos_of_ne_zero hlookup⟩
  · rw [hsized.activeSize_eq]
    exact Nat.mod_eq_of_lt (hsized.lists_active.length_le.trans_lt hlength)
  · rw [hsized.lruSize_eq]
    exact Nat.mod_eq_of_lt (hsized.lists_lru.length_le.trans_lt hlength)
  · rw [hsized.purgeSize_eq]
    exact Nat.mod_eq_of_lt (hsized.lists_purge.length_le.trans_lt hlength)
  · intro i hi hne
    have hg : i.gfid ≠ some rootGfid := fun hroot => hne (htable.root_ptr i hi hroot)
    rw [(htable.fits i hi).ref hg]
    exact Nat.le_add_left _ _
  · intro i hi
    obtain ⟨href, hheld, -, hnot⟩ := htable.destroyed i hi
    refine ⟨href, hheld, ?_⟩
    intro d hd hp
    exact hnot (hp ▸ htable.parents d hd)

/-- A directory below the root with a file in it; the file is unlinked, released and destroyed. -/
theorem inode_lists_ok_file :
    let es := [.new, .link true 1 (some 0) (some ['d']) (some ⟨some 7, true⟩), .lookup 1, .new,
      .link true 2 (some 1) (some ['f']) (some ⟨some 8, false⟩), .lookup 2, .unlink 2 1 ['f'],
      .forget 2 1, .unref 2, .unref 2, .prune]
    Throughout step Proper es (step (.ref rootPtr) (init 1)) ∧
      (runAll step (.ref rootPtr :: es) (init 1)).destroyed.map Inode.ptr = [2] ∧
      (runAll step (.ref rootPtr :: es) (init 1)).activeSize =
        (runAll step (.ref rootPtr :: es) (init 1)).active.length := by
  intro es
  have h : Throughout step Proper es (step (.ref rootPtr) (init 1)) := by decide +kernel
  exact ⟨h, by decide +kernel, (inode_lists_ok 1 es h).2.2.1.1⟩

/-- The root of a new table is in the lru list without a look-up, so that an inode with look-ups
that is released makes pruning destroy the root; two dentries below the root are one reference; and
an inode whose look-ups are forgotten while nobody references it stays in the lru list. -/
theorem inode_lists_wrong :
    ((init 1).lru = [rootPtr] ∧ (init 1).inodes.map Inode.nlookup = [0]) ∧
      (runAll step [.new, .lookup 1, .unref 1, .prune] (init 1)).destroyed.map Inode.ptr =
        [rootPtr] ∧
      (∃ es, below rootPtr (runAll step es (init 0)).dentries = 2 ∧
        ((runAll step es (init 0)).inodeAt rootPtr).map Inode.ref = some 1) ∧
      ∃ es, (runAll step es (init 0)).lru = [1] ∧
        ((runAll step es (init 0)).inodeAt 1).map Inode.nlookup = some 0 := by
  refine ⟨by decide, by decide +kernel, ?_, ?_⟩
  · exact ⟨[.new, .link true 1 (some 0) (some ['a']) (some ⟨some 7, false⟩), .new,
      .link true 2 (some 0) (some ['b']) (some ⟨some 8, false⟩)], by decide +kernel⟩
  · exact ⟨[.ref 0, .new, .lookup 1, .unref 1, .forget 1 1], by decide +kernel⟩

end InodeTable

end TagItGluster.Libglusterfs
