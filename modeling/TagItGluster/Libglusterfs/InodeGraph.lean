import Mathlib.Data.List.Sublists
import TagItGluster.Base.Ancestry
import TagItGluster.Libglusterfs.Inode

/-!
# The names of an inode table

The dentries lead from inodes to the directories that name them. All calls but a link only take
dentries away; a link adds one after the walk over the ancestors has not met the inode, or for an
inode that was not known before and so cannot be a directory with something in it.
-/

namespace TagItGluster.Libglusterfs

open Base Relation List Bool

/-- No two dentries have one name in one directory, and no way up through them leads back. -/
structure NameGraph (t : InodeTable) : Prop where
  ptrs : (t.inodes.map Inode.ptr).Nodup
  ptr_lt : ∀ i ∈ t.inodes, i.ptr < t.nextPtr
  parent_lt : ∀ d ∈ t.dentries, d.parent < t.nextPtr
  hashed : ∀ d ∈ t.dentries, d.hashed = true
  names : (t.dentries.map fun d => (d.parent, d.name)).Nodup
  acyclic : Acyclic Dentry.inode Dentry.parent t.dentries
  parent_isDir : ∀ d ∈ t.dentries, ∀ i ∈ t.inodes, i.ptr = d.parent → i.isDir = true
  isDir_hashed : ∀ i ∈ t.inodes, i.isDir = true → i.retired = false → i.hashed = true

/-- An inode as it may be after calls that do not link it. -/
structure Aged (i i' : Inode) : Prop where
  ptr : i'.ptr = i.ptr
  isDir : i'.isDir = i.isDir
  usable : i'.retired = false → i.retired = false ∧ i'.hashed = i.hashed

/-- What calls without a link do to the graph: inodes and dentries go, and none come. -/
structure Shrinks (t t' : InodeTable) : Prop where
  dentries : t'.dentries.Sublist t.dentries
  ptrs : (t'.inodes.map Inode.ptr).Sublist (t.inodes.map Inode.ptr)
  inodes : ∀ i' ∈ t'.inodes, ∃ i ∈ t.inodes, Aged i i'
  nextPtr : t'.nextPtr = t.nextPtr

private lemma Aged.refl (i : Inode) : Aged i i := ⟨rfl, rfl, fun h => ⟨h, rfl⟩⟩

private lemma Aged.trans {i j k : Inode} (h : Aged i j) (h' : Aged j k) : Aged i k where
  ptr := h'.ptr.trans h.ptr
  isDir := h'.isDir.trans h.isDir
  usable := by
    intro hk
    obtain ⟨hj, heq⟩ := h'.usable hk
    obtain ⟨hi, heq'⟩ := h.usable hj
    exact ⟨hi, heq.trans heq'⟩

namespace Shrinks

variable {t t' t'' : InodeTable}

private lemma refl (t : InodeTable) : Shrinks t t :=
  ⟨.refl _, .refl _, fun i hi => ⟨i, hi, .refl i⟩, rfl⟩

lemma trans (h : Shrinks t t') (h' : Shrinks t' t'') : Shrinks t t'' where
  dentries := h'.dentries.trans h.dentries
  ptrs := h'.ptrs.trans h.ptrs
  inodes := by
    intro k hk
    obtain ⟨j, hj, hjk⟩ := h'.inodes k hk
    obtain ⟨i, hi, hij⟩ := h.inodes j hj
    exact ⟨i, hi, hij.trans hjk⟩
  nextPtr := h'.nextPtr.trans h.nextPtr

/-- A change of one inode that only ages it. -/
lemma modify {ptr : Nat} {f : Inode → Inode} (hf : ∀ i, Aged i (f i)) (t : InodeTable) :
    Shrinks t (t.modify ptr f) where
  dentries := .refl _
  ptrs := by
    rw [show (t.modify ptr f).inodes = updateAt Inode.ptr ptr f t.inodes from rfl,
      map_updateAt Inode.ptr fun i _ => (hf i).ptr]
  inodes := by
    intro i' hi'
    obtain ⟨i, hi, rfl⟩ := mem_map.mp hi'
    refine ⟨i, hi, ?_⟩
    by_cases hp : i.ptr = ptr
    · rw [if_pos hp]
      exact hf i
    · rw [if_neg hp]
      exact .refl i
  nextPtr := rfl

/-- The lists and their sizes are not part of the graph. -/
lemma of_eq (hd : t'.dentries = t.dentries) (hi : t'.inodes = t.inodes)
    (hn : t'.nextPtr = t.nextPtr) : Shrinks t t' where
  dentries := hd ▸ .refl _
  ptrs := hi ▸ .refl _
  inodes := by
    intro i h
    exact ⟨i, hi ▸ h, .refl i⟩
  nextPtr := hn

end Shrinks

lemma NameGraph.shrinks {t t' : InodeTable} (h : NameGraph t) (hs : Shrinks t t') :
    NameGraph t' where
  ptrs := h.ptrs.sublist hs.ptrs
  ptr_lt := by
    intro i' hi'
    obtain ⟨i, hi, haged⟩ := hs.inodes i' hi'
    rw [haged.ptr, hs.nextPtr]
    exact h.ptr_lt i hi
  parent_lt := by
    intro d hd
    rw [hs.nextPtr]
    exact h.parent_lt d (hs.dentries.subset hd)
  hashed := fun d hd => h.hashed d (hs.dentries.subset hd)
  names := h.names.sublist (hs.dentries.map _)
  acyclic := h.acyclic.subset hs.dentries.subset
  parent_isDir := by
    intro d hd i' hi' hp
    obtain ⟨i, hi, haged⟩ := hs.inodes i' hi'
    rw [haged.isDir]
    exact h.parent_isDir d (hs.dentries.subset hd) i hi (haged.ptr ▸ hp)
  isDir_hashed := by
    intro i' hi' hdir hret
    obtain ⟨i, hi, haged⟩ := hs.inodes i' hi'
    obtain ⟨hret, hhashed⟩ := haged.usable hret
    rw [hhashed]
    exact h.isDir_hashed i hi (haged.isDir ▸ hdir) hret

namespace InodeTable

variable {t : InodeTable} {ptr : Nat}

lemma shrinks_retire (ptr : Nat) (t : InodeTable) : Shrinks t (t.retire ptr) := by
  have hlists : Shrinks t (t.toPurge ptr) := .of_eq rfl rfl rfl
  apply hlists.trans
  apply Shrinks.modify
  intro i
  exact ⟨rfl, rfl, fun h => by cases h⟩

private lemma shrinks_wake (inode : Inode) (t : InodeTable) : Shrinks t (t.wake inode) := by
  unfold wake
  split
  · exact .of_eq rfl rfl rfl
  · exact .refl t

lemma shrinks_ref (byCaller : Bool) (ptr : Nat) (t : InodeTable) :
    Shrinks t (t.ref byCaller ptr) := by
  unfold ref
  cases t.inodeAt ptr with
  | none => exact .refl t
  | some inode =>
    dsimp only
    split
    · exact shrinks_wake inode t
    · apply (shrinks_wake inode t).trans
      apply Shrinks.modify
      intro i
      exact ⟨rfl, rfl, fun h => ⟨h, rfl⟩⟩

lemma shrinks_lookup (ptr : Nat) (t : InodeTable) : Shrinks t (t.lookup ptr) := by
  apply Shrinks.modify
  intro i
  exact ⟨rfl, rfl, fun h => ⟨h, rfl⟩⟩

lemma shrinks_forget (ptr n : Nat) (t : InodeTable) : Shrinks t (t.forget ptr n) := by
  apply Shrinks.modify
  intro i
  exact ⟨rfl, rfl, fun h => ⟨h, rfl⟩⟩

private lemma shrinks_sleep (inode : Inode) (t : InodeTable) : Shrinks t (t.sleep inode).1 := by
  have hsize : Shrinks t t.leaveActive := .of_eq rfl rfl rfl
  unfold sleep
  split
  · exact hsize.trans (.of_eq rfl rfl rfl)
  · exact hsize.trans (shrinks_retire inode.ptr _)

lemma shrinks_unrefOne (byCaller : Bool) (ptr : Nat) (t : InodeTable) :
    Shrinks t (t.unrefOne byCaller ptr).1 := by
  have hcount : Shrinks t (t.modify ptr (Inode.dropRef byCaller)) := by
    apply Shrinks.modify
    intro i
    exact ⟨rfl, rfl, fun h => ⟨h, rfl⟩⟩
  unfold unrefOne
  cases t.inodeAt ptr with
  | none => exact .refl t
  | some inode =>
    dsimp only
    split
    · exact .refl t
    · split
      · exact hcount.trans (shrinks_sleep inode _)
      · exact hcount

private lemma shrinks_unsetOne (d : Dentry) (t : InodeTable) : Shrinks t (t.unsetOne d).1 := by
  have herase : Shrinks t { t with dentries := t.dentries.erase d } :=
    ⟨erase_sublist, .refl _, fun i hi => ⟨i, hi, .refl i⟩, rfl⟩
  exact herase.trans (shrinks_unrefOne false d.parent _)

private lemma shrinks_unsetAll (fuel : Nat) (ds : List Dentry) (t : InodeTable) :
    Shrinks t (unsetAll fuel ds t) := by
  induction fuel generalizing ds t with
  | zero => exact .refl t
  | succ fuel ih =>
    cases ds with
    | nil => exact .refl t
    | cons d rest => exact (shrinks_unsetOne d t).trans (ih _ _)

lemma shrinks_unset (ds : List Dentry) (t : InodeTable) : Shrinks t (t.unset ds) :=
  shrinks_unsetAll _ ds t

lemma shrinks_pruneLru (fuel : Nat) (t : InodeTable) : Shrinks t (pruneLru fuel t) := by
  induction fuel generalizing t with
  | zero => exact .refl t
  | succ fuel ih =>
    unfold pruneLru
    split
    · cases t.lru with
      | nil => exact .refl t
      | cons entry rest =>
        have hsize : Shrinks t t.leaveLru := .of_eq rfl rfl rfl
        exact ((hsize.trans (shrinks_retire entry _)).trans (shrinks_unset _ _)).trans (ih _)
    · exact .refl t

lemma shrinks_prune (t : InodeTable) : Shrinks t t.prune := by
  apply (shrinks_pruneLru t.inodes.length t).trans
  refine ⟨.refl _, filter_sublist.map _, ?_, rfl⟩
  intro i hi
  exact ⟨i, (mem_filter.mp hi).1, .refl i⟩

private lemma unset_sublist_erase {d : Dentry} (hd : d ∈ t.dentries) :
    (t.unset [d]).dentries.Sublist (t.dentries.erase d) := by
  obtain ⟨n, hn⟩ := Nat.exists_eq_succ_of_ne_zero (length_pos_of_mem hd).ne'
  unfold unset
  rw [hn]
  exact (shrinks_unsetAll n _ _).dentries.trans (shrinks_unrefOne false d.parent _).dentries

/-! ### The walk over the ancestors -/

section

variable {link : Nat} {old : List Dentry} {d₀ : Dentry} {f : Dentry → Option Bool}
  {ds : List Dentry}

private lemma anyM_isSome (h : ∀ d ∈ ds, f d ≠ none) : ds.anyM f ≠ none := by
  induction ds with
  | nil => simp [List.anyM]
  | cons d ds ih =>
    cases hd : f d with
    | none => exact absurd hd (h d mem_cons_self)
    | some b =>
      cases b with
      | true => simp [hd]
      | false =>
        have hrest := ih fun e he => h e (mem_cons_of_mem d he)
        simpa [hd] using hrest

private lemma anyM_eq_false (h : ds.anyM f = some false) : ∀ d ∈ ds, f d = some false := by
  induction ds with
  | nil =>
    intro d hd
    cases hd
  | cons e ds ih =>
    cases he : f e with
    | none => simp [he] at h
    | some b =>
      cases b with
      | true => simp [he] at h
      | false =>
        have hrest : ds.anyM f = some false := by simpa [he] using h
        intro d hd
        rcases mem_cons.mp hd with rfl | hd
        · exact he
        · exact ih hrest d hd

variable (ht : t.dentries = d₀ :: old)
include ht

/-- Away from the inode that is linked, the walk does not see the new dentry. -/
lemma mem_dentriesOf_of_ne (hlink : d₀.inode = link) (hne : ptr ≠ link) {e : Dentry} :
    e ∈ t.dentriesOf ptr ↔ e ∈ old ∧ e.inode = ptr := by
  unfold dentriesOf
  rw [ht, mem_filter, mem_cons, decide_eq_true_iff]
  constructor
  · rintro ⟨rfl | he, hp⟩
    · exact absurd (hp.symm.trans hlink) hne
    · exact ⟨he, hp⟩
  · rintro ⟨he, hp⟩
    exact ⟨.inr he, hp⟩

/-- The walk comes to an end at a depth above the rank of where it starts. -/
lemma foreachAncestorDentry_ne_none (hlink : d₀.inode = link) {rank : Nat → Nat}
    (hrank : ∀ e ∈ old, rank e.parent < rank e.inode) {depth : Nat} {d : Dentry}
    (hdepth : rank d.parent < depth) : foreachAncestorDentry link t depth d ≠ none := by
  induction depth generalizing d with
  | zero => omega
  | succ depth ih =>
    unfold foreachAncestorDentry
    split
    · simp
    rename_i hne
    apply anyM_isSome
    intro e he
    obtain ⟨he, hp⟩ := (mem_dentriesOf_of_ne ht hlink hne).mp he
    have hlt := hrank e he
    rw [hp] at hlt
    exact ih (by omega)

/-- A walk that has not met the inode has seen all there is above the directory. -/
lemma not_up_of_foreachAncestorDentry (hlink : d₀.inode = link) {depth : Nat} {d : Dentry}
    (h : foreachAncestorDentry link t depth d = some false) :
    ¬ ReflTransGen (Up Dentry.inode Dentry.parent old) d.parent link := by
  induction depth generalizing d with
  | zero => simp [foreachAncestorDentry] at h
  | succ depth ih =>
    unfold foreachAncestorDentry at h
    split at h
    · simp at h
    rename_i hne
    intro hway
    rcases ReflTransGen.cases_head hway with heq | ⟨p, ⟨e, he, hinode, rfl⟩, hway⟩
    · exact hne heq
    · have hmem := (mem_dentriesOf_of_ne ht hlink hne).mpr ⟨he, hinode⟩
      exact ih (anyM_eq_false h e hmem) hway

end

@[simp] lemma dentries_ref (byCaller : Bool) (ptr : Nat) (t : InodeTable) :
    (t.ref byCaller ptr).dentries = t.dentries := by
  have hwake (inode : Inode) : (t.wake inode).dentries = t.dentries := by
    unfold wake
    split <;> rfl
  unfold ref
  cases t.inodeAt ptr with
  | none => rfl
  | some inode =>
    dsimp only
    split
    · exact hwake inode
    · exact hwake inode

private lemma dentries_dentryCreate (d : Dentry) (t : InodeTable) :
    (t.dentryCreate d).dentries = d :: t.dentries := by
  simp [dentryCreate]

private lemma isDentryCyclic_ne_none (h : NameGraph t) (d : Dentry) :
    (t.dentryCreate d).isDentryCyclic d ≠ none := by
  obtain ⟨rank, hle, hrank⟩ := h.acyclic.exists_rank
  apply foreachAncestorDentry_ne_none (dentries_dentryCreate d t) rfl hrank
  rw [dentries_dentryCreate, length_cons]
  have hle := hle d.parent
  omega

/-! ### Unsetting comes to an end -/

section

variable {all ds : List Dentry} {d : Dentry}

@[simp] lemma dentries_unrefOne (byCaller : Bool) (ptr : Nat) (t : InodeTable) :
    (t.unrefOne byCaller ptr).1.dentries = t.dentries := by
  have hsleep (inode : Inode) (t : InodeTable) : (t.sleep inode).1.dentries = t.dentries := by
    unfold sleep
    split <;> rfl
  unfold unrefOne
  cases t.inodeAt ptr with
  | none => rfl
  | some inode =>
    dsimp only
    split
    · rfl
    · split
      · exact hsleep inode _
      · rfl

/-- What is to be unset in turn are dentries of the inode that has lost its last reference. -/
lemma unrefOne_sublist (byCaller : Bool) (ptr : Nat) (t : InodeTable) :
    (t.unrefOne byCaller ptr).2.Sublist (t.dentriesOf ptr) := by
  unfold unrefOne
  cases hi : t.inodeAt ptr with
  | none => exact nil_sublist _
  | some inode =>
    have hp : inode.ptr = ptr := (of_find?_key hi).2
    dsimp only
    split
    · exact nil_sublist _
    split
    · unfold sleep
      rw [hp]
      split
      · exact filter_sublist
      · exact .refl _
    · exact nil_sublist _

/-- The dentries that wait to be unset: each one's inode is below those before it. -/
structure Waiting (all ds : List Dentry) (t : InodeTable) : Prop where
  subset : t.dentries ⊆ all
  nodup : t.dentries.Nodup
  waiting_nodup : ds.Nodup
  waiting_subset : ds ⊆ t.dentries
  below : ds.Pairwise fun a b =>
    ReflTransGen (Up Dentry.inode Dentry.parent all) b.inode a.inode

lemma waiting_of_sublist (hnodup : t.dentries.Nodup) (hds : ds.Sublist (t.dentriesOf ptr)) :
    Waiting t.dentries ds t where
  subset := List.Subset.refl _
  nodup := hnodup
  waiting_nodup := hnodup.sublist (hds.trans filter_sublist)
  waiting_subset := (hds.trans filter_sublist).subset
  below := by
    have hinode (e : Dentry) (he : e ∈ ds) : e.inode = ptr := by
      simpa using (mem_filter.mp (hds.subset he)).2
    apply pairwise_of_forall_mem_list
    intro a ha b hb
    rw [hinode a ha, hinode b hb]

section

variable (hacyclic : Acyclic Dentry.inode Dentry.parent all)
include hacyclic

/-- A step puts the dentries of the directory before those that wait; none of them waits already,
since nothing is above itself. -/
lemma Waiting.unsetOne (h : Waiting all (d :: ds) t) :
    Waiting all ((t.unsetOne d).2 ++ ds) (t.unsetOne d).1 := by
  have hd : d ∈ t.dentries := h.waiting_subset mem_cons_self
  have hdentries : (t.unsetOne d).1.dentries = t.dentries.erase d := dentries_unrefOne _ _ _
  have hnew := unrefOne_sublist false d.parent { t with dentries := t.dentries.erase d }
  have hinode (e : Dentry) (he : e ∈ (t.unsetOne d).2) : e.inode = d.parent := by
    simpa using (mem_filter.mp (hnew.subset he)).2
  obtain ⟨hbelow, hrest⟩ := pairwise_cons.mp h.below
  obtain ⟨hnot, hrest_nodup⟩ := nodup_cons.mp h.waiting_nodup
  have hup : Up Dentry.inode Dentry.parent all d.inode d.parent := Up.of_mem (h.subset hd)
  refine ⟨?_, ?_, ?_, ?_, ?_⟩
  · rw [hdentries]
    exact List.Subset.trans erase_subset h.subset
  · rw [hdentries]
    exact h.nodup.erase d
  · apply List.Nodup.append ((h.nodup.erase d).sublist (hnew.trans filter_sublist)) hrest_nodup
    intro e he hds
    have hway := hbelow e hds
    rw [hinode e he] at hway
    exact hacyclic _ (TransGen.head' hup hway)
  · rw [hdentries]
    intro e he
    rcases mem_append.mp he with he | he
    · exact (hnew.trans filter_sublist).subset he
    · exact h.nodup.mem_erase_iff.mpr
        ⟨fun heq => hnot (heq ▸ he), h.waiting_subset (mem_cons_of_mem d he)⟩
  · rw [pairwise_append]
    refine ⟨?_, hrest, ?_⟩
    · apply pairwise_of_forall_mem_list
      intro a ha b hb
      rw [hinode a ha, hinode b hb]
    · intro a ha b hb
      rw [hinode a ha]
      exact (hbelow b hb).tail hup

/-- As many steps as there are dentries are enough: more change nothing. -/
lemma unsetAll_enough {fuel : Nat} (h : Waiting all ds t) (hfuel : t.dentries.length ≤ fuel)
    (more : Nat) : unsetAll (fuel + more) ds t = unsetAll fuel ds t := by
  induction fuel generalizing ds t with
  | zero =>
    have hnil := length_eq_zero_iff.mp (Nat.le_zero.mp hfuel)
    obtain rfl : ds = [] := subset_nil.mp (hnil ▸ h.waiting_subset)
    cases more <;> rfl
  | succ fuel ih =>
    rw [Nat.add_right_comm]
    cases ds with
    | nil => rfl
    | cons d ds =>
      refine ih (h.unsetOne hacyclic) ?_
      rw [show (t.unsetOne d).1.dentries = t.dentries.erase d from dentries_unrefOne _ _ _,
        length_erase_of_mem (h.waiting_subset mem_cons_self)]
      omega

end

/-- After the first step for a dentry, what waits are dentries of its directory. -/
lemma waiting_unsetOne (hnodup : (t.dentries.erase d).Nodup) :
    Waiting (t.dentries.erase d) (t.unsetOne d).2 (t.unsetOne d).1 := by
  have hdentries : (t.unsetOne d).1.dentries = t.dentries.erase d := dentries_unrefOne _ _ _
  have hsub : (t.unsetOne d).2.Sublist ((t.unsetOne d).1.dentriesOf d.parent) := by
    unfold dentriesOf
    rw [hdentries]
    exact unrefOne_sublist false d.parent { t with dentries := t.dentries.erase d }
  have hwait := waiting_of_sublist (hdentries ▸ hnodup) hsub
  rwa [hdentries] at hwait

/-- The first step for a dentry, and the rest. -/
lemma unset_singleton (hd : d ∈ t.dentries) :
    t.unset [d] = unsetAll (t.dentries.erase d).length (t.unsetOne d).2 (t.unsetOne d).1 := by
  have hlength : t.dentries.length = (t.dentries.erase d).length + 1 := by
    have hpos := length_pos_of_mem hd
    rw [length_erase_of_mem hd]
    omega
  rw [unset, hlength, unsetAll, append_nil]

end

/-! ### Links -/

section

variable {link p : Nat} {name : Text} {i : Inode} {ds : List Dentry} {t' : InodeTable}
  {check : Bool} {inode : Nat} {iatt : Option Iatt} {nm : Option Text}

private lemma eq_of_inodeAt (h : NameGraph t) {j : Inode} (hi : t.inodeAt ptr = some i)
    (hj : j ∈ t.inodes) (hp : j.ptr = ptr) : j = i := by
  have hfound : t.inodeAt ptr = some j := find?_key_of_mem h.ptrs hj hp
  exact Option.some.inj (hfound.symm.trans hi)

lemma mem_of_inodeAt (hi : t.inodeAt ptr = some i) : i ∈ t.inodes ∧ i.ptr = ptr :=
  of_find?_key hi

/-- An inode that is not hashed is no directory, so that nothing is in it. -/
lemma parent_ne_of_not_hashed (h : NameGraph t) (hi : t.inodeAt ptr = some i)
    (hret : i.retired = false) (hhash : i.hashed = false) :
    i.isDir = false ∧ ∀ d ∈ t.dentries, d.parent ≠ ptr := by
  obtain ⟨hmem, hp⟩ := mem_of_inodeAt hi
  have hdir : i.isDir = false := by
    rw [eq_false_iff]
    intro hdir
    rw [h.isDir_hashed i hmem hdir hret] at hhash
    cases hhash
  refine ⟨hdir, ?_⟩
  intro d hd heq
  rw [h.parent_isDir d hd i hmem (hp.trans heq.symm)] at hdir
  cases hdir

/-- Nothing is in the inode, so that it may become a directory. -/
lemma nameGraph_known (h : NameGraph t) (hnone : ∀ d ∈ t.dentries, d.parent ≠ ptr)
    (gfid : Nat) (isDir : Bool) : NameGraph (t.modify ptr (Inode.known gfid isDir)) := by
  have hmem (i' : Inode) (hi' : i' ∈ (t.modify ptr (Inode.known gfid isDir)).inodes) :
      ∃ i ∈ t.inodes, i'.ptr = i.ptr ∧ (i.ptr = ptr ∧ i'.hashed = true ∨ i.ptr ≠ ptr ∧ i' = i) := by
    obtain ⟨i, hi, rfl⟩ := mem_map.mp hi'
    refine ⟨i, hi, ?_⟩
    by_cases hp : i.ptr = ptr
    · rw [if_pos hp]
      exact ⟨rfl, .inl ⟨hp, rfl⟩⟩
    · rw [if_neg hp]
      exact ⟨rfl, .inr ⟨hp, rfl⟩⟩
  refine ⟨?_, ?_, h.parent_lt, h.hashed, h.names, h.acyclic, ?_, ?_⟩
  · rw [show (t.modify ptr (Inode.known gfid isDir)).inodes =
        updateAt Inode.ptr ptr (Inode.known gfid isDir) t.inodes from rfl,
      map_updateAt Inode.ptr fun i _ => show (Inode.known gfid isDir i).ptr = i.ptr from rfl]
    exact h.ptrs
  · intro i' hi'
    obtain ⟨i, hi, hp, -⟩ := hmem i' hi'
    rw [hp]
    exact h.ptr_lt i hi
  · intro d hd i' hi' hpd
    obtain ⟨i, hi, hp, ⟨hptr, -⟩ | ⟨-, rfl⟩⟩ := hmem i' hi'
    · exact absurd (hpd.symm.trans (hp.trans hptr)) (hnone d hd)
    · exact h.parent_isDir d hd i' hi hpd
  · intro i' hi' hdir hret
    obtain ⟨i, hi, hp, ⟨-, hhash⟩ | ⟨-, rfl⟩⟩ := hmem i' hi'
    · exact hhash
    · exact h.isDir_hashed i' hi hdir hret

/-- A hashed dentry joins some of the dentries, none of which has its name, and no way leads from
its directory to its inode. -/
lemma nameGraph_cons (h : NameGraph t) (hp : ∀ i ∈ t.inodes, i.ptr = p → i.isDir)
    (hlt : p < t.nextPtr) (hds : ds.Sublist t.dentries)
    (hname : ∀ d ∈ ds, ¬ (d.parent = p ∧ d.name = name))
    (hway : ¬ ReflTransGen (Up Dentry.inode Dentry.parent t.dentries) p link) :
    NameGraph { t with dentries := ⟨link, p, name, true⟩ :: ds } where
  ptrs := h.ptrs
  ptr_lt := h.ptr_lt
  parent_lt := forall_mem_cons.mpr ⟨hlt, fun d hd => h.parent_lt d (hds.subset hd)⟩
  hashed := forall_mem_cons.mpr ⟨rfl, fun d hd => h.hashed d (hds.subset hd)⟩
  names := by
    rw [map_cons, nodup_cons]
    refine ⟨?_, h.names.sublist (hds.map _)⟩
    intro hmem
    obtain ⟨d, hd, heq⟩ := mem_map.mp hmem
    exact hname d hd (Prod.mk.inj heq)
  acyclic := by
    apply (h.acyclic.subset hds.subset).cons
    intro hback
    have hup : ∀ a b, Up Dentry.inode Dentry.parent ds a b →
        Up Dentry.inode Dentry.parent t.dentries a b := by
      rintro a b ⟨e, he, hab⟩
      exact ⟨e, hds.subset he, hab⟩
    exact hway (ReflTransGen.mono hup _ _ hback)
  parent_isDir := forall_mem_cons.mpr
    ⟨hp, fun d hd => h.parent_isDir d (hds.subset hd)⟩
  isDir_hashed := h.isDir_hashed

/-- Once the directory is referenced, the inodes of a link have only aged. -/
lemma shrinks_of_ref {t'' : InodeTable} (hs : Shrinks t' t'')
    (hi : t'.inodes = (t.ref false p).inodes) (hn : t'.nextPtr = (t.ref false p).nextPtr)
    (hd : t''.dentries.Sublist ds) : Shrinks { t with dentries := ds } t'' := by
  have href := shrinks_ref false p t
  refine ⟨hd, ?_, ?_, (hs.nextPtr.trans hn).trans href.nextPtr⟩
  · exact hs.ptrs.trans (hi ▸ href.ptrs)
  · intro k hk
    obtain ⟨j, hj, hjk⟩ := hs.inodes k hk
    obtain ⟨i, hi, hij⟩ := href.inodes j (hi ▸ hj)
    exact ⟨i, hi, hij.trans hjk⟩

/-- Nothing but the dentry that `__dentry_grep` finds has the name. -/
lemma dentryGrep_none (h : NameGraph t) (hold : t.dentryGrep p name = none) :
    ∀ d ∈ t.dentries, ¬ (d.parent = p ∧ d.name = name) := by
  intro d hd hname
  have hnot := find?_eq_none.mp hold d hd
  simp [h.hashed d hd, hname] at hnot

lemma dentryGrep_some (h : NameGraph t) {o : Dentry} (hold : t.dentryGrep p name = some o) :
    o ∈ t.dentries ∧ ∀ d ∈ t.dentries.erase o, ¬ (d.parent = p ∧ d.name = name) := by
  have hmem := mem_of_find?_eq_some hold
  have hkey : o.parent = p ∧ o.name = name := by
    have hfound := find?_some hold
    simp only [and_eq_true, decide_eq_true_eq] at hfound
    exact ⟨hfound.1.2, hfound.2⟩
  have hnodup : t.dentries.Nodup := h.names.of_map _
  refine ⟨hmem, ?_⟩
  intro d hd hname
  obtain ⟨hne, hd⟩ := (hnodup.mem_erase_iff).mp hd
  apply hne
  apply inj_on_of_nodup_map h.names hd hmem
  rw [hname.1, hname.2, hkey.1, hkey.2]

private lemma nameGraph_linkDentry (h : NameGraph t) (hp : ∀ i ∈ t.inodes, i.ptr = p → i.isDir)
    (hlt : p < t.nextPtr) (hnew : check = false → (∀ d ∈ t.dentries, d.parent ≠ link) ∧ p ≠ link)
    (allocated : Bool) : NameGraph (t.linkDentry allocated check link p name).1 := by
  unfold linkDentry
  dsimp only
  split
  · exact h
  split
  · exact h
  have hcreate := dentries_dentryCreate ⟨link, p, name, false⟩ t
  split
  · -- The dentry that would close a cycle is taken back.
    have hsub := unset_sublist_erase (hcreate ▸ mem_cons_self)
    rw [hcreate, erase_cons_head] at hsub
    exact h.shrinks (shrinks_of_ref (shrinks_unset _ _) rfl rfl hsub)
  rename_i hlink _ hcheck
  have hway : ¬ ReflTransGen (Up Dentry.inode Dentry.parent t.dentries) p link := by
    cases check with
    | true =>
      simp only [Bool.true_and, decide_eq_true_eq, Decidable.not_not] at hcheck
      exact not_up_of_foreachAncestorDentry hcreate rfl hcheck
    | false =>
      intro hback
      obtain ⟨hnone, hne⟩ := hnew rfl
      rcases ReflTransGen.cases_tail hback with heq | ⟨_, -, ⟨e, he, -, hpar⟩⟩
      · exact hne heq.symm
      · exact hnone e he hpar
  -- Hashing puts the dentry where it was, with its mark changed.
  have hhash : ((t.dentryCreate ⟨link, p, name, false⟩).dentryHash
      ⟨link, p, name, false⟩).dentries = ⟨link, p, name, true⟩ :: t.dentries := by
    rw [dentryHash, hcreate, erase_cons_head]
  cases hold : t.dentryGrep p name with
  | none =>
    have hgraph := nameGraph_cons h hp hlt (.refl _) (dentryGrep_none h hold) hway
    have hs := shrinks_unset [] ((t.dentryCreate ⟨link, p, name, false⟩).dentryHash
      ⟨link, p, name, false⟩)
    exact hgraph.shrinks (shrinks_of_ref hs rfl rfl (hhash ▸ hs.dentries))
  | some o =>
    obtain ⟨hmem, hname⟩ := dentryGrep_some h hold
    have hne : (⟨link, p, name, true⟩ : Dentry) ≠ o := by
      rintro rfl
      exact hlink (by rw [hold]; rfl)
    have hgraph := nameGraph_cons h hp hlt erase_sublist hname hway
    have hsub := unset_sublist_erase (hhash ▸ mem_cons_of_mem _ hmem)
    rw [hhash, erase_cons_tail (by simpa using hne)] at hsub
    exact hgraph.shrinks (shrinks_of_ref (shrinks_unset [o] _) rfl rfl hsub)

/-- What the start of `__inode_link` can do. -/
lemma linkInode_cases (h : t.linkInode inode iatt = some (t', link, check)) : (t' = t ∧ check) ∨
      ∃ i gfid isDir, t.inodeAt inode = some i ∧ i.hashed = false ∧
        t' = t.modify inode (Inode.known gfid isDir) ∧ link = inode ∧ check = false := by
  unfold linkInode at h
  cases hi : t.inodeAt inode with
  | none => simp [hi] at h
  | some i =>
    rw [hi] at h
    dsimp only at h
    split at h
    · obtain ⟨rfl, -, rfl⟩ : t = t' ∧ inode = link ∧ true = check := by simpa using h
      exact .inl ⟨rfl, rfl⟩
    rename_i hhash
    split at h
    · rename_i gfid isDir
      cases hfind : t.find gfid with
      | some old =>
        rw [hfind] at h
        obtain ⟨rfl, -, rfl⟩ : t = t' ∧ old = link ∧ true = check := by simpa using h
        exact .inl ⟨rfl, rfl⟩
      | none =>
        rw [hfind] at h
        obtain ⟨rfl, rfl, rfl⟩ : t.modify inode (Inode.known gfid isDir) = t' ∧ inode = link ∧
          false = check := by simpa using h
        exact .inr ⟨i, gfid, isDir, rfl, by simpa using hhash, rfl, rfl, rfl⟩
    · cases h

/-- The directory of a link is one, before anything is written. -/
lemma isDir_of_parentOk (h : NameGraph t) (hok : t.parentOk (some p) nm) :
    (∃ i, t.inodeAt p = some i ∧ i.isDir) ∧ p < t.nextPtr ∧
      ∀ i ∈ t.inodes, i.ptr = p → i.isDir = true := by
  unfold parentOk at hok
  cases hi : t.inodeAt p with
  | none => simp [hi] at hok
  | some i =>
    have hdir : i.isDir := by
      simp only [hi, and_eq_true] at hok
      exact hok.1
    obtain ⟨hmem, hp⟩ := mem_of_inodeAt hi
    refine ⟨⟨i, rfl, hdir⟩, hp ▸ h.ptr_lt i hmem, ?_⟩
    intro j hj hjp
    rw [eq_of_inodeAt h hi hj hjp]
    exact hdir

lemma exists_of_usable (h : t.usable ptr) :
    ∃ i, t.inodeAt ptr = some i ∧ i.retired = false := by
  unfold usable at h
  cases hi : t.inodeAt ptr with
  | none => simp [hi] at h
  | some i => exact ⟨i, rfl, by simpa [hi] using h⟩

variable (h : NameGraph t)
include h

/-- After the start of a link the directory is still one, and an inode that was not known before is
not above it. -/
lemma linkInode_dir (husable : t.usable inode)
    (hlink : t.linkInode inode iatt = some (t', link, check)) (hok : t.parentOk (some p) nm) :
    (∀ i ∈ t'.inodes, i.ptr = p → i.isDir) ∧ p < t'.nextPtr ∧
      (check = false → (∀ d ∈ t'.dentries, d.parent ≠ link) ∧ p ≠ link) := by
  obtain ⟨⟨ip, hip, hdir⟩, hlt, hp⟩ := isDir_of_parentOk h hok
  rcases linkInode_cases hlink with ⟨rfl, rfl⟩ | ⟨i, gfid, isDir, hi, hhash, rfl, rfl, rfl⟩
  · refine ⟨hp, hlt, ?_⟩
    intro hcheck
    cases hcheck
  obtain ⟨j, hj, hret⟩ := exists_of_usable husable
  obtain rfl : i = j := Option.some.inj (hi.symm.trans hj)
  obtain ⟨hnot, hnone⟩ := parent_ne_of_not_hashed h hi hret hhash
  have hne : p ≠ link := by
    rintro rfl
    rw [Option.some.inj (hip.symm.trans hi), hnot] at hdir
    cases hdir
  refine ⟨?_, hlt, fun _ => ⟨hnone, hne⟩⟩
  intro i' hi' hp'
  obtain ⟨k, hk, rfl⟩ := mem_map.mp hi'
  by_cases hkp : k.ptr = link
  · rw [if_pos hkp] at hp'
    exact absurd (hp'.symm.trans hkp) hne
  · rw [if_neg hkp] at hp' ⊢
    exact hp k hk hp'

lemma nameGraph_linkInode (husable : t.usable inode)
    (hlink : t.linkInode inode iatt = some (t', link, check)) : NameGraph t' := by
  rcases linkInode_cases hlink with ⟨rfl, -⟩ | ⟨i, gfid, isDir, hi, hhash, rfl, -, -⟩
  · exact h
  · obtain ⟨j, hj, hret⟩ := exists_of_usable husable
    obtain rfl : i = j := Option.some.inj (hi.symm.trans hj)
    exact nameGraph_known h (parent_ne_of_not_hashed h hi hret hhash).2 gfid isDir

lemma nameGraph_linkCore (allocated : Bool) (husable : t.usable inode) (parent : Option Nat)
    (nm : Option Text) (iatt : Option Iatt) :
    NameGraph (t.linkCore allocated inode parent nm iatt).1 := by
  unfold linkCore
  split
  · exact h
  rename_i hok
  cases hlink : t.linkInode inode iatt with
  | none => exact h
  | some out =>
    obtain ⟨t', link, check⟩ := out
    have hstart := nameGraph_linkInode h husable hlink
    dsimp only
    split
    · exact hstart
    split
    · exact hstart
    cases parent with
    | none => exact hstart
    | some p =>
      obtain ⟨hp, hlt, hnew⟩ := linkInode_dir h husable hlink (by simpa using hok)
      exact nameGraph_linkDentry hstart hp hlt hnew allocated

end

/-! ### Runs -/

lemma nameGraph_create (h : NameGraph t) : NameGraph t.create where
  ptrs := by
    refine nodup_cons.mpr ⟨?_, h.ptrs⟩
    intro hmem
    obtain ⟨i, hi, hp⟩ := mem_map.mp hmem
    have hlt := h.ptr_lt i hi
    dsimp only at hp
    omega
  ptr_lt := forall_mem_cons.mpr
    ⟨Nat.lt_succ_self _, fun i hi => Nat.lt_succ_of_lt (h.ptr_lt i hi)⟩
  parent_lt := fun d hd => Nat.lt_succ_of_lt (h.parent_lt d hd)
  hashed := h.hashed
  names := h.names
  acyclic := h.acyclic
  parent_isDir := by
    intro d hd i hi hp
    rcases mem_cons.mp hi with rfl | hi
    · have hlt := h.parent_lt d hd
      dsimp only at hp
      omega
    · exact h.parent_isDir d hd i hi hp
  isDir_hashed := by
    intro i hi hdir hret
    rcases mem_cons.mp hi with rfl | hi
    · cases hdir
    · exact h.isDir_hashed i hi hdir hret

lemma nameGraph_init (lruLimit : Nat) : NameGraph (init lruLimit) where
  ptrs := nodup_singleton _
  ptr_lt := by simp [init]
  parent_lt := by simp [init]
  hashed := by simp [init]
  names := nodup_nil
  acyclic := acyclic_nil
  parent_isDir := by simp [init]
  isDir_hashed := by simp [init]

lemma nameGraph_step (e : InodeEvent) (t : InodeTable) (h : NameGraph t) :
    NameGraph (step e t) := by
  cases e with
  | new => exact (nameGraph_create h).shrinks (shrinks_ref true t.nextPtr _)
  | ref ptr =>
    dsimp only [step]
    split
    · exact h.shrinks (shrinks_ref true ptr t)
    · exact h
  | unref ptr =>
    dsimp only [step]
    split
    · exact h.shrinks ((shrinks_unrefOne true ptr t).trans (shrinks_unset _ _))
    · exact h
  | lookup ptr =>
    dsimp only [step]
    split
    · exact h.shrinks (shrinks_lookup ptr t)
    · exact h
  | forget ptr n =>
    dsimp only [step]
    split
    · exact h.shrinks (shrinks_forget ptr n t)
    · exact h
  | link allocated inode parent name iatt =>
    dsimp only [step]
    split
    · rename_i husable
      have hcore := nameGraph_linkCore h allocated (and_eq_true_iff.mp husable).1 parent name iatt
      unfold link
      rcases hout : t.linkCore allocated inode parent name iatt with ⟨t', _ | linked⟩
      · rw [hout] at hcore
        exact hcore
      · rw [hout] at hcore
        exact hcore.shrinks (shrinks_ref true linked t')
    · exact h
  | unlink inode parent name =>
    dsimp only [step]
    split
    · exact h.shrinks (shrinks_unset _ t)
    · exact h
  | rename allocated inode srcdir srcname dstdir dstname iatt =>
    dsimp only [step]
    split
    · rename_i husable
      simp only [and_eq_true] at husable
      exact (nameGraph_linkCore h allocated husable.1.1 dstdir dstname iatt).shrinks
        (shrinks_unset _ _)
    · exact h
  | prune => exact h.shrinks (shrinks_prune t)

/-- After any calls on a table that starts with the root, no two hashed dentries have one name in
one directory, no way up through hashed dentries leads back, and the walk for a dentry that is to be
linked comes to an end. -/
theorem name_graph_ok (lruLimit : Nat) (es : List InodeEvent) :
    (∀ parent name, ((runAll step es (init lruLimit)).dentries.filter fun d =>
        d.hashed && d.parent = parent && d.name = name).length ≤ 1) ∧
      Acyclic Dentry.inode Dentry.parent
        ((runAll step es (init lruLimit)).dentries.filter (·.hashed)) ∧
      ∀ d, ((runAll step es (init lruLimit)).dentryCreate d).isDentryCyclic d ≠ none := by
  have h : NameGraph (runAll step es (init lruLimit)) :=
    runAll_always step NameGraph nameGraph_step es (nameGraph_init lruLimit)
  generalize runAll step es (init lruLimit) = t at h ⊢
  refine ⟨?_, h.acyclic.subset filter_sublist.subset, isDentryCyclic_ne_none h⟩
  intro parent name
  -- All that is left by the filter has one key, and keys are distinct.
  have hnodup := h.names.sublist ((filter_sublist (p := fun d =>
    d.hashed && d.parent = parent && d.name = name)).map _)
  have hkey : ∀ k ∈ (t.dentries.filter fun d =>
      d.hashed && d.parent = parent && d.name = name).map (fun d => (d.parent, d.name)),
      k = (parent, name) := by
    intro k hk
    obtain ⟨d, hd, rfl⟩ := mem_map.mp hk
    have hd := (mem_filter.mp hd).2
    simp only [and_eq_true, decide_eq_true_eq] at hd
    rw [hd.1.2, hd.2]
  rw [eq_replicate_of_mem hkey, nodup_replicate, length_map] at hnodup
  exact hnodup

/-- After any calls the recursion of `__dentry_unset` from the dentries of an inode ends within as
many steps as there are dentries. -/
lemma dentry_unset_ends (lruLimit : Nat) (es : List InodeEvent) (ptr more : Nat) :
    let t := runAll step es (init lruLimit)
    unsetAll (t.dentries.length + more) (t.dentriesOf ptr) t = t.unset (t.dentriesOf ptr) := by
  intro t
  have h : NameGraph t := runAll_always step NameGraph nameGraph_step es (nameGraph_init lruLimit)
  exact unsetAll_enough h.acyclic (waiting_of_sublist (h.names.of_map _) (.refl _)) le_rfl more

end InodeTable

end TagItGluster.Libglusterfs
