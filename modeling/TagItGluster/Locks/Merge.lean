import Mathlib.Algebra.BigOperators.Group.List.Basic
import TagItGluster.Locks.Posix

/-!
# What inserting a lock does to the bytes

The meaning of a list of locks is who holds which byte with which type. Where an owner's
granted locks do not overlap, inserting a lock sets the bytes of its range for its owner and
changes nothing else, unless the walk is cut off: the walk of a read lock stops at a read
lock of another owner and leaves the owner's own locks behind it as they are.
-/

namespace TagItGluster.Locks

open List

variable {ω : Type}

/-- The byte is in the range of the lock. -/
def In (x : Int) (k : PosixLock ω) : Prop := k.flStart ≤ x ∧ x ≤ k.flEnd

instance (x : Int) (k : PosixLock ω) : Decidable (In x k) := inferInstanceAs (Decidable (_ ∧ _))

/-- The owner holds the byte with a granted lock of the type. -/
def Holds (l : List (PosixLock ω)) (o : ω) (x : Int) (t : LockType) : Prop :=
  ∃ k ∈ l, k.blocked = false ∧ k.owner = o ∧ In x k ∧ k.flType = t

/-- A granted lock of the owner of `lock` that it overlaps. -/
def Own (lock k : PosixLock ω) : Prop :=
  k.blocked = false ∧ Overlap k lock ∧ k.owner = lock.owner

/-- No two granted locks of one owner overlap. -/
def OwnDisjoint (l : List (PosixLock ω)) : Prop :=
  l.Pairwise (fun k k' => k.blocked = false → k'.blocked = false → k.owner = k'.owner →
    ¬Overlap k k')

/-- A list of locks as it should be. -/
structure Good (l : List (PosixLock ω)) : Prop where
  valid : ∀ k ∈ l, k.flStart ≤ k.flEnd
  held : ∀ k ∈ l, k.flType ≠ .unlck
  disjoint : OwnDisjoint l

/-- The lock sets the bytes of its range for its owner, and leaves all others as they were. -/
structure Sets (l : List (PosixLock ω)) (lock : PosixLock ω) (l' : List (PosixLock ω)) : Prop where
  inside : ∀ x t, In x lock → (Holds l' lock.owner x t ↔ t = lock.flType ∧ t ≠ .unlck)
  outside : ∀ o x t, ¬(o = lock.owner ∧ In x lock) → (Holds l' o x t ↔ Holds l o x t)

/-- No granted read lock of another owner in `before` keeps the walk from the own lock `c`: none
overlaps the request, or an own read lock that the request has been merged with by then. -/
def GetsTo (lock : PosixLock ω) (before : List (PosixLock ω)) (c : PosixLock ω) : Prop :=
  Own lock c → ∀ b ∈ before, b.blocked = false → b.flType = .rdlck → b.owner ≠ lock.owner →
    ¬Overlap b lock ∧ ∀ c' ∈ before, Own lock c' → c'.flType = .rdlck → ¬Overlap b c'

/-- The walk of a read lock gets to every own lock. -/
def NotCutOff (l : List (PosixLock ω)) (lock : PosixLock ω) : Prop :=
  lock.flType = .rdlck → ∀ before c after, l = before ++ c :: after → GetsTo lock before c

instance [DecidableEq ω] (l : List (PosixLock ω)) (o : ω) (x : Int) (t : LockType) :
    Decidable (Holds l o x t) := inferInstanceAs (Decidable (∃ k ∈ l, _))

instance [DecidableEq ω] (lock k : PosixLock ω) : Decidable (Own lock k) :=
  inferInstanceAs (Decidable (_ ∧ _))

instance [DecidableEq ω] (l : List (PosixLock ω)) : Decidable (OwnDisjoint l) :=
  inferInstanceAs (Decidable (l.Pairwise _))

private lemma forall_split_iff {α : Type} {l : List α} {P : List α → α → Prop} :
    (∀ i : Fin l.length, P (l.take i) (l.get i)) ↔
      ∀ before c after, l = before ++ c :: after → P before c := by
  constructor
  · rintro h before c after rfl
    simpa using h ⟨before.length, by simp⟩
  · intro h i
    refine h _ _ (l.drop (i + 1)) ?_
    rw [get_eq_getElem, cons_getElem_drop_succ, take_append_drop]

instance [DecidableEq ω] (lock : PosixLock ω) (before : List (PosixLock ω)) (c : PosixLock ω) :
    Decidable (GetsTo lock before c) := inferInstanceAs (Decidable (Own lock c → ∀ b ∈ before, _))

instance [DecidableEq ω] (l : List (PosixLock ω)) (lock : PosixLock ω) :
    Decidable (NotCutOff l lock) :=
  decidable_of_iff (lock.flType = .rdlck → ∀ i : Fin l.length, GetsTo lock (l.take i) (l.get i))
    (imp_congr_right fun _ => forall_split_iff)

section

variable {l pre post : List (PosixLock ω)} {lock conf : PosixLock ω} {k k' : PosixLock ω}

lemma overlap_of_in {x : Int} (h : In x k) (h' : In x k') :
    Overlap k k' := ⟨by have := h.2; have := h'.1; omega, by have := h.1; have := h'.2; omega⟩

lemma Good.sublist {l' : List (PosixLock ω)} (h : Good l) (hs : l'.Sublist l) : Good l' :=
  ⟨fun k hk => h.valid k (hs.subset hk), fun k hk => h.held k (hs.subset hk), h.disjoint.sublist hs⟩

lemma mem_middle (h : k ∈ pre ++ post) : k ∈ pre ++ conf :: post :=
  ((sublist_cons_self conf post).append_left pre).subset h

lemma holds_append (l l' : List (PosixLock ω)) (o : ω) (x : Int) (t : LockType) :
    Holds (l ++ l') o x t ↔ Holds l o x t ∨ Holds l' o x t := by
  simp [Holds, or_and_right, exists_or]

lemma holds_singleton (k : PosixLock ω) (o : ω) (x : Int) (t : LockType) :
    Holds [k] o x t ↔ k.blocked = false ∧ k.owner = o ∧ In x k ∧ k.flType = t := by
  simp [Holds]

/-- Taking a lock out of a list. -/
lemma holds_middle (o : ω) (x : Int) (t : LockType) :
    Holds (pre ++ conf :: post) o x t ↔ Holds (pre ++ post) o x t ∨
      (conf.blocked = false ∧ conf.owner = o ∧ In x conf ∧ conf.flType = t) := by
  have hcons : conf :: post = [conf] ++ post := rfl
  rw [hcons, holds_append, holds_append, holds_append, holds_singleton, or_assoc]
  exact or_congr_right or_comm

/-- The other locks of an owner do not overlap a granted one. -/
lemma Good.not_overlap (h : Good (pre ++ conf :: post)) (hc : conf.blocked = false)
    (hk : k ∈ pre ++ post) (hb : k.blocked = false) (ho : k.owner = conf.owner) :
    ¬Overlap k conf := by
  obtain ⟨-, hcons, hcross⟩ := pairwise_append.mp h.disjoint
  rcases mem_append.mp hk with hk | hk
  · exact hcross k hk conf mem_cons_self hb hc ho
  · rw [Overlap, and_comm]
    exact (pairwise_cons.mp hcons).1 k hk hc hb ho.symm

lemma Good.not_holds (h : Good (pre ++ conf :: post)) (hc : conf.blocked = false) {x : Int}
    (hx : In x conf) (t : LockType) : ¬Holds (pre ++ post) conf.owner x t := by
  rintro ⟨k, hk, hb, ho, hin, -⟩
  exact h.not_overlap hc hk hb ho (overlap_of_in hin hx)

/-- A granted lock that overlaps no other of its owner can be appended. -/
lemma Good.append (h : Good l) (hv : lock.flStart ≤ lock.flEnd) (ht : lock.flType ≠ .unlck)
    (hfree : lock.blocked = false → ∀ k ∈ l, ¬Own lock k) : Good (l ++ [lock]) := by
  refine ⟨?_, ?_, ?_⟩
  · simpa [or_imp, forall_and] using ⟨h.valid, hv⟩
  · simpa [or_imp, forall_and] using ⟨h.held, ht⟩
  · refine pairwise_append.mpr ⟨h.disjoint, pairwise_singleton _ _, ?_⟩
    intro k hk k' hk' hb hb' ho hov
    rw [mem_singleton.mp hk'] at hb' ho hov
    exact hfree hb' k hk ⟨hb, hov, ho⟩

lemma sets_append (hb : lock.blocked = false) (ht : lock.flType ≠ .unlck)
    (hfree : ∀ k ∈ l, ¬Own lock k) : Sets l lock (l ++ [lock]) := by
  constructor
  · intro x t hx
    rw [holds_append, holds_singleton]
    constructor
    · rintro (⟨k, hk, hkb, hko, hkx, -⟩ | ⟨-, -, -, rfl⟩)
      · exact absurd ⟨hkb, overlap_of_in hkx hx, hko⟩ (hfree k hk)
      · exact ⟨rfl, ht⟩
    · rintro ⟨rfl, -⟩
      exact .inr ⟨hb, rfl, hx, rfl⟩
  · intro o x t hout
    rw [holds_append, holds_singleton]
    constructor
    · rintro (h | ⟨-, rfl, hx, -⟩)
      · exact h
      · exact absurd ⟨rfl, hx⟩ hout
    · exact .inl

lemma sets_unlck (ht : lock.flType = .unlck) (hfree : ∀ k ∈ l, ¬Own lock k) :
    Sets l lock l := by
  constructor
  · rintro x t hx
    constructor
    · rintro ⟨k, hk, hkb, hko, hkx, -⟩
      exact absurd ⟨hkb, overlap_of_in hkx hx, hko⟩ (hfree k hk)
    · rintro ⟨rfl, hne⟩
      exact absurd ht hne
  · exact fun _ _ _ _ => Iff.rfl

end

section

variable {l : List (PosixLock ω)} {lock : PosixLock ω}

/-- What the walk has passed when it stops. -/
def Hit.Stops (lock : PosixLock ω) (l : List (PosixLock ω)) : Hit ω → Prop
  | .own conf rest => ∃ pre post, l = pre ++ conf :: post ∧ rest = pre ++ post ∧
      Own lock conf ∧ ∀ k ∈ pre, ¬Own lock k
  | .shared => ∃ pre b post, l = pre ++ b :: post ∧ lock.flType = .rdlck ∧ b.blocked = false ∧
      b.flType = .rdlck ∧ b.owner ≠ lock.owner ∧ Overlap b lock ∧ ∀ k ∈ pre, ¬Own lock k
  | .clear => ∀ k ∈ l, ¬Own lock k

private lemma stops_past {conf : PosixLock ω} {h : Hit ω} (hs : h.Stops lock l)
    (hconf : ¬Own lock conf) : (h.past conf).Stops lock (conf :: l) := by
  cases h with
  | own c rest =>
    obtain ⟨pre, post, rfl, rfl, hown, hpre⟩ := hs
    exact ⟨conf :: pre, post, rfl, rfl, hown, forall_mem_cons.mpr ⟨hconf, hpre⟩⟩
  | shared =>
    obtain ⟨pre, b, post, rfl, ht, hb, hbt, hbo, hov, hpre⟩ := hs
    exact ⟨conf :: pre, b, post, rfl, ht, hb, hbt, hbo, hov, forall_mem_cons.mpr ⟨hconf, hpre⟩⟩
  | clear => exact forall_mem_cons.mpr ⟨hconf, hs⟩

variable [DecidableEq ω]

/-- The walk stops at the first own lock, unless it is cut off before. -/
lemma walk_stops (lock : PosixLock ω) (l : List (PosixLock ω)) :
    (walk lock l).Stops lock l := by
  induction l with
  | nil => exact forall_mem_nil _
  | cons conf l ih =>
    unfold walk
    split
    · next hb => exact stops_past ih (fun h => Bool.false_ne_true (h.1.symm.trans hb))
    next hb =>
    split
    · next hov => exact stops_past ih (fun h => hov h.2.1)
    next hov =>
    have hblocked : conf.blocked = false := Bool.eq_false_iff.mpr hb
    have hover : Overlap conf lock := not_not.mp hov
    split
    · next ho =>
      exact ⟨[], l, rfl, rfl, ⟨hblocked, hover, ho⟩, forall_mem_nil _⟩
    next ho =>
    have hother : ¬Own lock conf := fun h => ho h.2.2
    split
    · exact stops_past ih hother
    · split
      · next ht =>
        exact ⟨[], conf, l, rfl, ht.2, hblocked, ht.1, ho, hover, forall_mem_nil _⟩
      · exact stops_past ih hother

/-- A lock that overlaps no own one is appended, unless it unlocks. -/
lemma insertMergeDepth_free (n : Nat) (hfree : ∀ k ∈ l, ¬Own lock k)
    (ht : lock.flType ≠ .unlck) : insertMergeDepth (n + 1) l lock = some (l ++ [lock]) := by
  have hs := walk_stops lock l
  unfold insertMergeDepth
  cases hw : walk lock l with
  | own conf rest =>
    rw [hw] at hs
    obtain ⟨pre, post, rfl, -, hown, -⟩ := hs
    exact absurd hown (hfree conf (by simp))
  | shared => rfl
  | clear => simp [if_neg ht]

end

/-- Every range of the list has a byte. -/
def Valid (l : List (PosixLock ω)) : Prop := ∀ k ∈ l, k.flStart ≤ k.flEnd

private lemma totalBytes_middle (pre post : List (PosixLock ω)) (conf : PosixLock ω) :
    totalBytes (pre ++ conf :: post) = totalBytes (pre ++ post) + bytes conf := by
  simp only [totalBytes, map_append, map_cons, sum_append, sum_cons]
  omega

private lemma totalBytes_snoc (l : List (PosixLock ω)) (k : PosixLock ω) :
    totalBytes (l ++ [k]) = totalBytes l + bytes k := by
  rw [totalBytes_middle, append_nil]

private lemma totalBytes_filter (p : PosixLock ω → Bool) (l : List (PosixLock ω)) :
    totalBytes (l.filter p) ≤ totalBytes l := by
  induction l with
  | nil => exact le_refl _
  | cons k l ih =>
    simp only [totalBytes, map_cons, sum_cons] at ih ⊢
    rw [filter_cons]
    split
    · rw [map_cons, sum_cons]
      omega
    · omega

variable {lock conf : PosixLock ω} {l : List (PosixLock ω)}

-- Two overlapping ranges have fewer bytes together than one by one.
private lemma bytes_addLocks (attr : PosixLock ω) (hl : lock.flStart ≤ lock.flEnd)
    (hc : conf.flStart ≤ conf.flEnd) (hov : Overlap conf lock) :
    bytes (addLocks attr lock conf) < bytes conf + bytes lock ∧
      (addLocks attr lock conf).flStart ≤ (addLocks attr lock conf).flEnd := by
  obtain ⟨h₁, h₂⟩ := hov
  simp only [bytes, addLocks]
  omega

-- The pieces are as long as the whole.
private lemma bytes_subtractLocks (hl : lock.flStart ≤ lock.flEnd)
    (hc : conf.flStart ≤ conf.flEnd) (hov : Overlap conf lock) :
    totalBytes (subtractLocks (addLocks conf lock conf) lock) < bytes conf + bytes lock ∧
      Valid (subtractLocks (addLocks conf lock conf) lock) := by
  obtain ⟨h₁, h₂⟩ := hov
  unfold subtractLocks
  split
  · simp [totalBytes, bytes, Valid]
    omega
  split
  · simp [totalBytes, bytes, addLocks, Valid] at *
    omega
  · split
    · simp [totalBytes, bytes, addLocks, Valid] at *
      omega
    · split <;> simp [totalBytes, bytes, addLocks, Valid] at * <;> omega

variable [DecidableEq ω]

-- Inserting several locks one after the other, where each is inserted in time.
private lemma foldlM_some {n : Nat} {ps : List (PosixLock ω)}
    (hins : ∀ (l : List (PosixLock ω)) lock, Valid l → lock.flStart ≤ lock.flEnd →
      totalBytes l + bytes lock < n →
      ∃ l', insertMergeDepth n l lock = some l' ∧ totalBytes l' ≤ totalBytes l + bytes lock ∧
        Valid l') (hl : Valid l) (hps : Valid ps) (hlt : totalBytes l + totalBytes ps < n) :
    ∃ l', ps.foldlM (insertMergeDepth n) l = some l' ∧
      totalBytes l' ≤ totalBytes l + totalBytes ps ∧ Valid l' := by
  induction ps generalizing l with
  | nil => exact ⟨l, rfl, Nat.le_add_right _ _, hl⟩
  | cons p ps ih =>
    have hcons : totalBytes (p :: ps) = bytes p + totalBytes ps := rfl
    obtain ⟨hp, hps⟩ := forall_mem_cons.mp hps
    obtain ⟨l₁, h₁, hle₁, hv₁⟩ := hins l p hl hp (by omega)
    obtain ⟨l', h', hle', hv'⟩ := ih hv₁ hps (by omega)
    refine ⟨l', ?_, by omega, hv'⟩
    rw [foldlM_cons, h₁]
    exact h'

/-- The recursion ends: each level removes an overlap, so its depth is bounded by the number
of bytes of the locks. -/
lemma insertMergeDepth_some {n : Nat} (hl : Valid l) (hlock : lock.flStart ≤ lock.flEnd)
    (hlt : totalBytes l + bytes lock < n) :
    ∃ l', insertMergeDepth n l lock = some l' ∧ totalBytes l' ≤ totalBytes l + bytes lock ∧
      Valid l' := by
  induction n generalizing l lock with
  | zero => omega
  | succ n ih =>
    have hsnoc : Valid (l ++ [lock]) := by
      intro k hk
      rcases mem_append.mp hk with hk | hk
      · exact hl k hk
      · rw [mem_singleton.mp hk]
        exact hlock
    have hbytes := totalBytes_snoc l lock
    have hs := walk_stops lock l
    unfold insertMergeDepth
    cases hw : walk lock l with
    | shared => exact ⟨l ++ [lock], rfl, by omega, hsnoc⟩
    | clear =>
      by_cases ht : lock.flType = .unlck
      · exact ⟨l, by simp [if_pos ht], by omega, hl⟩
      · exact ⟨l ++ [lock], by simp [if_neg ht], by omega, hsnoc⟩
    | own conf rest =>
      rw [hw] at hs
      obtain ⟨pre, post, rfl, rfl, ⟨-, hov, -⟩, -⟩ := hs
      have hconf : conf.flStart ≤ conf.flEnd := hl conf (by simp)
      have hrest : Valid (pre ++ post) := fun k hk => hl k (mem_middle hk)
      have htotal := totalBytes_middle pre post conf
      simp only
      split
      · obtain ⟨hsum, hvalid⟩ := bytes_addLocks lock hlock hconf hov
        obtain ⟨l', h', hle, hv⟩ := ih hrest hvalid (by omega)
        exact ⟨l', h', by omega, hv⟩
      obtain ⟨hsum, hvalid⟩ := bytes_subtractLocks hlock hconf hov
      obtain ⟨l', h', hle, hv⟩ := foldlM_some (fun l lock => ih) hrest hvalid (by omega)
      have hfilter := totalBytes_filter (fun k => decide (k.flType ≠ .unlck)) l'
      refine ⟨deleteUnlckLocks l', by rw [h']; rfl, ?_, ?_⟩
      · unfold deleteUnlckLocks
        omega
      · exact fun k hk => hv k (mem_of_mem_filter hk)

lemma insertAndMerge_eq (hl : Valid l) (hlock : lock.flStart ≤ lock.flEnd) :
    insertMergeDepth (totalBytes l + bytes lock + 1) l lock = some (insertAndMerge l lock) := by
  obtain ⟨l', h, -⟩ := insertMergeDepth_some hl hlock (Nat.lt_succ_self _)
  rw [insertAndMerge, h]
  rfl

end TagItGluster.Locks
