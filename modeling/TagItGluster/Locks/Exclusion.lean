import TagItGluster.Base.Machine
import TagItGluster.Locks.Insert

/-!
# Writers are alone

Between the locked sections of a lock call, a flush or a release, those of other calls may run. An
insertion gives an owner no more than the bytes of its lock, wherever the walk stops, and it is
only made when no other owner is in the way. So no byte that somebody has locked for writing is
locked by anybody else, whatever the order of the sections, as long as no range goes beyond the
largest offset: the last byte of such a range wraps around, and its lock overlaps no other one. Line
numbers: `xlators/features/locks/src/posix.c`.
-/

namespace TagItGluster.Locks

open Base List Option

variable {ω : Type}

section

/-- `__delete_locks_of_owner` (624), which leaves the blocked locks of the owner. -/
def deleteLocksOfOwner [DecidableEq ω] (owner : ω) (l : List (PosixLock ω)) : List (PosixLock ω) :=
  l.filter (fun k => k.blocked || !decide (k.owner = owner))

/-- The locked section of `delete_locks_of_fd` (584). -/
def deleteLocksOfFd (fdNum : Nat) (l : List (PosixLock ω)) : List (PosixLock ω) :=
  l.filter (fun k => k.fdNum ≠ fdNum)

variable [DecidableEq ω]

/-- What is done while `pl_inode->mutex` is held. A call of `pl_setlk`, of `pl_flush` (1225) (with
an owner, or without one, which is a release) or of `pl_release` (2097) is the section of its own
and then `grantBlocked`. -/
inductive Section (ω : Type) where
  | setlk (req : Request ω)
  | flush (owner : ω)
  | release (fdNum : Nat)
  | grantBlocked

/-- A section from its beginning to its end. -/
def runSection : Section ω → List (PosixLock ω) → List (PosixLock ω)
  | .setlk req, l => (setlkLocked req.lock req.canBlock l).2
  | .flush owner, l => deleteLocksOfOwner owner l
  | .release fdNum, l => deleteLocksOfFd fdNum l
  | .grantBlocked, l => grantBlockedLocks l

private lemma setlk_eq_runAll (req : Request ω) (l : List (PosixLock ω)) :
    setlk req l = runAll runSection [.setlk req, .grantBlocked] l := rfl

/-- The sections of some lock calls. -/
def callSections (reqs : List (Request ω)) : List (Section ω) :=
  reqs.flatMap (fun req => [.setlk req, .grantBlocked])

end

section

/-- The insertion gives nobody more than the bytes of its lock, and blocks nobody. -/
structure Adds (l : List (PosixLock ω)) (lock : PosixLock ω) (l' : List (PosixLock ω)) : Prop where
  holds : ∀ o x t, Holds l' o x t →
    Holds l o x t ∨ (o = lock.owner ∧ In x lock ∧ t = lock.flType ∧ t ≠ .unlck)
  blocked : (l'.filter (·.blocked)).Sublist (l.filter (·.blocked))

variable {l ps pre post l' : List (PosixLock ω)} {lock conf p : PosixLock ω}

lemma Adds.mem (h : Adds l lock l') {k : PosixLock ω} (hk : k ∈ l') (hb : k.blocked = true) :
    k ∈ l := mem_of_mem_filter (h.blocked.subset (mem_filter.mpr ⟨hk, hb⟩))

private lemma adds_append (ht : lock.flType ≠ .unlck) (hb : lock.blocked = false) :
    Adds l lock (l ++ [lock]) := by
  constructor
  · intro o x t h
    rw [holds_append, holds_singleton] at h
    refine h.imp_right ?_
    rintro ⟨-, rfl, hx, rfl⟩
    exact ⟨rfl, hx, rfl, ht⟩
  · simp [hb]

/-- The pieces of a lock that is cut are granted locks of the owner, each with bytes and the type
of one of the two locks. -/
structure Piece (lock conf p : PosixLock ω) : Prop where
  valid : p.flStart ≤ p.flEnd
  granted : p.blocked = false
  owner : p.owner = lock.owner
  bytes : (p.flType = lock.flType ∧ ∀ x, In x p → In x lock) ∨
    (p.flType = conf.flType ∧ ∀ x, In x p → In x conf)

private lemma Remnant.piece (hp : Remnant lock conf p) : Piece lock conf p :=
  ⟨hp.valid, hp.granted, hp.owner, .inr ⟨hp.type, hp.inside⟩⟩

private lemma Pieces.mem (hps : Pieces lock conf ps) (hv : lock.flStart ≤ lock.flEnd)
    (hb : lock.blocked = false) (hp : p ∈ ps) : Piece lock conf p := by
  have hself : Piece lock conf lock := ⟨hv, hb, rfl, .inl ⟨rfl, fun _ h => h⟩⟩
  cases hps with
  | covered mid hlike hcover =>
    obtain rfl := mem_singleton.mp hp
    refine ⟨?_, hlike.blocked.trans hb, hlike.owner, .inl ⟨hlike.type, fun x hx => ?_⟩⟩
    · rw [hlike.start, hlike.stop]
      exact hv
    · simpa [In, hlike.start, hlike.stop] using hx
  | oneSide q hq hcover =>
    simp only [mem_cons, not_mem_nil, or_false] at hp
    rcases hp with rfl | rfl
    · exact hq.piece
    · exact hself
  | bothSides q r hq hr hapart hcover =>
    simp only [mem_cons, not_mem_nil, or_false] at hp
    rcases hp with rfl | rfl | rfl
    · exact hq.piece
    · exact hself
    · exact hr.piece

-- What an own lock and the list without it held, the list held.
private lemma adds_of_sum (hown : Own lock conf) (htype : conf.flType = lock.flType)
    (h : Adds (pre ++ post) (addLocks lock lock conf) l') : Adds (pre ++ conf :: post) lock l' := by
  refine ⟨fun o x t hheld => ?_, h.blocked.trans ?_⟩
  swap
  · simp [hown.1]
  rw [holds_middle]
  rcases h.holds o x t hheld with hrest | ⟨rfl, hx, rfl, ht⟩
  · exact .inl (.inl hrest)
  · rcases (in_addLocks lock hown.2.1 x).mp hx with hx | hx
    · exact .inr ⟨rfl, hx, rfl, ht⟩
    · exact .inl (.inr ⟨hown.1, hown.2.2, hx, htype⟩)

variable [DecidableEq ω]

/-- Insertions of a depth add no more than their locks. -/
def InsertAdds (ω : Type) [DecidableEq ω] (n : Nat) : Prop :=
  ∀ (l : List (PosixLock ω)) (lock : PosixLock ω) (l' : List (PosixLock ω)),
    lock.flStart ≤ lock.flEnd → lock.blocked = false →
    insertMergeDepth n l lock = some l' → Adds l lock l'

-- Induction on the pieces that are inserted.
private lemma foldlM_adds {n : Nat} (hins : InsertAdds ω n)
    (hps : ∀ p ∈ ps, p.flStart ≤ p.flEnd ∧ p.blocked = false)
    (h : ps.foldlM (insertMergeDepth n) l = some l') :
    (∀ o x t, Holds l' o x t →
      Holds l o x t ∨ ∃ p ∈ ps, o = p.owner ∧ In x p ∧ t = p.flType ∧ t ≠ .unlck) ∧
    (l'.filter (·.blocked)).Sublist (l.filter (·.blocked)) := by
  induction ps generalizing l with
  | nil =>
    cases h
    exact ⟨fun _ _ _ => .inl, Sublist.refl _⟩
  | cons p ps ih =>
    obtain ⟨⟨hv, hb⟩, hps⟩ := forall_mem_cons.mp hps
    rw [foldlM_cons, bind_eq_bind, bind_eq_some_iff] at h
    obtain ⟨m, hfirst, hrest⟩ := h
    have hadds := hins l p m hv hb hfirst
    obtain ⟨hholds, hblocked⟩ := ih hps hrest
    refine ⟨fun o x t hheld => ?_, hblocked.trans hadds.blocked⟩
    rcases hholds o x t hheld with hm | ⟨q, hq, hin⟩
    · exact (hadds.holds o x t hm).imp_right fun hin => ⟨p, mem_cons_self, hin⟩
    · exact .inr ⟨q, mem_cons_of_mem _ hq, hin⟩

private lemma adds_of_pieces {n : Nat} (hins : InsertAdds ω n) {m : List (PosixLock ω)}
    (hv : lock.flStart ≤ lock.flEnd) (hb : lock.blocked = false) (hown : Own lock conf)
    (h : (subtractLocks (addLocks conf lock conf) lock).foldlM (insertMergeDepth n) (pre ++ post) =
      some m) : Adds (pre ++ conf :: post) lock (deleteUnlckLocks m) := by
  have hmem := fun p hp => (subtractLocks_pieces hv hb hown).mem hv hb (p := p) hp
  obtain ⟨hholds, hblocked⟩ := foldlM_adds hins (fun p hp => ⟨(hmem p hp).valid,
    (hmem p hp).granted⟩) h
  refine ⟨fun o x t hheld => ?_, ((filter_sublist.filter _).trans hblocked).trans ?_⟩
  swap
  · simp [hown.1]
  obtain ⟨k, hk, hheld⟩ := hheld
  rw [holds_middle]
  rcases hholds o x t ⟨k, mem_of_mem_filter hk, hheld⟩ with hrest | ⟨p, hp, rfl, hx, rfl, ht⟩
  · exact .inl (.inl hrest)
  · have ho := (hmem p hp).owner
    rcases (hmem p hp).bytes with ⟨htype, hin⟩ | ⟨htype, hin⟩
    · exact .inr ⟨ho, hin x hx, htype, ht⟩
    · exact .inl (.inr ⟨hown.1, hown.2.2.trans ho.symm, hin x hx, htype.symm⟩)

/-- By induction on the depth: where the walk stops at an own lock, that lock held what the merged
lock or the pieces have beyond the bytes of the new one. -/
lemma insertMergeDepth_adds (n : Nat) : InsertAdds ω n := by
  induction n with
  | zero => exact fun _ _ _ _ _ h => by cases h
  | succ n ih =>
    intro l lock l' hv hb h
    have hs := walk_stops lock l
    unfold insertMergeDepth at h
    cases hw : walk lock l with
    | clear =>
      simp only [hw, Option.some.injEq] at h
      subst h
      split
      · exact ⟨fun _ _ _ => .inl, Sublist.refl _⟩
      · next ht => exact adds_append ht hb
    | shared =>
      simp only [hw, Option.some.injEq] at h
      subst h
      rw [hw] at hs
      obtain ⟨-, -, -, -, ht, -⟩ := hs
      exact adds_append (by rw [ht]; decide) hb
    | own conf rest =>
      rw [hw] at hs
      obtain ⟨pre, post, rfl, rfl, hown, -⟩ := hs
      simp only [hw] at h
      split at h
      · next htype =>
        have hvalid : (addLocks lock lock conf).flStart ≤ (addLocks lock lock conf).flEnd := by
          simp only [addLocks]
          omega
        exact adds_of_sum hown htype (ih _ _ _ hvalid rfl h)
      · obtain ⟨m, hfold, rfl⟩ := map_eq_some_iff.mp h
        exact adds_of_pieces ih hv hb hown hfold

lemma insertAndMerge_adds (hl : Valid l) (hv : lock.flStart ≤ lock.flEnd)
    (hb : lock.blocked = false) : Adds l lock (insertAndMerge l lock) :=
  insertMergeDepth_adds _ l lock _ hv hb (insertAndMerge_eq hl hv)

private lemma insertAndMerge_valid (hl : Valid l) (hv : lock.flStart ≤ lock.flEnd) :
    Valid (insertAndMerge l lock) := by
  obtain ⟨l', h, -, hvalid⟩ := insertMergeDepth_some hl hv (Nat.lt_succ_self _)
  rw [insertAndMerge, h]
  exact hvalid

end

/-- The range of the request goes up to the end of the file, or not beyond the largest offset. -/
def Request.Fits (req : Request ω) : Prop :=
  req.flock.lLen = 0 ∨ req.flock.lStart.toInt + req.flock.lLen.toInt ≤ 2 ^ 63

/-- The range of the section, if it has one, fits. -/
def Section.Fits : Section ω → Prop
  | .setlk req => req.Fits
  | .flush _ | .release _ | .grantBlocked => True

instance : ∀ sec : Section ω, Decidable sec.Fits
  | .setlk req => inferInstanceAs (Decidable (req.flock.lLen = 0 ∨ _))
  | .flush _ | .release _ | .grantBlocked => .isTrue trivial

lemma Request.lock_valid (req : Request ω) (h : req.Fits) : req.lock.flStart ≤ req.lock.flEnd := by
  have hend : req.lock.flEnd = if req.flock.lLen = 0 then llongMax
      else (req.flock.lStart + req.flock.lLen - 1).toInt := rfl
  have hmax := req.flock.lStart.toInt_lt
  rw [hend]
  split
  · exact Int.le_sub_one_of_lt hmax
  · next hzero =>
    have hpos : req.flock.lLen.toInt ≠ 0 := fun heq => hzero (Int64.toInt_inj.mp heq)
    have hlen := req.len_nonneg
    rw [toInt_last req.start_nonneg hlen (h.resolve_left hzero)]
    change req.flock.lStart.toInt ≤ _
    omega

section

variable [DecidableEq ω] {l : List (PosixLock ω)} {lock : PosixLock ω}

/-- What a property of lists has to keep under, for all sections to keep it: locks taken out, locks
inserted where they are grantable, and locks blocked where they are not. -/
structure KeptByParts (I : List (PosixLock ω) → Prop) : Prop where
  valid : ∀ {l}, I l → Valid l
  sublist : ∀ {l l' : List (PosixLock ω)}, I l → l'.Sublist l → I l'
  insert : ∀ {l lock}, I l → lock.flStart ≤ lock.flEnd → lock.blocked = false →
    isLockGrantable l lock = true → I (insertAndMerge l lock)
  block : ∀ {l lock}, I l → lock.flStart ≤ lock.flEnd → ¬isLockGrantable l lock = true →
    I (block l lock)

namespace KeptByParts

variable {I : List (PosixLock ω) → Prop} (hI : KeptByParts I)
include hI

section

variable (h : I l)
include h

-- Induction on the locks that are granted or blocked again.
private lemma foldl_grantOrBlock {ks : List (PosixLock ω)}
    (hks : ∀ k ∈ ks, k.flStart ≤ k.flEnd ∧ k.blocked = false) : I (ks.foldl grantOrBlock l) := by
  induction ks generalizing l with
  | nil => exact h
  | cons k ks ih =>
    obtain ⟨⟨hv, hb⟩, hks⟩ := forall_mem_cons.mp hks
    refine ih ?_ hks
    unfold grantOrBlock
    split
    · next hg => exact hI.insert h hv hb hg
    · next hg => exact hI.block h hv hg

private lemma grantBlockedLocks : I (grantBlockedLocks l) := by
  refine hI.foldl_grantOrBlock (hI.sublist h filter_sublist) (fun k hk => ?_)
  obtain ⟨k, hk', rfl⟩ := mem_map.mp hk
  exact ⟨hI.valid h k (mem_of_mem_filter hk'), rfl⟩

variable (hv : lock.flStart ≤ lock.flEnd)
include hv

private lemma sendPrelockUnlock (hb : lock.blocked = false) : I (sendPrelockUnlock l lock) := by
  have hunlck : isLockGrantable l { lock with flType := .unlck } = true := by
    simp [isLockGrantable]
  exact hI.grantBlockedLocks (hI.insert h hv hb hunlck)

private lemma setlkDecide {canBlock : Bool} (hb : lock.blocked = false) :
    I (setlkDecide lock canBlock l).2 := by
  unfold Locks.setlkDecide
  split
  · next hg => exact hI.insert h hv hb hg
  · next hg =>
    split
    · exact hI.block h hv hg
    · exact h

private lemma setlkLocked {canBlock : Bool} (hb : lock.blocked = false) :
    I (setlkLocked lock canBlock l).2 := by
  refine hI.setlkDecide ?_ hv hb
  split
  · exact hI.sendPrelockUnlock h hv hb
  · exact h

end

/-- What insertions and blocking keep, every section keeps whose range fits. -/
lemma runSection (sec : Section ω) (l : List (PosixLock ω)) (h : I l) (hsec : sec.Fits) :
    I (runSection sec l) := by
  cases sec with
  | setlk req => exact hI.setlkLocked h (req.lock_valid hsec) rfl
  | flush | release => exact hI.sublist h filter_sublist
  | grantBlocked => exact hI.grantBlockedLocks h

end KeptByParts

end

/-- The lock has the byte: the byte is in its range, which goes up to the largest offset if the last
byte has wrapped around. -/
def PosixLock.Has (k : PosixLock ω) (x : Int) : Prop :=
  k.flStart ≤ x ∧ (k.flStart ≤ k.flEnd → x ≤ k.flEnd)

/-- The lock of a request has the bytes that are asked for. -/
lemma Request.lock_has_iff (req : Request ω) {x : Int} (hx : x ≤ llongMax) :
    req.lock.Has x ↔ req.flock.Asks x := by
  have hend : req.lock.flEnd = if req.flock.lLen = 0 then llongMax
      else (req.flock.lStart + req.flock.lLen - 1).toInt := rfl
  have hstart : req.lock.flStart = req.flock.lStart.toInt := rfl
  have hs := req.start_nonneg
  have hl := req.len_nonneg
  rw [PosixLock.Has, GfFlock.Asks, hend, hstart]
  refine and_congr_right fun _ => ?_
  split
  · next hzero => exact ⟨fun _ => .inl hzero, fun _ _ => hx⟩
  · next hzero =>
    have hpos : req.flock.lLen.toInt ≠ 0 := fun heq => hzero (Int64.toInt_inj.mp heq)
    rw [or_iff_right hzero]
    rcases le_or_gt (req.flock.lStart.toInt + req.flock.lLen.toInt) (2 ^ 63) with hle | hgt
    · rw [toInt_last hs hl hle]
      omega
    · have hwraps := toInt_last_wraps hgt
      rw [llongMax] at hx
      omega

/-- The owner has locked the byte with a granted lock of the type. -/
def Locked (l : List (PosixLock ω)) (o : ω) (x : Int) (t : LockType) : Prop :=
  ∃ k ∈ l, k.blocked = false ∧ k.owner = o ∧ k.Has x ∧ k.flType = t

instance [DecidableEq ω] (l : List (PosixLock ω)) (o : ω) (x : Int) (t : LockType) :
    Decidable (Locked l o x t) :=
  inferInstanceAs (Decidable (∃ k ∈ l, k.blocked = false ∧ k.owner = o ∧ (_ ∧ (_ → _)) ∧ _))

/-- No byte that one owner has locked for writing is locked by another one. -/
def WritersAlone (l : List (PosixLock ω)) : Prop :=
  ∀ o o' x t, o ≠ o' → Locked l o x .wrlck → ¬Locked l o' x t

/-- Writers are alone, and every range has a byte. -/
structure Exclusive (l : List (PosixLock ω)) : Prop where
  valid : Valid l
  alone : ∀ o o' x t, o ≠ o' → Holds l o x .wrlck → ¬Holds l o' x t

variable {l : List (PosixLock ω)} {lock : PosixLock ω}

private lemma holds_of_locked (hl : Valid l) {o : ω} {x : Int} {t : LockType} (h : Locked l o x t) :
    Holds l o x t := by
  obtain ⟨k, hk, hb, ho, hx, ht⟩ := h
  exact ⟨k, hk, hb, ho, ⟨hx.1, hx.2 (hl k hk)⟩, ht⟩

private lemma Exclusive.of_holds {l' : List (PosixLock ω)} (h : Exclusive l) (hl' : Valid l')
    (hsub : ∀ o x t, Holds l' o x t → Holds l o x t) : Exclusive l' :=
  ⟨hl', fun o o' x t hne hw hheld => h.alone o o' x t hne (hsub _ _ _ hw) (hsub _ _ _ hheld)⟩

private lemma holds_of_block {o : ω} {x : Int} {t : LockType} (h : Holds (block l lock) o x t) :
    Holds l o x t := by
  rw [block, holds_append, holds_singleton] at h
  exact h.resolve_right (fun hnew => by cases hnew.1)

variable [DecidableEq ω]

/-- What the test for a grantable lock has seen to. -/
lemma compatible_of_grantable (h : isLockGrantable l lock) (ht : lock.flType ≠ .unlck)
    {o : ω} {x : Int} {t : LockType} (ho : o ≠ lock.owner) (hx : In x lock)
    (hheld : Holds l o x t) :
    t ≠ .wrlck ∧ lock.flType ≠ .wrlck := by
  obtain ⟨k, hk, hb, rfl, hxk, rfl⟩ := hheld
  have hov : Overlap lock k := overlap_of_in hx hxk
  simpa [hb, hov, ht, ho] using all_eq_true.mp h k hk

lemma Exclusive.insert (h : Exclusive l) (hv : lock.flStart ≤ lock.flEnd)
    (hb : lock.blocked = false) (hg : isLockGrantable l lock) :
    Exclusive (insertAndMerge l lock) := by
  refine ⟨insertAndMerge_valid h.valid hv, fun o o' x t hne hw hother => ?_⟩
  have hadds := (insertAndMerge_adds h.valid hv hb).holds
  rcases hadds o x _ hw with hw | ⟨rfl, hx, ht, hheld⟩
  · rcases hadds o' x t hother with hother | ⟨rfl, hx, rfl, hheld⟩
    · exact h.alone o o' x t hne hw hother
    · exact (compatible_of_grantable hg hheld hne hx hw).1 rfl
  · rw [ht] at hheld
    rcases hadds o' x t hother with hother | ⟨rfl, -⟩
    · exact (compatible_of_grantable hg hheld hne.symm hx hother).2 ht.symm
    · exact hne rfl

private lemma exclusive_kept : KeptByParts (Exclusive (ω := ω)) where
  valid := Exclusive.valid
  sublist h hs := h.of_holds (fun k hk => h.valid k (hs.subset hk))
    fun _ _ _ ⟨k, hk, hheld⟩ => ⟨k, hs.subset hk, hheld⟩
  insert := Exclusive.insert
  block h hv _ := h.of_holds (forall_mem_append.mpr ⟨h.valid, forall_mem_singleton.mpr hv⟩)
    fun _ _ _ => holds_of_block

/-- Whatever sections with ranges that fit run on an inode that has no locks at first, no byte that
one owner has locked for writing is locked by another one. -/
theorem writers_always_alone (secs : List (Section ω))
    (hfits : Throughout runSection (fun sec _ => sec.Fits) secs []) :
    WritersAlone (runAll runSection secs []) := by
  have hempty : Exclusive ([] : List (PosixLock ω)) :=
    ⟨fun k hk => absurd hk not_mem_nil, fun _ _ _ _ _ ⟨k, hk, _⟩ => absurd hk not_mem_nil⟩
  have hrun := runAll_inv runSection Exclusive exclusive_kept.runSection hempty hfits
  intro o o' x t hne hw hother
  exact hrun.alone o o' x t hne (holds_of_locked hrun.valid hw) (holds_of_locked hrun.valid hother)

/-- A request of an owner for the bytes from `start` on, for small offsets. -/
def sampleRequest (owner : Nat) (lType : LockType) (start len : Fin 100) (canBlock : Bool) :
    Request Nat :=
  have hsmall : ∀ n : Fin 100, 0 ≤ (Int64.ofNat n).toInt := by decide +kernel
  ⟨⟨lType, Int64.ofNat start, Int64.ofNat len, 0, owner⟩, owner, 0, 0, canBlock, hsmall start,
    hsmall len⟩

/-- A writer waits for two readers and is granted its lock when both are gone. -/
theorem writer_after_readers_alone : WritersAlone (runAll runSection
      (callSections [sampleRequest 1 .rdlck 0 10 false, sampleRequest 2 .rdlck 5 10 false,
        sampleRequest 3 .wrlck 0 20 true] ++ [.flush 1, .release 0, .grantBlocked]) []) :=
  writers_always_alone _ (by decide +kernel)

/-- A request for all bytes from the third on, by their number. -/
def beyondRequest (owner : Nat) : Request Nat :=
  ⟨⟨.wrlck, 2, 9223372036854775807, 0, owner⟩, owner, 0, 0, false,
    by exact (by decide : 0 ≤ (2 : Int64).toInt),
    by exact (by decide : 0 ≤ (9223372036854775807 : Int64).toInt)⟩

/-- Two owners are granted write locks on the same bytes: the last byte of both has wrapped
around. -/
theorem writers_wrap_around :
    let l := runAll runSection (callSections [beyondRequest 1, beyondRequest 2]) []
    (beyondRequest 1).flock.Asks 5 ∧ (beyondRequest 2).flock.Asks 5 ∧ ¬WritersAlone l :=
  ⟨⟨by decide, .inr (by decide)⟩, ⟨by decide, .inr (by decide)⟩,
    fun h => h 1 2 5 .wrlck (by decide) (by decide +kernel) (by decide +kernel)⟩

end TagItGluster.Locks
