import TagItGluster.Locks.Exclusion

/-!
# Runs of lock calls

Where the walk of an insertion is not cut off, the insertion sets the bytes of its lock and nothing
else. A grant pass takes up requests that no granted lock overlaps; as long as those of one owner do
not overlap each other, it appends them to the list, and nothing is left for another pass. A call
that grants its request inserts it into the list as the call has found it: what the call releases
before does not make a request grantable.
-/

namespace TagItGluster.Locks

open Base List

variable {ω : Type}

/-- No two waiting requests of one owner overlap. -/
def WaitersApart (l : List (PosixLock ω)) : Prop :=
  (l.filter (·.blocked)).Pairwise (fun k k' => k.owner = k'.owner → ¬Overlap k k')

/-- No waiting request is without a granted lock over it. -/
def NoneWaits (l : List (PosixLock ω)) : Prop := ∀ k ∈ l, waitsForNone l k = false

section

variable {l l' : List (PosixLock ω)} {lock k : PosixLock ω}

private lemma waitsForNone_iff :
    waitsForNone l k ↔ k.blocked = true ∧ ∀ k' ∈ l, k'.blocked = false → ¬Overlap k' k := by
  unfold waitsForNone
  grind

private lemma NoneWaits.of_overlap (h : ∀ k ∈ l, k.blocked = true →
    ∃ k' ∈ l, k'.blocked = false ∧ Overlap k' k) : NoneWaits l := by
  intro k hk
  refine Bool.eq_false_iff.mpr fun hw => ?_
  obtain ⟨hb, hnone⟩ := waitsForNone_iff.mp hw
  obtain ⟨k', hk', hb', hov⟩ := h k hk hb
  exact hnone k' hk' hb' hov

private lemma Holds.overlap {o : ω} {x : Int} {t : LockType} (h : Holds l o x t)
    (hx : In x k) : ∃ k' ∈ l, k'.blocked = false ∧ Overlap k' k := by
  obtain ⟨k', hk', hb', -, hx', -⟩ := h
  exact ⟨k', hk', hb', overlap_of_in hx' hx⟩

private lemma Good.block (h : Good l) (hv : lock.flStart ≤ lock.flEnd) (ht : lock.flType ≠ .unlck) :
    Good (block l lock) := h.append hv ht (fun hb => by cases hb)

variable [DecidableEq ω]

private lemma insertAndMerge_free (hfree : ∀ k ∈ l, ¬Own lock k) (ht : lock.flType ≠ .unlck) :
    insertAndMerge l lock = l ++ [lock] := by
  rw [insertAndMerge, insertMergeDepth_free _ hfree ht]
  rfl

/-- An insertion that is not cut off. -/
lemma Good.insert (h : Good l) (hv : lock.flStart ≤ lock.flEnd) (hb : lock.blocked = false)
    (hcut : NotCutOff l lock) :
    Good (insertAndMerge l lock) ∧ Sets l lock (insertAndMerge l lock) :=
  insertMergeDepth_sets _ _ _ _ h hv hb hcut (insertAndMerge_eq h.valid hv)

private lemma grantBlockedLocks_of_noneWaits (h : NoneWaits l) : grantBlockedLocks l = l := by
  have hfilter : l.filter (waitsForNone l) = [] :=
    filter_eq_nil_iff.mpr fun k hk => by simp [h k hk]
  have hkept : l.filter (fun k => !waitsForNone l k) = l :=
    filter_eq_self.mpr fun k hk => by simp [h k hk]
  rw [grantBlockedLocks, hfilter, hkept]
  rfl

/-- What is in the way of a request that is not grantable. -/
lemma overlap_of_not_grantable (h : ¬isLockGrantable l lock) :
    lock.flType ≠ .unlck ∧ ∃ k ∈ l, k.blocked = false ∧ Overlap k lock := by
  rw [isLockGrantable, all_eq_true] at h
  push Not at h
  obtain ⟨k, hk, hconf⟩ := h
  refine ⟨fun ht => hconf (by simp [ht]), k, hk, ?_⟩
  simp only [Overlap] at *
  grind

/-- A pass over a list: the list is good, what was in it is at its front, and what has been blocked
again has a granted lock over it. -/
structure Passed (l l' : List (PosixLock ω)) : Prop where
  good : Good l'
  front : l <+: l'
  overlaid : ∀ k ∈ l', k.blocked = true → k ∉ l → ∃ k' ∈ l', k'.blocked = false ∧ Overlap k' k

-- Induction on the requests that are taken up: none has an own lock in the list by then.
private lemma foldl_passed {ks : List (PosixLock ω)} (hl : Good l)
    (hks : ∀ k ∈ ks, k.flStart ≤ k.flEnd ∧ k.blocked = false ∧ k.flType ≠ .unlck ∧
      ∀ k' ∈ l, ¬Own k k')
    (hapart : ks.Pairwise (fun k k' => k.owner = k'.owner → ¬Overlap k k')) :
    Passed l (ks.foldl grantOrBlock l) := by
  induction ks generalizing l with
  | nil => exact ⟨hl, prefix_rfl, fun k hk _ hnot => absurd hk hnot⟩
  | cons k ks ih =>
    obtain ⟨⟨hv, hb, ht, hfree⟩, hks⟩ := forall_mem_cons.mp hks
    obtain ⟨hk, hapart⟩ := pairwise_cons.mp hapart
    -- the request is appended, granted or blocked
    obtain ⟨c, hc, hstep, hgood, hover⟩ : ∃ c : PosixLock ω, (c.blocked = false → c = k) ∧
        grantOrBlock l k = l ++ [c] ∧ Good (l ++ [c]) ∧
        (c.blocked = true → ∃ k' ∈ l, k'.blocked = false ∧ Overlap k' c) := by
      unfold grantOrBlock
      split
      · exact ⟨k, fun _ => rfl, insertAndMerge_free hfree ht, hl.append hv ht fun _ => hfree,
          fun hkb => absurd (hb.symm.trans hkb) Bool.false_ne_true⟩
      · next hg =>
        exact ⟨{ k with blocked := true },
          fun hf => absurd hf.symm Bool.false_ne_true, rfl, hl.block hv ht,
          fun _ => (overlap_of_not_grantable hg).2⟩
    have hrest := ih hgood (fun k₂ hk₂ => by
      obtain ⟨hv₂, hb₂, ht₂, hfree₂⟩ := hks k₂ hk₂
      refine ⟨hv₂, hb₂, ht₂, forall_mem_append.mpr ⟨hfree₂, forall_mem_singleton.mpr ?_⟩⟩
      rintro ⟨hcb, hov, ho⟩
      rw [hc hcb] at hov ho
      exact hk k₂ hk₂ ho hov) hapart
    rw [foldl_cons, hstep]
    refine ⟨hrest.good, (prefix_append l [c]).trans hrest.front, fun k' hk' hb' hnot => ?_⟩
    by_cases heq : k' = c
    · obtain ⟨k₁, hk₁, h₁⟩ := hover (heq ▸ hb')
      exact ⟨k₁, hrest.front.subset (mem_append_left _ hk₁), heq ▸ h₁⟩
    · exact hrest.overlaid k' hk' hb' (by simp [hnot, heq])

/-- A grant pass keeps what was held, and leaves no request that waits for none. -/
lemma Good.grantBlockedLocks (hl : Good l) (hapart : WaitersApart l) :
    Good (grantBlockedLocks l) ∧ NoneWaits (grantBlockedLocks l) ∧
      ∀ o x t, Holds l o x t → Holds (grantBlockedLocks l) o x t := by
  have hsub : (l.filter (waitsForNone l)).Sublist (l.filter (·.blocked)) :=
    monotone_filter_right l fun k hw => (waitsForNone_iff.mp hw).1
  have hpass : Passed (l.filter (fun k => !waitsForNone l k)) (Locks.grantBlockedLocks l) := by
    refine foldl_passed (hl.sublist filter_sublist) (fun k hk => ?_)
      (pairwise_map.mpr (hapart.sublist hsub))
    obtain ⟨k, hk', rfl⟩ := mem_map.mp hk
    obtain ⟨hmem, hw⟩ := mem_filter.mp hk'
    refine ⟨hl.valid k hmem, rfl, hl.held k hmem, fun k' hk' hown => ?_⟩
    exact (waitsForNone_iff.mp hw).2 k' (mem_of_mem_filter hk') hown.1 hown.2.1
  have hfront : ∀ k ∈ l, k.blocked = false → k ∈ Locks.grantBlockedLocks l := by
    intro k hk hb
    refine hpass.front.subset (mem_filter.mpr ⟨hk, ?_⟩)
    rw [Bool.not_eq_true', Bool.eq_false_iff]
    exact fun hw => Bool.false_ne_true (hb.symm.trans (waitsForNone_iff.mp hw).1)
  refine ⟨hpass.good, NoneWaits.of_overlap fun k hk hb => ?_, fun o x t ⟨k, hk, hb, hheld⟩ =>
    ⟨k, hfront k hk hb, hb, hheld⟩⟩
  by_cases hkept : k ∈ l.filter (fun k => !waitsForNone l k)
  · obtain ⟨hmem, hw⟩ := mem_filter.mp hkept
    have hw : ¬waitsForNone l k := by simpa using hw
    rw [waitsForNone_iff] at hw
    push Not at hw
    obtain ⟨k', hk', hb', hov⟩ := hw hb
    exact ⟨k', hfront k' hk' hb', hb', hov⟩
  · exact hpass.overlaid k hk hb hkept

private lemma WaitersApart.insert (h : WaitersApart l) (hl : Valid l)
    (hv : lock.flStart ≤ lock.flEnd)
    (hb : lock.blocked = false) : WaitersApart (insertAndMerge l lock) :=
  Pairwise.sublist (insertAndMerge_adds hl hv hb).blocked h

/-- An unlock is never cut off. -/
lemma Good.sendPrelockUnlock (hl : Good l) (hapart : WaitersApart l)
    (hv : lock.flStart ≤ lock.flEnd) (hb : lock.blocked = false) :
    Good (sendPrelockUnlock l lock) ∧ NoneWaits (sendPrelockUnlock l lock) ∧
      ∀ o x t, o ≠ lock.owner → Holds l o x t → Holds (sendPrelockUnlock l lock) o x t := by
  obtain ⟨hgood, hsets⟩ : Good _ ∧ Sets l { lock with flType := .unlck } _ :=
    hl.insert hv hb fun ht => by cases ht
  obtain ⟨hgood', hnone, hholds⟩ := hgood.grantBlockedLocks (hapart.insert hl.valid hv hb)
  exact ⟨hgood', hnone, fun o x t ho hheld =>
    hholds o x t ((hsets.outside o x t fun hin => ho hin.1).mpr hheld)⟩

end

variable [DecidableEq ω] {l : List (PosixLock ω)} {req : Request ω}

/-- The range of the request fits, its walk gets to every own lock, and no two waiting requests of
one owner overlap. -/
structure Orderly (req : Request ω) (l : List (PosixLock ω)) : Prop where
  fits : req.Fits
  reaches : NotCutOff l req.lock
  apart : WaitersApart l

instance (req : Request ω) (l : List (PosixLock ω)) : Decidable (Orderly req l) :=
  have : Decidable req.Fits := inferInstanceAs (Decidable (req.flock.lLen = 0 ∨ _))
  have : Decidable (WaitersApart l) := inferInstanceAs (Decidable (Pairwise _ _))
  decidable_of_iff (req.Fits ∧ NotCutOff l req.lock ∧ WaitersApart l)
    ⟨fun h => ⟨h.1, h.2.1, h.2.2⟩, fun h => ⟨h.1, h.2, h.3⟩⟩

/-- What waits stays under a granted lock: under the one that is set, or under one of which the
bytes over the waiting request are not all those of its owner in the range. -/
def TakesUpNone (lock : PosixLock ω) (l : List (PosixLock ω)) : Prop :=
  ∀ k ∈ l, k.blocked = true → (lock.flType ≠ .unlck ∧ Overlap lock k) ∨
    ∃ k' ∈ l, k'.blocked = false ∧ Overlap k' k ∧ (k'.owner ≠ lock.owner ∨
      max k'.flStart k.flStart < lock.flStart ∨ lock.flEnd < min k'.flEnd k.flEnd)

/-- A request that is granted where nothing that waits comes to lie free. -/
lemma TakesUpNone.noneWaits (h : TakesUpNone req.lock l) (ho : Orderly req l) (hl : Good l) :
    NoneWaits (insertAndMerge l req.lock) := by
  have hv := req.lock_valid ho.fits
  obtain ⟨-, hsets⟩ := hl.insert hv rfl ho.reaches
  refine NoneWaits.of_overlap fun k hk hb => ?_
  have hmem := (insertAndMerge_adds hl.valid hv rfl).mem hk hb
  have hkv := hl.valid k hmem
  rcases h k hmem hb with ⟨ht, h₁, h₂⟩ | ⟨k', hk', hb', ⟨h₁, h₂⟩, hfree⟩
  · have hx : In (max k.flStart req.lock.flStart) req.lock := ⟨by omega, by omega⟩
    exact ((hsets.inside _ _ hx).mpr ⟨rfl, ht⟩).overlap ⟨by omega, by omega⟩
  · have hkv' := hl.valid k' hk'
    -- a byte of both locks that is not set
    obtain ⟨x, hx', hx, hout⟩ : ∃ x, In x k' ∧ In x k ∧
        ¬(k'.owner = req.lock.owner ∧ In x req.lock) := by
      rcases hfree with hne | hlt | hgt
      · exact ⟨max k'.flStart k.flStart, ⟨by omega, by omega⟩, ⟨by omega, by omega⟩,
          fun hin => hne hin.1⟩
      · exact ⟨max k'.flStart k.flStart, ⟨by omega, by omega⟩, ⟨by omega, by omega⟩,
          fun hin => absurd hin.2.1 (by omega)⟩
      · exact ⟨min k'.flEnd k.flEnd, ⟨by omega, by omega⟩, ⟨by omega, by omega⟩,
          fun hin => absurd hin.2.2 (by omega)⟩
    exact ((hsets.outside _ x k'.flType hout).mpr ⟨k', hk', hb', rfl, hx', rfl⟩).overlap hx

/-- A lock that is not an unlock is grantable if no other owner holds one of its bytes, apart
from readers under a read lock. -/
lemma isLockGrantable_iff {lock : PosixLock ω} (hl : Valid l) (hv : lock.flStart ≤ lock.flEnd) :
    isLockGrantable l lock ↔ lock.flType = .unlck ∨
      ∀ o x t, o ≠ lock.owner → In x lock → Holds l o x t → t ≠ .wrlck ∧ lock.flType ≠ .wrlck := by
  constructor
  · intro h
    exact or_iff_not_imp_left.mpr fun ht o x t ho hx => compatible_of_grantable h ht ho hx
  rw [isLockGrantable, all_eq_true]
  intro h k hk
  by_cases hb : k.blocked = true
  · simp [hb]
  by_cases hov : Overlap lock k
  · by_cases ho : k.owner = lock.owner
    · simp [ho]
    rcases h with ht | h
    · simp [ht]
    have hkv := hl k hk
    obtain ⟨h₁, h₂⟩ := hov
    -- the first byte that both have
    have hfree := h k.owner (max lock.flStart k.flStart) k.flType ho ⟨by omega, by omega⟩
      ⟨k, hk, Bool.eq_false_iff.mpr hb, rfl, ⟨by omega, by omega⟩, rfl⟩
    simp [hfree.1, hfree.2]
  · simp [hov]

/-- A call inserts its request into the list it has found, or does not grant it. What is in the way
of a request belongs to others, so that it is not released before, and the requests that are granted
then take nothing away. -/
lemma Orderly.plSetlk_cases (ho : Orderly req l) (hl : Good l) :
    plSetlk req.lock req.canBlock l = (0, grantBlockedLocks (insertAndMerge l req.lock)) ∨
      ((plSetlk req.lock req.canBlock l).1 = -1 ∧ Good (setlk req l)) := by
  have hv := req.lock_valid ho.fits
  by_cases hg : isLockGrantable l req.lock
  · exact .inl (by simp [plSetlk, setlkLocked, setlkDecide, hg])
  refine .inr ?_
  cases hc : req.canBlock with
  | false =>
    have hlocked : setlkLocked req.lock false l = (-1, l) := by
      simp [setlkLocked, setlkDecide, hg]
    rw [setlk, hc, plSetlk, hlocked]
    exact ⟨rfl, (hl.grantBlockedLocks ho.apart).1⟩
  | true =>
    obtain ⟨hgood, hnone, hholds⟩ := hl.sendPrelockUnlock ho.apart hv rfl
    have hstill : ¬isLockGrantable (sendPrelockUnlock l req.lock) req.lock := by
      rw [isLockGrantable_iff hgood.valid hv]
      rw [isLockGrantable_iff hl.valid hv] at hg
      exact fun h => hg (h.imp_right fun hfree o x t hne hx hheld =>
        hfree o x t hne hx (hholds o x t hne hheld))
    have hlocked : setlkLocked req.lock true l =
        (-1, block (sendPrelockUnlock l req.lock) req.lock) := by
      simp [setlkLocked, setlkDecide, hg, hstill]
    obtain ⟨ht, k, hk, hb, hov⟩ := overlap_of_not_grantable hstill
    have hnone' : NoneWaits (block (sendPrelockUnlock l req.lock) req.lock) := by
      refine forall_mem_append.mpr ⟨fun k hk => ?_, forall_mem_singleton.mpr ?_⟩
      · have hw := hnone k hk
        simp_all [waitsForNone, block]
      · refine Bool.eq_false_iff.mpr fun hw => ?_
        exact (waitsForNone_iff.mp hw).2 k (mem_append_left _ hk) hb hov
    rw [setlk, hc, plSetlk, hlocked, grantBlockedLocks_of_noneWaits hnone']
    exact ⟨rfl, hgood.block hv ht⟩

private lemma Orderly.setlk (ho : Orderly req l) (hl : Good l) : Good (setlk req l) := by
  rcases ho.plSetlk_cases hl with h | h
  · have hv := req.lock_valid ho.fits
    rw [Locks.setlk, h]
    exact ((hl.insert hv rfl ho.reaches).1.grantBlockedLocks (ho.apart.insert hl.valid hv rfl)).1
  · exact h.2

/-- The locks of an inode after some calls; at first it has none. -/
def afterCalls (reqs : List (Request ω)) : List (PosixLock ω) := runAll setlk reqs []

/-- In a run of orderly lock calls, a request that is granted, where no waiting request is taken up,
sets the bytes of its range for its owner, leaves all others as they were, and no two granted locks
of one owner overlap. -/
theorem granted_sets_bytes (reqs : List (Request ω)) (req : Request ω)
    (horderly : Throughout setlk Orderly (reqs ++ [req]) [])
    (hgranted : (plSetlk req.lock req.canBlock (afterCalls reqs)).1 = 0)
    (hnone : TakesUpNone req.lock (afterCalls reqs)) :
    Sets (afterCalls reqs) req.lock (setlk req (afterCalls reqs)) ∧
      OwnDisjoint (setlk req (afterCalls reqs)) := by
  obtain ⟨hreqs, hreq, -⟩ := (throughout_append setlk Orderly).mp horderly
  change Orderly req (afterCalls reqs) at hreq
  have hgood : Good (afterCalls reqs) := runAll_inv setlk Good (fun _ _ hl ho => ho.setlk hl)
    ⟨forall_mem_nil _, forall_mem_nil _, Pairwise.nil⟩ hreqs
  rcases hreq.plSetlk_cases hgood with heq | ⟨hret, -⟩
  · obtain ⟨hgood', hsets⟩ := hgood.insert (req.lock_valid hreq.fits) rfl hreq.reaches
    rw [setlk, heq, grantBlockedLocks_of_noneWaits (hnone.noneWaits hreq hgood)]
    exact ⟨hsets, hgood'.disjoint⟩
  · rw [hgranted] at hret
    cases hret

/-- The second owner waits for a lock of the first one and is granted it, a third one waits for
both. -/
def sampleCalls : List (Request Nat) :=
  [sampleRequest 1 .wrlck 0 20 false, sampleRequest 2 .rdlck 5 10 true,
    sampleRequest 1 .unlck 0 15 false, sampleRequest 3 .wrlck 0 20 true]

/-- The first owner unlocks, and the third one goes on waiting for the second. -/
theorem granted_unlock_then_reader :
    let l := afterCalls sampleCalls
    let req := sampleRequest 1 .unlck 0 30 false
    Sets l req.lock (setlk req l) ∧ OwnDisjoint (setlk req l) :=
  granted_sets_bytes sampleCalls (sampleRequest 1 .unlck 0 30 false) (by decide +kernel)
    (by decide +kernel) (by unfold TakesUpNone; decide +kernel)

/-- The walk of the read lock of the first owner stops at the read lock of the second, so that
the bytes from 20 to 25 keep their write lock, too. -/
theorem reader_cuts_off_own_writer :
    let l := afterCalls [sampleRequest 2 .rdlck 0 10 false, sampleRequest 1 .wrlck 20 10 false]
    let req := sampleRequest 1 .rdlck 5 21 false
    (plSetlk req.lock req.canBlock l).1 = 0 ∧ Holds (setlk req l) 1 20 .rdlck ∧
      Holds (setlk req l) 1 20 .wrlck ∧ ¬OwnDisjoint (setlk req l) := by
  decide +kernel

end TagItGluster.Locks
