import TagItGluster.Base.Machine
import TagItGluster.Base.Waiting
import TagItGluster.Locks.Posix

/-!
# Inode locks of a domain

A domain of an inode has a list of granted inode locks and a list of blocked ones. A lock is
granted unless one of another owner conflicts with it, or a blocked one does and its owner has no
lock in the domain. An unlock gives back a lock with the same range and owner and then tries all
blocked locks once more; so does the cleanup of a client that has gone, for each of its locks. Line
numbers: `xlators/features/locks/src/inodelk.c`.
-/

namespace TagItGluster.Locks

open Base

/-- `pl_inode_lock_t`. The number tells locks apart that have all other fields in common, as
their addresses do. The domain is that of the inode and the volume. -/
structure InodeLock (κ ο δ : Type) where
  id : Nat
  domain : δ
  client : Option κ
  owner : ο
  flType : LockType
  flStart : Int
  flEnd : Int
deriving DecidableEq

/-- The inode locks of a `pl_dom_list_t`: `inodelk_list` and `blocked_inodelks`. -/
abbrev InodelkDom (κ ο δ : Type) := Table (InodeLock κ ο δ)

/-- `EAGAIN`. -/
def eagain : Int := 11

/-- `EINVAL`. -/
def einval : Int := 22

variable {κ ο δ : Type}

/-- `inodelk_type_conflict` (50). -/
def inodelkTypeConflict (l₁ l₂ : InodeLock κ ο δ) : Bool :=
  l₂.flType = .wrlck || l₁.flType = .wrlck

/-- `inodelk_overlap` (116). -/
def inodelkOverlap (l₁ l₂ : InodeLock κ ο δ) : Bool :=
  l₂.flStart ≤ l₁.flEnd && l₁.flStart ≤ l₂.flEnd

/-- `inodelk_conflict` (132). -/
def inodelkConflict (l₁ l₂ : InodeLock κ ο δ) : Bool :=
  inodelkOverlap l₁ l₂ && inodelkTypeConflict l₁ l₂

/-- `inodelks_equal` (272). -/
def inodelksEqual (l₁ l₂ : InodeLock κ ο δ) : Bool :=
  l₁.flStart = l₂.flStart && l₁.flEnd = l₂.flEnd

private lemma inodelkConflict_comm (l₁ l₂ : InodeLock κ ο δ) :
    inodelkConflict l₁ l₂ = inodelkConflict l₂ l₁ := by
  unfold inodelkConflict inodelkOverlap inodelkTypeConflict
  rw [Bool.and_comm (decide (l₂.flStart ≤ l₁.flEnd)), Bool.or_comm (decide (l₂.flType = _))]

variable [DecidableEq κ] [DecidableEq ο]

/-- `same_inodelk_owner` (124). -/
def sameInodelkOwner (l₁ l₂ : InodeLock κ ο δ) : Bool :=
  l₁.owner = l₂.owner && l₁.client = l₂.client

/-- The conflicts and owners of inode locks. -/
def inodelks (κ ο δ : Type) [DecidableEq κ] [DecidableEq ο] : Policy (InodeLock κ ο δ) where
  conflict := inodelkConflict
  same := sameInodelkOwner
  conflict_comm := inodelkConflict_comm
  same_refl l := by simp [sameInodelkOwner]
  same_comm l₁ l₂ := by simp only [sameInodelkOwner, eq_comm]

/-- `__lock_inodelk` (200): what it returns, and the domain behind it. -/
def lockInodelk (lock : InodeLock κ ο δ) (canBlock : Bool) (dom : InodelkDom κ ο δ) :
    Int × InodelkDom κ ο δ :=
  let r := dom.request (inodelks κ ο δ) lock canBlock
  (if r.1 then 0 else -eagain, r.2)

/-- The test of `find_matching_inodelk` (283). -/
def matchesInodelk (lock l : InodeLock κ ο δ) : Bool :=
  inodelksEqual l lock && sameInodelkOwner l lock

/-- `__inode_unlock_lock` (298): the lock found, and the domain without it. -/
def inodeUnlockLock (lock : InodeLock κ ο δ) (dom : InodelkDom κ ο δ) :
    Option (InodeLock κ ο δ × InodelkDom κ ο δ) :=
  (dom.granted.find? (matchesInodelk lock)).map (·, dom.release (matchesInodelk lock))

/-- `__grant_blocked_inode_locks` (325): the locks granted, and the domain behind it. -/
def grantBlockedInodeLocks (dom : InodelkDom κ ο δ) : List (InodeLock κ ο δ) × InodelkDom κ ο δ :=
  dom.grantWaiting (inodelks κ ο δ)

/-- `pl_inode_setlk` (513), with nothing in between. -/
def plInodeSetlk (lock : InodeLock κ ο δ) (canBlock : Bool) (dom : InodelkDom κ ο δ) :
    Int × InodelkDom κ ο δ :=
  if lock.flType ≠ .unlck then lockInodelk lock canBlock dom
  else match inodeUnlockLock lock dom with
    | none => (-einval, dom)
    | some (_, dom) => (0, (grantBlockedInodeLocks dom).2)

/-- The lock is one of `ctx->inodelk_lockers` of the client. -/
def ofClient (c : κ) (l : InodeLock κ ο δ) : Bool := l.client = some c

/-- `pl_inodelk_client_cleanup` (410) in one domain: all locks of the client are taken out, and then
there is a pass over the blocked ones for each lock taken out. -/
def plInodelkClientCleanup (c : κ) (dom : InodelkDom κ ο δ) : InodelkDom κ ο δ :=
  (dom.evict (ofClient c)).passes (inodelks κ ο δ)
    ((dom.granted ++ dom.waiting).countP (ofClient c))

/-- What happens to a domain. -/
inductive InodelkEvent (κ ο δ : Type) where
  | setlk (lock : InodeLock κ ο δ) (canBlock : Bool)
  | disconnect (client : κ)

/-- An event from its beginning to its end. -/
def inodelkStep : InodelkEvent κ ο δ → InodelkDom κ ο δ → InodelkDom κ ο δ
  | .setlk lock canBlock, dom => (plInodeSetlk lock canBlock dom).2
  | .disconnect c, dom => plInodelkClientCleanup c dom

/-- A domain without locks. -/
def emptyInodelkDom : InodelkDom κ ο δ := ⟨[], []⟩

/-- Granted locks are in peace, and nothing is blocked for no reason. -/
structure InodelkInv (dom : InodelkDom κ ο δ) : Prop where
  peaceful : dom.Peaceful (inodelks κ ο δ)
  queued : dom.Queued (inodelks κ ο δ)

section

variable {dom : InodelkDom κ ο δ}

private lemma inodelkInv_setlk (lock : InodeLock κ ο δ) (canBlock : Bool) (h : InodelkInv dom) :
    InodelkInv (plInodeSetlk lock canBlock dom).2 := by
  unfold plInodeSetlk
  split
  · exact ⟨Table.request_peaceful h.peaceful, Table.request_queued h.queued⟩
  · unfold inodeUnlockLock
    cases dom.granted.find? (matchesInodelk lock) with
    | none => exact h
    | some conf =>
      exact ⟨Table.grantWaiting_peaceful (Table.release_peaceful h.peaceful),
        Table.grantWaiting_queued _ _⟩

private lemma inodelkInv_cleanup (c : κ) (h : InodelkInv dom) :
    InodelkInv (plInodelkClientCleanup c dom) := by
  refine ⟨Table.passes_peaceful (Table.evict_peaceful h.peaceful) _, ?_⟩
  unfold plInodelkClientCleanup
  cases hn : (dom.granted ++ dom.waiting).countP (ofClient c) with
  | succ n => exact Table.passes_queued _ _ n
  | zero =>
    -- The client has nothing in this domain, which stays as it is.
    rw [Table.evict_eq_self hn]
    exact h.queued

end

/-- Whatever requests come and clients go, granted locks of different owners do not conflict, and
every blocked lock conflicts with a granted lock of another owner or with a lock that is blocked in
front of it. -/
theorem inodelk_exclusive_queued (events : List (InodelkEvent κ ο δ)) :
    let dom := runAll inodelkStep events emptyInodelkDom
    (∀ l₁ ∈ dom.granted, ∀ l₂ ∈ dom.granted,
        sameInodelkOwner l₁ l₂ = false → inodelkConflict l₁ l₂ = false) ∧
      ∀ pre l post, dom.waiting = pre ++ l :: post →
        (∃ l' ∈ dom.granted, sameInodelkOwner l l' = false ∧ inodelkConflict l l' = true) ∨
          ∃ l' ∈ pre, inodelkConflict l l' = true := by
  have hinit : InodelkInv (emptyInodelkDom : InodelkDom κ ο δ) := by
    refine ⟨fun l hl => absurd hl List.not_mem_nil, fun pre l post h => ?_⟩
    simp [emptyInodelkDom] at h
  have hstep : ∀ e (dom : InodelkDom κ ο δ), InodelkInv dom → InodelkInv (inodelkStep e dom)
    | .setlk lock canBlock, _, h => inodelkInv_setlk lock canBlock h
    | .disconnect c, _, h => inodelkInv_cleanup c h
  obtain ⟨hpeaceful, hqueued⟩ := runAll_always inodelkStep InodelkInv hstep events hinit
  exact ⟨hpeaceful, hqueued⟩

end TagItGluster.Locks
