import Mathlib.Algebra.GroupWithZero.Nat
import Mathlib.Algebra.Order.Group.Int
import Mathlib.Data.List.Basic

/-!
# POSIX locks of an inode

The locks of an inode are one list, `ext_list`, of granted and of blocked locks. Granting a
lock inserts it with `__insert_and_merge`, which merges it with the locks of the same owner
that it overlaps, or cuts it out of them. `pl_setlk` grants, blocks or refuses a request and
then grants what waits. Line numbers: `xlators/features/locks/src/common.c`.
-/

namespace TagItGluster.Locks

/-- `F_RDLCK`, `F_WRLCK` and `F_UNLCK`. -/
inductive LockType where
  | rdlck
  | wrlck
  | unlck
deriving DecidableEq

/-- `posix_lock_t`. The owner stands for the lock owner together with the client, which
`same_owner` (552) compares. -/
structure PosixLock (ω : Type) where
  flType : LockType
  flStart : Int
  flEnd : Int
  owner : ω
  fdNum : Nat
  clientPid : Int
  blocked : Bool
deriving DecidableEq

/-- `LLONG_MAX`. -/
def llongMax : Int := 2 ^ 63 - 1

variable {ω : Type}

/-- `struct gf_flock`. -/
structure GfFlock (ω : Type) where
  lType : LockType
  lStart : Int64
  lLen : Int64
  lPid : Int
  lOwner : ω

/-- `new_posix_lock` (453), with the arithmetic of `off_t`. -/
def GfFlock.posixLock (flock : GfFlock ω) (owner : ω) (fdNum : Nat) (clientPid : Int) :
    PosixLock ω where
  flType := flock.lType
  flStart := flock.lStart.toInt
  flEnd := if flock.lLen = 0 then llongMax else (flock.lStart + flock.lLen - 1).toInt
  owner := owner
  fdNum := fdNum
  clientPid := clientPid
  blocked := false

/-- The byte is in the range that is asked for. -/
def GfFlock.Asks (flock : GfFlock ω) (b : Int) : Prop :=
  flock.lStart.toInt ≤ b ∧ (flock.lLen = 0 ∨ b < flock.lStart.toInt + flock.lLen.toInt)

/-- The last byte of a range that does not go beyond the largest offset. -/
lemma toInt_last {start len : Int64} (hs : 0 ≤ start.toInt) (hl : 0 ≤ len.toInt)
    (h : start.toInt + len.toInt ≤ 2 ^ 63) :
    (start + len - 1).toInt = start.toInt + len.toInt - 1 := by
  have hbmod : ∀ x : Int, x.bmod (2 ^ 64) = if x % 2 ^ 64 < 2 ^ 63 then x % 2 ^ 64
      else x % 2 ^ 64 - 2 ^ 64 := fun x => rfl
  rw [Int64.toInt_sub, Int64.toInt_add, Int64.toInt_one, hbmod, hbmod]
  split <;> split <;> omega

/-- The last byte of a range that does: it wraps around. -/
lemma toInt_last_wraps {start len : Int64} (h : 2 ^ 63 < start.toInt + len.toInt) :
    (start + len - 1).toInt < start.toInt := by
  have hl := len.toInt_lt
  have hbmod : ∀ x : Int, x.bmod (2 ^ 64) = if x % 2 ^ 64 < 2 ^ 63 then x % 2 ^ 64
      else x % 2 ^ 64 - 2 ^ 64 := fun x => rfl
  rw [Int64.toInt_sub, Int64.toInt_add, Int64.toInt_one, hbmod, hbmod]
  split <;> split <;> omega

/-- `locks_overlap` (537). -/
def Overlap (l₁ l₂ : PosixLock ω) : Prop := l₂.flStart ≤ l₁.flEnd ∧ l₁.flStart ≤ l₂.flEnd

instance (l₁ l₂ : PosixLock ω) : Decidable (Overlap l₁ l₂) :=
  inferInstanceAs (Decidable (_ ∧ _))

/-- `add_locks` (579), with all but the range taken from the first argument. -/
def addLocks (attr l₁ l₂ : PosixLock ω) : PosixLock ω :=
  { attr with
    flStart := min l₁.flStart l₂.flStart
    flEnd := max l₁.flEnd l₂.flEnd
    blocked := false }

/-- `subtract_locks` (601): what is left of `big` around `small`, and `small`, in the order in which
the pieces are inserted again. -/
def subtractLocks (big small : PosixLock ω) : List (PosixLock ω) :=
  if big.flStart = small.flStart ∧ big.flEnd = small.flEnd then
    [{ big with flType := small.flType }]
  else if big.flStart < small.flStart ∧ small.flEnd < big.flEnd then
    [{ big with flEnd := small.flStart - 1 }, small, { big with flStart := small.flEnd + 1 }]
  else if small.flStart = big.flStart then
    [{ big with flStart := small.flEnd + 1 }, small]
  else if small.flEnd = big.flEnd then
    [{ big with flEnd := small.flStart - 1 }, small]
  else []

/-- `__delete_unlck_locks` (563). -/
def deleteUnlckLocks (l : List (PosixLock ω)) : List (PosixLock ω) :=
  l.filter (fun k => k.flType ≠ .unlck)

/-- What the walk of `__insert_and_merge` over the list stops at: a lock of the same owner,
with the list without it; a read lock of somebody else, when a read lock is inserted; or the
end of the list. -/
inductive Hit (ω : Type) where
  | own (conf : PosixLock ω) (rest : List (PosixLock ω))
  | shared
  | clear

/-- The walk goes on past a lock, which stays in the list. -/
def Hit.past (conf : PosixLock ω) : Hit ω → Hit ω
  | .own c rest => .own c (conf :: rest)
  | .shared => .shared
  | .clear => .clear

variable [DecidableEq ω]

/-- The walk over the list. -/
def walk (lock : PosixLock ω) : List (PosixLock ω) → Hit ω
  | [] => .clear
  | conf :: l =>
    if conf.blocked then (walk lock l).past conf
    else if ¬Overlap conf lock then (walk lock l).past conf
    else if conf.owner = lock.owner then .own conf l
    else if lock.flType = .unlck then (walk lock l).past conf
    else if conf.flType = .rdlck ∧ lock.flType = .rdlck then .shared
    else (walk lock l).past conf

/-- `__insert_and_merge` (784), for a recursion of at most the given depth. -/
def insertMergeDepth : Nat → List (PosixLock ω) → PosixLock ω → Option (List (PosixLock ω))
  | 0, _, _ => none
  | n + 1, l, lock =>
    match walk lock l with
    | .own conf rest =>
      if conf.flType = lock.flType then insertMergeDepth n rest (addLocks lock lock conf)
      else
        ((subtractLocks (addLocks conf lock conf) lock).foldlM (insertMergeDepth n) rest).map
          deleteUnlckLocks
    | .shared => some (l ++ [lock])
    | .clear => some (if lock.flType = .unlck then l else l ++ [lock])

/-- Number of bytes in the range of a lock. -/
def bytes (k : PosixLock ω) : Nat := (k.flEnd - k.flStart + 1).toNat

/-- Number of bytes of all locks of a list, with multiplicity. -/
def totalBytes (l : List (PosixLock ω)) : Nat := (l.map bytes).sum

/-- `__insert_and_merge`. Each level of the recursion removes an overlap, so that the number
of bytes bounds the depth. -/
def insertAndMerge (l : List (PosixLock ω)) (lock : PosixLock ω) : List (PosixLock ω) :=
  (insertMergeDepth (totalBytes l + bytes lock + 1) l lock).getD l

/-- `__is_lock_grantable` (760). -/
def isLockGrantable (l : List (PosixLock ω)) (lock : PosixLock ω) : Bool :=
  l.all (fun k => !(!k.blocked && decide (Overlap lock k) &&
    (k.flType = .wrlck || lock.flType = .wrlck) && lock.flType ≠ .unlck &&
    !decide (k.owner = lock.owner)))

/-- A blocked lock that no granted lock overlaps, as `first_overlap` (741) tells. -/
def waitsForNone (l : List (PosixLock ω)) (k : PosixLock ω) : Bool :=
  k.blocked && l.all (fun k' => k'.blocked || !decide (Overlap k' k))

/-- `__insert_lock` (522) of a lock that has to wait. -/
def block (l : List (PosixLock ω)) (lock : PosixLock ω) : List (PosixLock ω) :=
  l ++ [{ lock with blocked := true }]

/-- Second loop of `__grant_blocked_locks`, for one lock. -/
def grantOrBlock (l : List (PosixLock ω)) (lock : PosixLock ω) : List (PosixLock ω) :=
  if isLockGrantable l lock then insertAndMerge l lock else block l lock

/-- `__grant_blocked_locks` (872): the locks that wait for none are taken out of the list, and each
is granted or blocked again. -/
def grantBlockedLocks (l : List (PosixLock ω)) : List (PosixLock ω) :=
  ((l.filter (waitsForNone l)).map (fun k => { k with blocked := false })).foldl grantOrBlock
    (l.filter (fun k => !waitsForNone l k))

/-- `pl_send_prelock_unlock` (959). -/
def sendPrelockUnlock (l : List (PosixLock ω)) (lock : PosixLock ω) : List (PosixLock ω) :=
  grantBlockedLocks (insertAndMerge l { lock with flType := .unlck })

/-- The request is granted, blocked or refused. -/
def setlkDecide (lock : PosixLock ω) (canBlock : Bool) (l : List (PosixLock ω)) :
    Int × List (PosixLock ω) :=
  if isLockGrantable l lock then (0, insertAndMerge l lock)
  else if canBlock then (-1, block l lock)
  else (-1, l)

/-- The locked section of `pl_setlk`. -/
def setlkLocked (lock : PosixLock ω) (canBlock : Bool) (l : List (PosixLock ω)) :
    Int × List (PosixLock ω) :=
  setlkDecide lock canBlock
    (if canBlock && !isLockGrantable l lock then sendPrelockUnlock l lock else l)

/-- `pl_setlk` (1006): its return value and the list afterwards. -/
def plSetlk (lock : PosixLock ω) (canBlock : Bool) (l : List (PosixLock ω)) :
    Int × List (PosixLock ω) :=
  ((setlkLocked lock canBlock l).1, grantBlockedLocks (setlkLocked lock canBlock l).2)

/-- A lock call, as `pl_lk` (posix.c:1803) makes it for `F_SETLK` and `F_SETLKW`: it refuses a
negative start or length. -/
structure Request (ω : Type) where
  flock : GfFlock ω
  owner : ω
  fdNum : Nat
  clientPid : Int
  canBlock : Bool
  start_nonneg : 0 ≤ flock.lStart.toInt
  len_nonneg : 0 ≤ flock.lLen.toInt

/-- The lock that is asked for. -/
def Request.lock (req : Request ω) : PosixLock ω :=
  req.flock.posixLock req.owner req.fdNum req.clientPid

/-- One call on a list. -/
def setlk (req : Request ω) (l : List (PosixLock ω)) : List (PosixLock ω) :=
  (plSetlk req.lock req.canBlock l).2

end TagItGluster.Locks
