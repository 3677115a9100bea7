import TagItGluster.Base.Machine

/-!
# The shared inode lock of dispersed files

The operations of a client on one inode share an inode lock: an operation announces itself, waits
until it owns the lock, gives it to the next one, and the last one keeps the lock for a second, with
a timer, before it is released on the bricks. While a lock is being released, newcomers are frozen.

An event is one critical section under the lock of the inode. Beside the fields of `ec_lock_t` the
state says how far each operation has come, which calls of `ec_sleep` and `ec_resume` have been
made, and whether all assertions have held; a failed assertion is only logged. Line numbers:
`xlators/cluster/ec/src/ec-common.c`.
-/

namespace TagItGluster.Ec

/-- The fields of `ec_lock_t`; an operation has one link to the lock. -/
structure InodeLock where
  refs : Int
  refsFrozen : Int
  inserted : Int
  acquired : Bool
  release : Bool
  owner : Option Nat
  waiting : List Nat
  frozen : List Nat
  /-- The operation whose link the timer has. -/
  timer : Option Nat
deriving DecidableEq

/-- A lock, and the operations that use it. -/
structure LockUse where
  lock : InodeLock
  /-- The context of the inode has the lock. -/
  allocated : Bool
  /-- Announced by `ec_lock_prepare_inode`. -/
  prepared : List Nat
  /-- Made the owner, and not yet at `ec_lock_reuse`. -/
  running : List Nat
  /-- Between `ec_lock_reuse` and `ec_unlock`. -/
  finishing : List Nat
  /-- Between the decision to release the lock and `ec_lock_unfreeze`. -/
  releasing : List Nat
  /-- Timers that have expired; their callbacks wait for the lock of the inode. -/
  expired : List Nat
  slept : List Nat
  resumed : List Nat
  /-- No assertion has failed. -/
  asserted : Bool
deriving DecidableEq

/-- A critical section. -/
inductive LockEvent where
  | prepare (fop : Nat)
  | lock (fop : Nat)
  /-- The bricks have granted the lock. -/
  | locked (fop : Nat)
  | reuse (fop : Nat) (release : Bool)
  /-- The release can be delayed if nothing has to be healed, the client does not shut down, and
  there is memory for a timer. -/
  | unlock (fop : Nat) (delay : Bool)
  | expire
  | callback (fop : Nat)
  | force (fop : Nat)
  /-- The release of the lock comes to its end; `sends` says that `ec_unlock_now` had an update of
  size and version to send first. -/
  | unfreeze (fop : Nat) (isFlush sends : Bool)
deriving DecidableEq

namespace InodeLock

/-- `ec_lock_allocate` (621). -/
def allocate : InodeLock := ⟨0, 0, 0, false, false, none, [], [], none⟩

/-- `ec_lock_insert` (668). -/
def insert (l : InodeLock) : InodeLock :=
  { l with refs := l.refs + 1, inserted := l.inserted + 1 }

/-- The first half of the critical section of `ec_lock`; the timer is cancelled. -/
def enter (l : InodeLock) : InodeLock :=
  let l := { l with inserted := l.inserted - 1 }
  if l.timer.isSome then { l with timer := none, refs := l.refs - 1 } else l

/-- The assertions of the first half. -/
def EnterOk (fop : Nat) (l : InodeLock) : Prop :=
  0 < l.inserted ∧ (l.timer.isSome = true → l.release = false ∧ 0 < l.enter.refs) ∧
    fop ∉ l.waiting ∧ fop ∉ l.frozen

instance (fop : Nat) (l : InodeLock) : Decidable (l.EnterOk fop) :=
  inferInstanceAs (Decidable (_ ∧ _))

/-- The first one that waits becomes the owner. -/
def next (l : InodeLock) : InodeLock :=
  { l with
    owner := if l.waiting = [] then l.owner else l.waiting.head?
    waiting := l.waiting.tail }

/-- The critical section of `ec_unlock_timer_del`, if there is a timer. -/
def timerDel (l : InodeLock) : InodeLock :=
  { l with
    timer := none
    release := true
    frozen := l.waiting ++ l.frozen
    waiting := []
    refsFrozen := l.refsFrozen + (l.refs - l.inserted - 1)
    refs := 1 + l.inserted }

/-- The first half of the critical section of `ec_lock_unfreeze`. -/
def unfreeze (l : InodeLock) : InodeLock :=
  { l with
    acquired := false
    release := false
    waiting := l.frozen ++ l.waiting
    frozen := []
    refs := l.refs - 1 + l.refsFrozen
    refsFrozen := 0 }

end InodeLock

namespace LockUse

/-- No operation has announced itself. -/
def init : LockUse := ⟨.allocate, false, [], [], [], [], [], [], [], true⟩

/-- How often an operation uses the lock. -/
def uses (s : LockUse) (fop : Nat) : Nat :=
  s.prepared.count fop + s.running.count fop + s.finishing.count fop + s.releasing.count fop +
    s.lock.waiting.count fop + s.lock.frozen.count fop + s.lock.timer.toList.count fop

/-- `ec_lock_prepare_inode` (779). -/
def prepare (fop : Nat) (s : LockUse) : LockUse :=
  { s with lock := s.lock.insert, allocated := true, prepared := fop :: s.prepared }

/-- `ec_lock` (1293), for one lock. -/
def ecLock (fop : Nat) (s : LockUse) : LockUse :=
  let l := s.lock.enter
  let s := { s with
    prepared := s.prepared.erase fop
    resumed := s.lock.timer.toList ++ s.resumed
    asserted := s.asserted && decide (s.lock.EnterOk fop) }
  if l.owner.isSome || l.release then
    if l.release then
      { s with
        lock := { l with
          frozen := l.frozen ++ [fop], refs := l.refs - 1, refsFrozen := l.refsFrozen + 1 }
        slept := fop :: s.slept
        asserted := s.asserted && decide (0 < l.refs - 1) }
    else { s with lock := { l with waiting := l.waiting ++ [fop] }, slept := fop :: s.slept }
  else { s with lock := { l with owner := some fop }, running := fop :: s.running }

/-- The first one that waits is made the owner and resumed. -/
def wake (s : LockUse) : LockUse :=
  { s with
    lock := s.lock.next
    running := s.lock.waiting.head?.toList ++ s.running
    resumed := s.lock.waiting.head?.toList ++ s.resumed }

/-- `ec_lock_reuse` (1789), for one lock. -/
def ecLockReuse (fop : Nat) (release : Bool) (s : LockUse) : LockUse :=
  wake { s with
    lock := { s.lock with owner := none, release := s.lock.release || release }
    prepared := if fop ∈ s.running then s.prepared else s.prepared.erase fop
    running := s.running.erase fop
    finishing := fop :: s.finishing
    asserted := s.asserted && decide (s.lock.owner = some fop) }

/-- `ec_unlock_timer_add` (1701); where it goes on to `ec_unlock_now` or `ec_lock_unfreeze`, the
operation releases the lock. -/
def ecUnlockTimerAdd (fop : Nat) (delay : Bool) (s : LockUse) : LockUse :=
  let s := { s with
    finishing := s.finishing.erase fop
    asserted := s.asserted && decide (s.lock.timer = none) }
  if 1 < s.lock.refs - s.lock.inserted then
    { s with lock := { s.lock with refs := s.lock.refs - 1 } }
  else if s.lock.acquired then
    let s := { s with slept := fop :: s.slept }
    if !s.lock.release && delay then { s with lock := { s.lock with timer := some fop } }
    else
      { s with
        lock := { s.lock with release := true }
        releasing := fop :: s.releasing
        resumed := fop :: s.resumed }
  else { s with lock := { s.lock with release := true }, releasing := fop :: s.releasing }

/-- `ec_unlock_timer_del` (1651), for the link of an operation. -/
def ecUnlockTimerDel (fop : Nat) (s : LockUse) : LockUse :=
  if s.lock.timer.isSome then
    { s with
      lock := s.lock.timerDel
      releasing := fop :: s.releasing
      resumed := fop :: s.resumed
      asserted := s.asserted && decide (s.lock.refs + s.lock.refsFrozen =
        s.lock.timerDel.refs + s.lock.timerDel.refsFrozen) }
  else s

/-- The first half of `ec_lock_unfreeze`. -/
def unfreeze (fop : Nat) (s : LockUse) : LockUse :=
  { s with
    lock := s.lock.unfreeze
    releasing := s.releasing.erase fop
    asserted := s.asserted && decide (s.lock.refs - 1 = s.lock.inserted) &&
      decide (s.lock.waiting = [] ∧ s.lock.owner = none) }

/-- `ec_lock_destroy` (653). -/
def destroy (s : LockUse) : LockUse := { s with lock := .allocate, allocated := false }

/-- `ec_lock_unfreeze` (1370). -/
def ecLockUnfreeze (fop : Nat) (s : LockUse) : LockUse :=
  let s := s.unfreeze fop
  if s.lock.waiting ≠ [] then s.wake
  else if s.lock.refs = 0 then s.destroy
  else s

/-- The end of a release. After the update of a flush, fsync or fsyncdir,
`ec_update_size_version_done` does not call `ec_unlock_lock` (`ec-common.c:1502–1506`): the
operation is done, and the lock stays as it is. -/
def ecUnlockLock (fop : Nat) (isFlush sends : Bool) (s : LockUse) : LockUse :=
  if isFlush && sends then { s with releasing := s.releasing.erase fop } else s.ecLockUnfreeze fop

/-- A critical section is entered when the operation has come to it. An operation with two locks
that does not get the first gives back the second as well. -/
def step : LockEvent → LockUse → LockUse
  | .prepare fop, s => if s.uses fop = 0 then s.prepare fop else s
  | .lock fop, s => if fop ∈ s.prepared then s.ecLock fop else s
  | .locked fop, s =>
    if fop ∈ s.running then { s with lock := { s.lock with acquired := true } } else s
  | .reuse fop release, s =>
    if fop ∈ s.running ∨ fop ∈ s.prepared then s.ecLockReuse fop release else s
  | .unlock fop delay, s => if fop ∈ s.finishing then s.ecUnlockTimerAdd fop delay else s
  | .expire, s => { s with expired := s.lock.timer.toList ++ s.expired }
  | .callback fop, s =>
    if fop ∈ s.expired then { s.ecUnlockTimerDel fop with expired := s.expired.erase fop } else s
  | .force fop, s => s.ecUnlockTimerDel fop
  | .unfreeze fop isFlush sends, s =>
    if fop ∈ s.releasing then s.ecUnlockLock fop isFlush sends else s

/-- The operation sleeps until it gets the lock, or until its delayed unlock. -/
def Queued (s : LockUse) (fop : Nat) : Prop :=
  fop ∈ s.lock.waiting ∨ fop ∈ s.lock.frozen ∨ s.lock.timer = some fop

instance (s : LockUse) (fop : Nat) : Decidable (s.Queued fop) :=
  inferInstanceAs (Decidable (_ ∨ _))

end LockUse

end TagItGluster.Ec
