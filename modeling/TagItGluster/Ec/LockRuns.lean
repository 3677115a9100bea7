import TagItGluster.Ec.LockSteps

/-!
# Every interleaving on a shared inode lock

The counters and the phase of the lock are right between any two critical sections, all assertions
hold, and nobody sleeps for ever. This needs that an operation gives back a lock it has got, that
a delayed unlock is done with the link that the timer has, and that no flush releases the lock with
an update to send. `ec_unlock_timer_del` does not look at the link: a callback that comes after its
timer has been cancelled, or a forced unlock of another operation, takes the place of the operation
that waits for the timer.
-/

namespace TagItGluster.Ec

open Base List Option

namespace LockUse

variable {s : LockUse} {fop : Nat}

/-- An operation gives back a lock that it has got, a delayed unlock is done with the link that the
timer has, and a flush, fsync or fsyncdir does not release the lock with an update to send. -/
def Proper : LockEvent → LockUse → Prop
  | .reuse fop _, s => fop ∉ s.prepared
  | .callback fop, s => fop ∈ s.expired → s.lock.timer = none ∨ s.lock.timer = some fop
  | .force fop, s => s.lock.timer = none ∨ s.lock.timer = some fop
  | .unfreeze _ isFlush sends, _ => (isFlush && sends) = false
  | _, _ => True

instance : ∀ e s, Decidable (Proper e s)
  | .reuse fop _, s => inferInstanceAs (Decidable (fop ∉ s.prepared))
  | .callback fop, s =>
    inferInstanceAs (Decidable (fop ∈ s.expired → s.lock.timer = none ∨ s.lock.timer = some fop))
  | .force fop, s => inferInstanceAs (Decidable (s.lock.timer = none ∨ s.lock.timer = some fop))
  | .unfreeze _ isFlush sends, _ => inferInstanceAs (Decidable ((isFlush && sends) = false))
  | .prepare _, _ | .lock _, _ | .locked _, _ | .unlock _ _, _ | .expire, _ => .isTrue trivial

/-- What holds between any two critical sections. -/
structure Inv (s : LockUse) : Prop where
  counted : s.Counted
  phase : Phase s.view
  asserted : s.asserted = true
  /-- Without a lock, nobody uses it. -/
  gone : s.allocated = false → ∀ fop, s.uses fop = 0

namespace Inv

private lemma init : LockUse.init.Inv :=
  ⟨.init, .unused ⟨rfl, rfl, rfl, rfl⟩ rfl rfl rfl, rfl, fun _ _ => rfl⟩

private lemma prepare (h : s.Inv) (hnew : s.uses fop = 0) : (s.prepare fop).Inv :=
  ⟨h.counted.prepare hnew, h.phase, h.asserted, fun hnot => absurd hnot Bool.false_ne_true.symm⟩

private lemma uses_pos
    (h : fop ∈ s.prepared ∨ fop ∈ s.running ∨ fop ∈ s.finishing ∨ fop ∈ s.releasing) :
    0 < s.uses fop := by
  unfold uses
  rcases h with hmem | hmem | hmem | hmem
  all_goals
    have hpos := count_pos_iff.mpr hmem
    omega

variable (h : s.Inv)
include h

/-- A lock that somebody uses is there, and stays there. -/
lemma gone_of_used (huses : 0 < s.uses fop) {s' : LockUse} (hsame : s'.allocated = s.allocated)
    (hnot : s'.allocated = false) (other : Nat) : s'.uses other = 0 := by
  have hzero := h.gone (hsame.symm.trans hnot) fop
  omega

section

variable (hmem : fop ∈ s.prepared)
include hmem

/-- The assertions of `ec_lock` on the counters, the timer and the queues. -/
lemma enterOk : s.lock.EnterOk fop := by
  have hrefs := h.counted.refs
  have hinserted := h.counted.inserted
  have honce := h.counted.once fop
  have hpos := length_pos_of_mem hmem
  have hcount := count_pos_iff.mpr hmem
  unfold uses at honce
  refine ⟨by omega, fun htimer => ⟨h.phase.release_of_timer htimer, ?_⟩, fun hin => ?_,
    fun hin => ?_⟩
  · rw [InodeLock.enter_eq]
    unfold holders at hrefs
    dsimp only
    omega
  · have := count_pos_iff.mpr hin
    omega
  · have := count_pos_iff.mpr hin
    omega

private lemma ecLock_asserted : (s.ecLock fop).asserted = true := by
  have henter : (s.asserted && decide (s.lock.EnterOk fop)) = true := by
    rw [h.asserted, decide_eq_true (h.enterOk hmem), Bool.and_self]
  unfold LockUse.ecLock
  rw [InodeLock.enter_eq]
  dsimp only
  split_ifs with hqueue hrelease
  · have hpos := length_pos_of_mem hmem
    have hrefs := h.counted.refs
    have hbusy := h.phase.busy_of_release hrelease
    unfold holders at hrefs
    rw [henter, Bool.true_and, decide_eq_true_iff]
    omega
  · exact henter
  · exact henter

lemma ecLock : (s.ecLock fop).Inv := by
  have huses := uses_pos (.inl hmem)
  refine ⟨h.counted.ecLock hmem, h.phase.ecLock fop, h.ecLock_asserted hmem,
    h.gone_of_used huses ?_⟩
  unfold LockUse.ecLock
  dsimp only
  split_ifs <;> rfl

end

private lemma ecLockReuse (hmem : fop ∈ s.running) (release : Bool) :
    (s.ecLockReuse fop release).Inv := by
  have huses := uses_pos (.inr (.inl hmem))
  obtain ⟨howner, hphase⟩ := h.phase.ecLockReuse hmem release
  refine ⟨h.counted.ecLockReuse hmem release, hphase, ?_, h.gone_of_used huses rfl⟩
  dsimp only [LockUse.ecLockReuse, wake]
  rw [h.asserted, decide_eq_true howner, Bool.and_self]

lemma ecUnlockTimerAdd (hmem : fop ∈ s.finishing) (delay : Bool) :
    (s.ecUnlockTimerAdd fop delay).Inv := by
  have huses := uses_pos (.inr (.inr (.inl hmem)))
  obtain ⟨htimer, hphase⟩ := h.phase.ecUnlockTimerAdd h.counted hmem delay
  refine ⟨h.counted.ecUnlockTimerAdd hmem htimer delay, hphase, ?_, h.gone_of_used huses ?_⟩
  · have hok : (s.asserted && decide (s.lock.timer = none)) = true := by
      rw [h.asserted, decide_eq_true htimer, Bool.and_self]
    unfold LockUse.ecUnlockTimerAdd
    dsimp only
    split_ifs <;> exact hok
  · unfold LockUse.ecUnlockTimerAdd
    dsimp only
    split_ifs <;> rfl

/-- A delayed unlock with the link of the timer, or without a timer. -/
lemma ecUnlockTimerDel (hproper : s.lock.timer = none ∨ s.lock.timer = some fop) :
    (s.ecUnlockTimerDel fop).Inv := by
  rcases hproper with hnone | htimer
  · unfold LockUse.ecUnlockTimerDel
    rwa [if_neg (by rw [hnone]; exact Bool.false_ne_true)]
  have huses : 0 < s.uses fop := by
    simp only [uses, htimer, toList_some, count_cons_self]
    omega
  obtain ⟨hholders, hphase⟩ := h.phase.ecUnlockTimerDel htimer
  have hsome : s.lock.timer.isSome := by
    rw [htimer, isSome_some]
  refine ⟨h.counted.ecUnlockTimerDel hholders htimer, hphase, ?_, h.gone_of_used huses ?_⟩
  · unfold LockUse.ecUnlockTimerDel InodeLock.timerDel
    rw [if_pos hsome]
    dsimp only
    rw [h.asserted, Bool.true_and, decide_eq_true_iff]
    omega
  · unfold LockUse.ecUnlockTimerDel
    rw [if_pos hsome]

lemma ecLockUnfreeze (hmem : fop ∈ s.releasing) : (s.ecLockUnfreeze fop).Inv := by
  have huses := uses_pos (.inr (.inr (.inr hmem)))
  obtain ⟨hidle, hholders, hphase⟩ := h.phase.ecLockUnfreeze hmem
  have hrefs := h.counted.refs
  have hinserted := h.counted.inserted
  have hok : (s.unfreeze fop).asserted := by
    dsimp only [LockUse.unfreeze]
    rw [h.asserted, decide_eq_true hidle, decide_eq_true (by omega), Bool.and_self, Bool.and_self]
  refine ⟨h.counted.ecLockUnfreeze hmem, hphase, ?_, ?_⟩
  · unfold LockUse.ecLockUnfreeze
    dsimp only
    split_ifs <;> exact hok
  unfold LockUse.ecLockUnfreeze
  dsimp only
  split_ifs with hwaiting hzero
  · exact h.gone_of_used huses rfl
  · intro _ other
    exact (h.counted.unfreeze hmem).uses_destroy hzero rfl other
  · exact h.gone_of_used huses rfl

/-- The bricks' answer and the callbacks that are on their way change nothing of this. -/
lemma forget (acquired : Bool) (expired : List Nat) :
    Inv { s with lock := { s.lock with acquired := acquired }, expired := expired } :=
  ⟨⟨h.counted.refs, h.counted.refsFrozen, h.counted.inserted, h.counted.once, h.counted.sleeps⟩,
    h.phase, h.asserted, h.gone⟩

private lemma step {e : LockEvent} (hproper : Proper e s) : (step e s).Inv := by
  cases e with
  | prepare fop =>
    dsimp only [LockUse.step]
    split_ifs with hnew
    · exact h.prepare hnew
    · exact h
  | lock fop =>
    dsimp only [LockUse.step]
    split_ifs with hmem
    · exact h.ecLock hmem
    · exact h
  | locked fop =>
    dsimp only [LockUse.step]
    split_ifs
    · exact h.forget true s.expired
    · exact h
  | reuse fop release =>
    dsimp only [LockUse.step]
    split_ifs with hmem
    · exact h.ecLockReuse (hmem.resolve_right hproper) release
    · exact h
  | unlock fop delay =>
    dsimp only [LockUse.step]
    split_ifs with hmem
    · exact h.ecUnlockTimerAdd hmem delay
    · exact h
  | expire => exact h.forget s.lock.acquired (s.lock.timer.toList ++ s.expired)
  | callback fop =>
    dsimp only [LockUse.step]
    split_ifs with hmem
    · exact (h.ecUnlockTimerDel (hproper hmem)).forget _ (s.expired.erase fop)
    · exact h
  | force fop => exact h.ecUnlockTimerDel hproper
  | unfreeze fop isFlush sends =>
    have hend : s.ecUnlockLock fop isFlush sends = s.ecLockUnfreeze fop := by
      rw [ecUnlockLock, show (isFlush && sends) = false from hproper]
      rfl
    dsimp only [LockUse.step]
    split_ifs with hmem
    · rw [hend]
      exact h.ecLockUnfreeze hmem
    · exact h

end Inv

/-! ### Nobody sleeps for ever -/

/-- How much has to be done until nobody is queued. -/
def work (s : LockUse) : Nat :=
  6 * s.lock.frozen.length + 5 * s.lock.waiting.length + 4 * s.running.length +
    3 * s.finishing.length + 2 * s.lock.timer.toList.length + s.releasing.length

private lemma work_wake_le (s : LockUse) : s.wake.work ≤ s.work := by
  have hlen := congrArg List.length (head_append_tail s.lock.waiting)
  simp only [work, wake, InodeLock.next, length_append] at hlen ⊢
  omega

private lemma work_ecLockReuse (hmem : fop ∈ s.running) (release : Bool) :
    (s.ecLockReuse fop release).work < s.work := by
  have hlen := length_erase_add hmem
  refine Nat.lt_of_le_of_lt (work_wake_le _) ?_
  simp only [work, length_cons]
  omega

private lemma work_ecUnlockTimerAdd (hmem : fop ∈ s.finishing) (htimer : s.lock.timer = none)
    (delay : Bool) : (s.ecUnlockTimerAdd fop delay).work < s.work := by
  have hlen := length_erase_add hmem
  unfold ecUnlockTimerAdd
  dsimp only
  split_ifs
  all_goals
    simp only [work, htimer, toList_none, toList_some, length_cons]
    omega

private lemma work_ecUnlockTimerDel (hwaiting : s.lock.waiting = [])
    (htimer : s.lock.timer = some fop) : (s.ecUnlockTimerDel fop).work < s.work := by
  unfold ecUnlockTimerDel InodeLock.timerDel
  rw [if_pos (by rw [htimer, isSome_some])]
  simp only [work, hwaiting, htimer, toList_none, toList_some, length_cons, nil_append]
  omega

private lemma work_ecLockUnfreeze (hmem : fop ∈ s.releasing) :
    (s.ecLockUnfreeze fop).work < s.work := by
  have hlen := length_erase_add hmem
  have hunfreeze : (s.unfreeze fop).work < s.work := by
    simp only [work, unfreeze, InodeLock.unfreeze, length_append, length_nil]
    omega
  unfold ecLockUnfreeze
  dsimp only
  split_ifs
  · exact Nat.lt_of_le_of_lt (work_wake_le _) hunfreeze
  · refine Nat.lt_of_le_of_lt ?_ hunfreeze
    simp only [work, destroy, InodeLock.allocate, length_nil, Option.toList_none]
    omega
  · exact hunfreeze

/-- As long as somebody is queued, some operation or the timer can go on. -/
lemma Inv.progress (h : s.Inv) (hqueued : s.Queued fop) :
    ∃ es, Throughout LockUse.step Proper es s ∧ (runAll LockUse.step es s).work < s.work := by
  cases h.phase with
  | unused idle releasing release frozen =>
    have hwaiting : s.lock.waiting = [] := idle.waiting
    have hfrozen : s.lock.frozen = [] := frozen
    have htimer : s.lock.timer = some fop := by
      simpa [Queued, hwaiting, hfrozen] using hqueued
    refine ⟨[.expire, .callback fop], ⟨trivial, fun _ => .inr htimer, trivial⟩, ?_⟩
    have hmem : fop ∈ s.lock.timer.toList ++ s.expired := by
      rw [htimer]
      exact mem_cons_self
    rw [runAll_cons, runAll_cons, LockUse.step, LockUse.step, if_pos hmem]
    exact work_ecUnlockTimerDel hwaiting htimer
  | released idle last releasing =>
    have hmem : last ∈ s.releasing := by
      rw [show s.releasing = [last] from releasing]
      exact mem_singleton_self last
    refine ⟨[.unfreeze last false false], ⟨rfl, trivial⟩, ?_⟩
    rw [runAll_cons, LockUse.step, if_pos hmem]
    exact work_ecLockUnfreeze hmem
  | inUse releasing timer owner busy =>
    rcases busy with hrunning | hfinishing
    · obtain ⟨first, hmem⟩ := exists_mem_of_ne_nil s.running hrunning
      have hnot : first ∉ s.prepared := by
        intro hin
        have honce := h.counted.once first
        have hrun := count_pos_iff.mpr hmem
        have hprepared := count_pos_iff.mpr hin
        unfold uses at honce
        omega
      refine ⟨[.reuse first false], ⟨hnot, trivial⟩, ?_⟩
      rw [runAll_cons, LockUse.step, if_pos (.inl hmem)]
      exact work_ecLockReuse hmem false
    · obtain ⟨first, hmem⟩ := exists_mem_of_ne_nil s.finishing hfinishing
      refine ⟨[.unlock first true], ⟨trivial, trivial⟩, ?_⟩
      rw [runAll_cons, LockUse.step, if_pos hmem]
      exact work_ecUnlockTimerAdd hmem timer true

/-- Every run can go on until nobody is queued. -/
lemma Inv.drains (h : s.Inv) : ∃ es, Throughout LockUse.step Proper es s ∧
      ∀ fop, ¬(runAll LockUse.step es s).Queued fop := by
  induction hn : s.work using Nat.strongRecOn generalizing s with
  | _ n ih =>
    by_cases hnone : ∀ fop, ¬s.Queued fop
    · exact ⟨[], trivial, hnone⟩
    obtain ⟨fop, hqueued⟩ := not_forall_not.mp hnone
    obtain ⟨es, hes, hlt⟩ := h.progress hqueued
    have hinv := runAll_inv _ Inv (fun _ _ hs he => hs.step he) h hes
    obtain ⟨es', hes', hdone⟩ := ih _ (hn ▸ hlt) hinv rfl
    refine ⟨es ++ es', (throughout_append _ _).mpr ⟨hes, hes'⟩, ?_⟩
    rwa [runAll_append]

/-- Each operation in a queue sleeps for one call of `ec_resume`. -/
lemma Counted.sleeps_eq (h : s.Counted) (fop : Nat) :
    s.slept.count fop = s.resumed.count fop + if s.Queued fop then 1 else 0 := by
  have hsleeps := h.sleeps fop
  have honce := h.once fop
  unfold uses at honce
  split_ifs with hqueued
  · have hpos : 0 < s.lock.waiting.count fop + s.lock.frozen.count fop +
        s.lock.timer.toList.count fop := by
      rcases hqueued with hin | hin | htimer
      · have := count_pos_iff.mpr hin
        omega
      · have := count_pos_iff.mpr hin
        omega
      · rw [htimer, toList_some, count_singleton_self]
        omega
    omega
  · obtain ⟨hwaiting, hfrozen, htimer⟩ : fop ∉ s.lock.waiting ∧ fop ∉ s.lock.frozen ∧
        fop ∉ s.lock.timer.toList := by
      simpa [Queued] using hqueued
    rw [hsleeps, count_eq_zero.mpr hwaiting, count_eq_zero.mpr hfrozen, count_eq_zero.mpr htimer]

private lemma Phase.running_eq (h : Phase s.view) : s.running = s.lock.owner.toList := by
  cases h with
  | unused idle | released idle => exact idle.running.trans (congrArg Option.toList idle.owner).symm
  | inUse releasing timer owner => exact owner

end LockUse

open LockUse

end TagItGluster.Ec
