import TagItGluster.Ec.Lock

/-!
# Counters and phases of the shared inode lock

What each critical section does to the counters of the lock, which say how many operations are
where, and to its phase: a lock is not used, except by its timer, or it is in use, or it is being
released by one operation. Line numbers: `xlators/cluster/ec/src/ec-common.c`.
-/

namespace TagItGluster.Ec

open List Bool Option

private lemma count_cons_add (a b : Nat) (l : List Nat) :
    (a :: l).count b = [a].count b + l.count b := by
  rw [← singleton_append, count_append]

private lemma count_erase_add {a : Nat} {l : List Nat} (h : a ∈ l) (b : Nat) :
    l.count b = [a].count b + (l.erase a).count b := by
  rw [← count_cons_add]
  exact (perm_cons_erase h).count_eq b

lemma length_erase_add {a : Nat} {l : List Nat} (h : a ∈ l) :
    l.length = 1 + (l.erase a).length := by
  rw [(perm_cons_erase h).length_eq, length_cons, Nat.add_comm]

lemma head_append_tail (l : List Nat) : l.head?.toList ++ l.tail = l := by
  cases l <;> rfl

/-- The timer is cancelled, and with it goes the reference of its operation. -/
lemma InodeLock.enter_eq (l : InodeLock) : l.enter = { l with
      inserted := l.inserted - 1, timer := none, refs := l.refs - l.timer.toList.length } := by
  rcases l with ⟨refs, refsFrozen, inserted, acquired, release, owner, waiting, frozen, timer⟩
  cases timer <;> simp [enter]

namespace LockUse

variable {s : LockUse} {fop : Nat}

/-! ### Counters -/

/-- The operations that have a reference. -/
def holders (s : LockUse) : Nat :=
  s.prepared.length + s.running.length + s.finishing.length + s.releasing.length +
    s.lock.waiting.length + s.lock.timer.toList.length

/-- The counters are right, no operation is in two places, and every call of `ec_sleep` (243) but
those of the operations in a queue has got its call of `ec_resume` (278). -/
structure Counted (s : LockUse) : Prop where
  refs : s.lock.refs = s.holders
  refsFrozen : s.lock.refsFrozen = s.lock.frozen.length
  inserted : s.lock.inserted = s.prepared.length
  once : ∀ fop, s.uses fop ≤ 1
  sleeps : ∀ fop, s.slept.count fop = s.resumed.count fop + s.lock.waiting.count fop +
    s.lock.frozen.count fop + s.lock.timer.toList.count fop

namespace Counted

lemma init : LockUse.init.Counted :=
  ⟨rfl, rfl, rfl, fun _ => Nat.zero_le 1, fun _ => rfl⟩

variable (h : s.Counted)
include h

lemma prepare (hnew : s.uses fop = 0) : (s.prepare fop).Counted where
  refs := by
    have hrefs := h.refs
    simp only [holders, LockUse.prepare, InodeLock.insert, length_cons] at hrefs ⊢
    omega
  refsFrozen := h.refsFrozen
  inserted := by
    have hinserted := h.inserted
    simp only [LockUse.prepare, InodeLock.insert, length_cons]
    omega
  once other := by
    have honce := h.once other
    have hle : [fop].count other ≤ 1 := count_le_length
    simp only [uses, LockUse.prepare, InodeLock.insert, count_cons_add fop other s.prepared]
      at hnew honce ⊢
    by_cases heq : other = fop
    · subst heq
      omega
    · rw [count_eq_zero_of_not_mem (by simpa using heq)]
      omega
  sleeps := h.sleeps

private lemma wake : s.wake.Counted where
  refs := by
    have hrefs := h.refs
    have hlen := congrArg List.length (head_append_tail s.lock.waiting)
    simp only [holders, LockUse.wake, InodeLock.next, length_append] at hrefs hlen ⊢
    omega
  refsFrozen := h.refsFrozen
  inserted := h.inserted
  once other := by
    have honce := h.once other
    have hcount := congrArg (List.count other) (head_append_tail s.lock.waiting)
    simp only [uses, LockUse.wake, InodeLock.next, count_append] at honce hcount ⊢
    omega
  sleeps other := by
    have hsleeps := h.sleeps other
    have hcount := congrArg (List.count other) (head_append_tail s.lock.waiting)
    simp only [LockUse.wake, InodeLock.next, count_append] at hcount ⊢
    omega

lemma ecLock (hmem : fop ∈ s.prepared) : (s.ecLock fop).Counted := by
  obtain ⟨hrefs, hfrozen, hinserted, honce, hsleeps⟩ := h
  have hlen := length_erase_add hmem
  have hcount := count_erase_add hmem
  unfold holders at hrefs
  unfold LockUse.ecLock
  rw [InodeLock.enter_eq]
  dsimp only
  split_ifs
  all_goals
    refine ⟨?_, ?_, ?_, fun other => ?_, fun other => ?_⟩
    · simp only [holders, length_cons, length_append, length_nil, toList_none]
      omega
    · simp only [length_append, length_cons, length_nil]
      omega
    · dsimp only
      omega
    · have := honce other
      have := hcount other
      simp only [uses, count_append, count_cons_add fop other s.running, toList_none,
        count_nil] at *
      omega
    · have := hsleeps other
      simp only [count_append, count_cons_add fop other s.slept, toList_none, count_nil]
      omega

lemma ecLockReuse (hmem : fop ∈ s.running) (release : Bool) :
    (s.ecLockReuse fop release).Counted := by
  obtain ⟨hrefs, hfrozen, hinserted, honce, hsleeps⟩ := h
  have hlen := length_erase_add hmem
  have hcount := count_erase_add hmem
  unfold LockUse.ecLockReuse
  rw [if_pos hmem]
  refine wake ⟨?_, hfrozen, hinserted, fun other => ?_, hsleeps⟩
  · simp only [holders, length_cons] at hrefs ⊢
    omega
  · have := honce other
    have := hcount other
    simp only [uses, count_cons_add fop other s.finishing] at *
    omega

/-- An operation drops its reference, or it waits for the timer, or it releases the lock. -/
lemma ecUnlockTimerAdd (hmem : fop ∈ s.finishing) (htimer : s.lock.timer = none) (delay : Bool) :
    (s.ecUnlockTimerAdd fop delay).Counted := by
  obtain ⟨hrefs, hfrozen, hinserted, honce, hsleeps⟩ := h
  have hlen := length_erase_add hmem
  have hcount := count_erase_add hmem
  unfold LockUse.ecUnlockTimerAdd
  dsimp only
  split_ifs
  all_goals
    refine ⟨?_, hfrozen, hinserted, fun other => ?_, fun other => ?_⟩
    · simp only [holders, htimer, toList_none, toList_some, length_cons] at hrefs ⊢
      omega
    · have := honce other
      have := hcount other
      simp only [uses, toList_some, count_cons_add fop other s.releasing] at *
      omega
    · have := hsleeps other
      simp only [htimer, toList_none, toList_some, count_nil,
        count_cons_add fop other s.slept, count_cons_add fop other s.resumed] at *
      omega

/-- The operation of the timer releases the lock. -/
lemma ecUnlockTimerDel (hidle : s.holders = s.prepared.length + 1)
    (htimer : s.lock.timer = some fop) : (s.ecUnlockTimerDel fop).Counted := by
  obtain ⟨hrefs, hfrozen, hinserted, honce, hsleeps⟩ := h
  unfold holders at hrefs hidle
  unfold LockUse.ecUnlockTimerDel InodeLock.timerDel
  rw [if_pos (by rw [htimer, isSome_some])]
  simp only [htimer, toList_some, length_cons] at hrefs hidle
  have hwaiting : s.lock.waiting = [] := eq_nil_of_length_eq_zero (by omega)
  refine ⟨?_, ?_, hinserted, fun other => ?_, fun other => ?_⟩
  · simp only [holders, length_cons, length_nil, toList_none]
    omega
  · simp only [length_append]
    omega
  · have := honce other
    simp only [uses, htimer, hwaiting, toList_none, toList_some, count_nil,
      nil_append, count_cons_add fop other s.releasing] at *
    omega
  · have := hsleeps other
    simp only [htimer, hwaiting, toList_none, toList_some, count_nil,
      nil_append, count_cons_add fop other s.resumed] at *
    omega

lemma unfreeze (hmem : fop ∈ s.releasing) : (s.unfreeze fop).Counted := by
  obtain ⟨hrefs, hfrozen, hinserted, honce, hsleeps⟩ := h
  have hlen := length_erase_add hmem
  have hcount := count_erase_add hmem
  unfold holders at hrefs
  refine ⟨?_, rfl, hinserted, fun other => ?_, fun other => ?_⟩
  · simp only [holders, LockUse.unfreeze, InodeLock.unfreeze, length_append]
    omega
  · have := honce other
    have := hcount other
    simp only [uses, LockUse.unfreeze, InodeLock.unfreeze, count_append, count_nil] at *
    omega
  · have := hsleeps other
    simp only [LockUse.unfreeze, InodeLock.unfreeze, count_append, count_nil]
    omega

section

variable (hrefs : s.lock.refs = 0)
include hrefs

private lemma uses_eq_zero (hfrozen : s.lock.frozen = []) (fop : Nat) : s.uses fop = 0 := by
  have hholders := h.refs
  have hle : s.uses fop ≤ s.holders := by
    have hcount := fun l : List Nat => count_le_length (a := fop) (l := l)
    have := hcount s.prepared
    have := hcount s.running
    have := hcount s.finishing
    have := hcount s.releasing
    have := hcount s.lock.waiting
    have := hcount s.lock.timer.toList
    simp only [uses, holders, hfrozen, count_nil]
    omega
  omega

lemma uses_destroy (hfrozen : s.lock.frozen = []) (fop : Nat) : s.destroy.uses fop = 0 := by
  have huses := h.uses_eq_zero hrefs hfrozen fop
  simp only [uses, LockUse.destroy, InodeLock.allocate, count_nil, toList_none]
    at huses ⊢
  omega

private lemma destroy (hfrozen : s.lock.frozen = []) : s.destroy.Counted := by
  have hholders := h.refs
  unfold holders at hholders
  refine ⟨?_, rfl, ?_, fun other => ?_, fun other => ?_⟩
  · simp only [holders, LockUse.destroy, InodeLock.allocate, length_nil, Option.toList_none]
    omega
  · simp only [LockUse.destroy, InodeLock.allocate]
    omega
  · rw [h.uses_destroy hrefs hfrozen other]
    exact Nat.zero_le 1
  · have huses := h.uses_eq_zero hrefs hfrozen other
    have hsleeps := h.sleeps other
    simp only [uses, LockUse.destroy, InodeLock.allocate, count_nil, Option.toList_none]
      at huses ⊢
    omega

end

lemma ecLockUnfreeze (hmem : fop ∈ s.releasing) : (s.ecLockUnfreeze fop).Counted := by
  have hunfrozen := h.unfreeze hmem
  unfold LockUse.ecLockUnfreeze
  dsimp only
  split_ifs with hwaiting hzero
  · exact hunfrozen.wake
  · exact hunfrozen.destroy hzero rfl
  · exact hunfrozen

end Counted

/-! ### Phases -/

/-- Who has the lock, and who waits for it. -/
structure View where
  owner : Option Nat
  release : Bool
  timer : Option Nat
  waiting : List Nat
  frozen : List Nat
  running : List Nat
  finishing : List Nat
  releasing : List Nat

/-- The state without the counters. -/
def view (s : LockUse) : View :=
  ⟨s.lock.owner, s.lock.release, s.lock.timer, s.lock.waiting, s.lock.frozen, s.running,
    s.finishing, s.releasing⟩

/-- No operation is between `ec_lock` and `ec_unlock` (1761), or waits to be. -/
structure View.Idle (v : View) : Prop where
  owner : v.owner = none
  waiting : v.waiting = []
  running : v.running = []
  finishing : v.finishing = []

/-- The lock is not used, except by its timer, or one operation releases it, or it is in use. -/
inductive Phase (v : View) : Prop where
  | unused (idle : v.Idle) (releasing : v.releasing = []) (release : v.release = false)
      (frozen : v.frozen = [])
  | released (idle : v.Idle) (fop : Nat) (releasing : v.releasing = [fop])
      (release : v.release = true) (timer : v.timer = none)
  | inUse (releasing : v.releasing = []) (timer : v.timer = none)
      (owner : v.running = v.owner.toList) (busy : v.running ≠ [] ∨ v.finishing ≠ [])
      (waiting : v.waiting ≠ [] → v.running ≠ []) (frozen : v.frozen ≠ [] → v.release = true)

namespace Phase

lemma release_of_timer (h : Phase s.view) (htimer : s.lock.timer.isSome) :
    s.lock.release = false := by
  have hsome : s.view.timer ≠ none := isSome_iff_ne_none.mp htimer
  cases h with
  | unused idle releasing release => exact release
  | released idle last releasing release timer | inUse releasing timer => exact absurd timer hsome

/-- A lock that is to be released has an operation that will do it. -/
lemma busy_of_release (h : Phase s.view) (hrelease : s.lock.release) :
    0 < s.running.length + s.finishing.length + s.releasing.length := by
  cases h with
  | unused idle releasing release => exact absurd (release.symm.trans hrelease) Bool.false_ne_true
  | released idle last releasing =>
    rw [show s.releasing = [last] from releasing, length_singleton]
    omega
  | inUse releasing timer owner busy =>
    rcases busy with hrunning | hfinishing
    · have := length_pos_iff.mpr hrunning
      simp only [view] at this
      omega
    · have := length_pos_iff.mpr hfinishing
      simp only [view] at this
      omega

lemma ecLock (h : Phase s.view) (fop : Nat) : Phase (s.ecLock fop).view := by
  unfold LockUse.ecLock
  rw [InodeLock.enter_eq]
  dsimp only
  cases h with
  | unused idle releasing release frozen =>
    have howner : s.lock.owner = none := idle.owner
    have hrelease : s.lock.release = false := release
    have hrunning : s.running = [] := idle.running
    simp only [howner, hrelease, false_eq_true]
    refine .inUse releasing rfl ?_ (.inl (cons_ne_nil fop s.running))
      (fun _ => cons_ne_nil fop s.running) fun hne => absurd frozen hne
    simp [view, hrunning]
  | released idle last releasing release timer =>
    have hrelease : s.lock.release := release
    simp only [hrelease, Bool.or_true]
    exact .released ⟨idle.owner, idle.waiting, idle.running, idle.finishing⟩ last releasing rfl rfl
  | inUse releasing timer owner busy waiting frozen =>
    have hrunning : s.running = s.lock.owner.toList := owner
    split_ifs with hqueue hrelease
    · exact .inUse releasing rfl owner busy waiting fun _ => hrelease
    · have howner : s.lock.owner.isSome := by
        simpa [hrelease] using hqueue
      refine .inUse releasing rfl owner busy (fun _ => ?_) frozen
      obtain ⟨holder, hholder⟩ := isSome_iff_exists.mp howner
      simp [view, hrunning, hholder]
    · have hfree : s.lock.owner = none ∧ s.lock.release = false := by
        simpa using hqueue
      refine .inUse releasing rfl ?_ (.inl (cons_ne_nil fop s.running))
        (fun _ => cons_ne_nil fop s.running) frozen
      simp [view, hrunning, hfree.1, toList_none]

private lemma wake_running (hrunning : s.running = []) (howner : s.lock.owner = none) :
    s.wake.running = s.wake.lock.owner.toList := by
  simp only [wake, InodeLock.next, hrunning, howner]
  cases s.lock.waiting <;> rfl

private lemma wake_running_ne_nil (hwaiting : s.lock.waiting ≠ []) : s.wake.running ≠ [] := by
  obtain ⟨first, rest, heq⟩ := exists_cons_of_ne_nil hwaiting
  simp [wake, heq]

variable (h : Phase s.view)
include h

/-- A lock that some operation has got is in use. -/
lemma ecLockReuse (hmem : fop ∈ s.running) (release : Bool) :
    s.lock.owner = some fop ∧ Phase (s.ecLockReuse fop release).view := by
  cases h with
  | unused idle | released idle =>
    exact absurd ((show s.running = [] from idle.running) ▸ hmem) not_mem_nil
  | inUse releasing timer owner busy waiting frozen =>
    have hrunning : s.running = s.lock.owner.toList := owner
    have howner : s.lock.owner = some fop := by
      rwa [hrunning, Option.mem_toList] at hmem
    refine ⟨howner, ?_⟩
    have herase : s.running.erase fop = [] := by
      rw [hrunning, howner, toList_some, erase_cons_head]
    refine .inUse releasing timer (wake_running herase rfl)
      (.inr (cons_ne_nil fop s.finishing)) (fun hne => ?_) fun hne => ?_
    · refine wake_running_ne_nil fun hnil => hne ?_
      exact congrArg List.tail hnil
    · exact or_eq_true_iff.mpr (.inl (frozen hne))

lemma ecUnlockTimerAdd (hc : s.Counted) (hmem : fop ∈ s.finishing) (delay : Bool) :
    s.lock.timer = none ∧ Phase (s.ecUnlockTimerAdd fop delay).view := by
  cases h with
  | unused idle | released idle =>
    exact absurd ((show s.finishing = [] from idle.finishing) ▸ hmem) not_mem_nil
  | inUse releasing timer owner busy waiting frozen =>
    have htimer : s.lock.timer = none := timer
    have hreleasing : s.releasing = [] := releasing
    have hrunning : s.running = s.lock.owner.toList := owner
    have hlen := length_erase_add hmem
    have hrefs := hc.refs
    have hinserted := hc.inserted
    simp only [holders, htimer, hreleasing, toList_none] at hrefs
    refine ⟨htimer, ?_⟩
    unfold LockUse.ecUnlockTimerAdd
    dsimp only
    split_ifs with hmore hacquired hdelay
    · refine .inUse releasing timer owner ?_ waiting frozen
      by_contra hidle
      obtain ⟨hnone, hempty⟩ := not_or.mp hidle
      have hrun : s.running = [] := not_not.mp hnone
      have hwait : s.lock.waiting = [] := by
        by_contra hne
        exact waiting hne hrun
      have hfin : s.finishing.erase fop = [] := not_not.mp hempty
      simp only [hrun, hwait, length_nil] at hrefs
      simp only [hfin, length_nil] at hlen
      omega
    all_goals
      have hrun : s.running = [] := eq_nil_of_length_eq_zero (by omega)
      have hwait : s.lock.waiting = [] := eq_nil_of_length_eq_zero (by omega)
      have hfin : s.finishing.erase fop = [] := eq_nil_of_length_eq_zero (by omega)
      have howner : s.lock.owner = none := by
        rwa [hrunning, toList_eq_nil_iff] at hrun
    · have hkept : s.lock.release = false := by
        simpa using (and_eq_true_iff.mp hdelay).1
      refine .unused ⟨howner, hwait, hrun, hfin⟩ releasing hkept ?_
      by_contra hne
      exact Bool.false_ne_true (hkept.symm.trans (frozen hne))
    · exact .released ⟨howner, hwait, hrun, hfin⟩ fop (congrArg (fop :: ·) hreleasing) rfl timer
    · exact .released ⟨howner, hwait, hrun, hfin⟩ fop (congrArg (fop :: ·) hreleasing) rfl timer

/-- A lock with a timer is not used. -/
lemma ecUnlockTimerDel (htimer : s.lock.timer = some fop) :
    s.holders = s.prepared.length + 1 ∧ Phase (s.ecUnlockTimerDel fop).view := by
  have hsome : s.view.timer ≠ none := by
    rw [show s.view.timer = some fop from htimer]
    exact some_ne_none fop
  cases h with
  | unused idle releasing release frozen =>
    have hreleasing : s.releasing = [] := releasing
    constructor
    · simp [holders, htimer, hreleasing, show s.running = [] from idle.running,
        show s.finishing = [] from idle.finishing, show s.lock.waiting = [] from idle.waiting,
        length_cons]
    · unfold LockUse.ecUnlockTimerDel InodeLock.timerDel
      rw [if_pos (by rw [htimer, isSome_some])]
      exact .released ⟨idle.owner, rfl, idle.running, idle.finishing⟩ fop
        (congrArg (fop :: ·) hreleasing) rfl rfl
  | released idle last releasing release timer | inUse releasing timer => exact absurd timer hsome

/-- The first frozen operation becomes the owner. -/
lemma ecLockUnfreeze (hmem : fop ∈ s.releasing) :
    (s.lock.waiting = [] ∧ s.lock.owner = none) ∧ s.holders = s.prepared.length + 1 ∧
      Phase (s.ecLockUnfreeze fop).view := by
  cases h with
  | unused idle releasing | inUse releasing =>
    rw [show s.releasing = [] from releasing] at hmem
    exact absurd hmem not_mem_nil
  | released idle last releasing release timer =>
    have hreleasing : s.releasing = [last] := releasing
    have hwaiting : s.lock.waiting = [] := idle.waiting
    have hrunning : s.running = [] := idle.running
    obtain rfl : fop = last := by
      rwa [hreleasing, mem_singleton] at hmem
    refine ⟨⟨hwaiting, idle.owner⟩, ?_, ?_⟩
    · simp [holders, hreleasing, hwaiting, hrunning, show s.lock.timer = none from timer,
        show s.finishing = [] from idle.finishing, length_cons]
    have herase : s.releasing.erase fop = [] := by
      rw [hreleasing, erase_cons_head]
    unfold LockUse.ecLockUnfreeze
    dsimp only
    split_ifs with hfrozen hzero
    · have hnext := wake_running_ne_nil hfrozen
      exact .inUse herase timer (wake_running hrunning idle.owner) (.inl hnext) (fun _ => hnext)
        fun hne => absurd rfl hne
    · exact .unused ⟨rfl, rfl, idle.running, idle.finishing⟩ herase rfl rfl
    · exact .unused ⟨idle.owner, not_not.mp hfrozen, idle.running, idle.finishing⟩ herase rfl rfl

end Phase

end LockUse

end TagItGluster.Ec
