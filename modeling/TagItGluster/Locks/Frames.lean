import TagItGluster.Base.Workers
import TagItGluster.Locks.Inodelk

/-!
# Frames and references of inode locks

Requests and cleanups of clients run in threads of their own. What a thread does while it holds a
mutex is one step, and so is each frame that it unwinds without one; between these, other threads
may do anything. A lock has a reference for the list that it is in, and one for each thread that is
going to drop it. A blocked request has a frame, which is unwound by the pass that grants it or by
the cleanup that takes it out of its list. Line numbers: `xlators/features/locks/src/inodelk.c`.
-/

namespace TagItGluster.Locks

open Base List Function

variable {κ ο δ : Type}

/-- The domains of all inodes, the clients' lists of their locks, the references and frames of the
locks, and a history of what has been allocated, blocked, unwound and freed. `cleaned` has the
number of locks that had been allocated when a cleanup had gone through the list of its client. -/
structure LockHeap (κ ο δ : Type) where
  dom : δ → InodelkDom κ ο δ
  lockers : κ → List (InodeLock κ ο δ)
  ctxLocked : κ → Bool
  ref : InodeLock κ ο δ → Int
  frame : InodeLock κ ο δ → Bool
  next : Nat
  created : List (InodeLock κ ο δ)
  blocked : List (InodeLock κ ο δ)
  unwound : List (InodeLock κ ο δ)
  freed : List (InodeLock κ ο δ)
  cleaned : List (κ × Nat)

/-- What a thread has to do next: a request; a cleanup, with the lists of the locks it has taken out
so far; and the parts of a grant pass. -/
inductive LockAction (κ ο δ : Type) where
  | setlk (req : InodeLock κ ο δ) (canBlock : Bool)
  | cleanup (client : κ)
  | release (client : κ) (released unwind : List (InodeLock κ ο δ))
  | unwindBlocked (l : InodeLock κ ο δ)
  | grant (d : δ)
  | unwindGranted (l : InodeLock κ ο δ)
  | unrefGranted (ls : List (InodeLock κ ο δ))
  | unref (l : InodeLock κ ο δ)
deriving DecidableEq

namespace LockHeap

variable [DecidableEq κ] [DecidableEq ο] [DecidableEq δ]

/-- `new_inode_lock` (624), which takes a reference. -/
def create (lock : InodeLock κ ο δ) (s : LockHeap κ ο δ) : LockHeap κ ο δ :=
  { s with
    ref := update s.ref lock 1
    frame := update s.frame lock true
    next := s.next + 1
    created := s.created ++ [lock] }

/-- `__pl_inodelk_ref` (33). -/
def refLock (l : InodeLock κ ο δ) (s : LockHeap κ ο δ) : LockHeap κ ο δ :=
  { s with ref := update s.ref l (s.ref l + 1) }

/-- `__pl_inodelk_unref` (39). -/
def unrefLock (l : InodeLock κ ο δ) (s : LockHeap κ ο δ) : LockHeap κ ο δ :=
  { s with
    ref := update s.ref l (s.ref l - 1)
    freed := if s.ref l - 1 = 0 then s.freed ++ [l] else s.freed }

/-- `lock->frame = NULL`. -/
def clearFrame (l : InodeLock κ ο δ) (s : LockHeap κ ο δ) : LockHeap κ ο δ :=
  { s with frame := update s.frame l false }

/-- `STACK_UNWIND_STRICT` of the frame of a lock, which does nothing without a frame. -/
def unwindFrame (l : InodeLock κ ο δ) (s : LockHeap κ ο δ) : LockHeap κ ο δ :=
  if s.frame l then { s with unwound := s.unwound ++ [l] } else s

/-- The lists of a domain are changed. -/
def setDom (d : δ) (t : InodelkDom κ ο δ) (s : LockHeap κ ο δ) : LockHeap κ ο δ :=
  { s with dom := update s.dom d t }

/-- The lock is added to the list of its client, if there is one. -/
def addLocker (l : InodeLock κ ο δ) (s : LockHeap κ ο δ) : LockHeap κ ο δ :=
  { s with lockers := fun c => if l.client = some c then s.lockers c ++ [l] else s.lockers c }

/-- `list_del_init (&l->client_list)`. -/
def dropLocker (l : InodeLock κ ο δ) (s : LockHeap κ ο δ) : LockHeap κ ο δ :=
  { s with lockers := fun c => if l.client = some c then (s.lockers c).erase l else s.lockers c }

/-- The request stays blocked. -/
def noteBlocked (l : InodeLock κ ο δ) (s : LockHeap κ ο δ) : LockHeap κ ο δ :=
  { s with blocked := s.blocked ++ [l] }

/-- The locked section of `pl_inode_setlk` for a lock. -/
def lockSection (lock : InodeLock κ ο δ) (canBlock : Bool) (s : LockHeap κ ο δ) : LockHeap κ ο δ :=
  let r := lockInodelk lock canBlock (s.dom lock.domain)
  let s := s.setDom lock.domain r.2
  if r.1 = 0 then (((s.refLock lock).clearFrame lock).addLocker lock).unrefLock lock
  else if canBlock then (s.addLocker lock).noteBlocked lock
  else s.unrefLock lock

/-- The locked section of `pl_inode_setlk` for an unlock. If it succeeds, a grant pass follows. -/
def unlockSection (lock : InodeLock κ ο δ) (s : LockHeap κ ο δ) :
    List (LockAction κ ο δ) × LockHeap κ ο δ :=
  match inodeUnlockLock lock (s.dom lock.domain) with
  | none => ([], s.unrefLock lock)
  | some (retlock, dom) =>
    ([.grant lock.domain],
      (((s.setDom lock.domain dom).dropLocker retlock).unrefLock retlock).unrefLock lock)

/-- `pl_inode_setlk` (513) for a new lock, up to the end of its locked section. -/
def setlkSection (req : InodeLock κ ο δ) (canBlock : Bool) (s : LockHeap κ ο δ) :
    List (LockAction κ ο δ) × LockHeap κ ο δ :=
  let lock := { req with id := s.next }
  if lock.flType ≠ .unlck then ([], (s.create lock).lockSection lock canBlock)
  else (s.create lock).unlockSection lock

/-- The rest of `grant_blocked_inode_locks` (352): the frames of the locks granted are unwound
without the mutex, and then their references as blocked locks are dropped. -/
def finishGrant (granted : List (InodeLock κ ο δ)) : List (LockAction κ ο δ) :=
  granted.map .unwindGranted ++ [.unrefGranted granted]

/-- The first locked section of `grant_blocked_inode_locks`. -/
def grantSection (d : δ) (s : LockHeap κ ο δ) : List (LockAction κ ο δ) × LockHeap κ ο δ :=
  let r := grantBlockedInodeLocks (s.dom d)
  (finishGrant r.1, r.1.foldl (fun s l => s.refLock l) (s.setDom d r.2))

/-- The rest of `pl_inodelk_client_cleanup`: the frames of the locks that were blocked are unwound,
and for each lock there is a grant pass before its reference is dropped. -/
def finishCleanup (released unwind : List (InodeLock κ ο δ)) : List (LockAction κ ο δ) :=
  unwind.map .unwindBlocked ++ (released ++ unwind).flatMap fun l => [.grant l.domain, .unref l]

/-- The loop of `pl_inodelk_client_cleanup` under `ctx->lock`: the next lock of the client is taken
out of the list it is in, if there is one. -/
def releaseSection (c : κ) (released unwind : List (InodeLock κ ο δ)) (s : LockHeap κ ο δ) :
    List (LockAction κ ο δ) × LockHeap κ ο δ :=
  match s.lockers c with
  | [] =>
    (finishCleanup released unwind, { s with
        ctxLocked := update s.ctxLocked c false
        cleaned := s.cleaned ++ [(c, s.next)] })
  | l :: _ =>
    let t := s.dom l.domain
    if l ∈ t.granted then
      ([.release c (released ++ [l]) unwind],
        (s.setDom l.domain { t with granted := t.granted.erase l }).dropLocker l)
    else
      ([.release c released (unwind ++ [l])],
        (s.setDom l.domain { t with waiting := t.waiting.erase l }).dropLocker l)

/-- A thread does the next thing. A request and a cleanup of a client wait for `ctx->lock`. -/
def exec : LockAction κ ο δ → LockHeap κ ο δ → Option (List (LockAction κ ο δ) × LockHeap κ ο δ)
  | .setlk req canBlock, s =>
    if req.client.any s.ctxLocked then none else some (s.setlkSection req canBlock)
  | .cleanup c, s =>
    if s.ctxLocked c then none
    else some ([.release c [] []], { s with ctxLocked := update s.ctxLocked c true })
  | .release c released unwind, s => some (s.releaseSection c released unwind)
  | .unwindBlocked l, s => some ([], s.unwindFrame l)
  | .grant d, s => some (s.grantSection d)
  | .unwindGranted l, s => some ([], (s.unwindFrame l).clearFrame l)
  | .unrefGranted ls, s => some ([], ls.foldl (fun s l => s.unrefLock l) s)
  | .unref l, s => some ([], s.unrefLock l)

/-- No locks, and nothing has happened. -/
def empty : LockHeap κ ο δ where
  dom _ := emptyInodelkDom
  lockers _ := []
  ctxLocked _ := false
  ref _ := 0
  frame _ := false
  next := 0
  created := []
  blocked := []
  unwound := []
  freed := []
  cleaned := []

end LockHeap

/-- A call into the translator: a request or a cleanup. -/
inductive LockCall (κ ο δ : Type) where
  | setlk (req : InodeLock κ ο δ) (canBlock : Bool)
  | cleanup (client : κ)

/-- What a thread that runs a call has to do at first. -/
def LockCall.todo : LockCall κ ο δ → List (LockAction κ ο δ)
  | .setlk req canBlock => [.setlk req canBlock]
  | .cleanup c => [.cleanup c]

/-- Threads for some calls, before any of them has begun. -/
def startCalls (calls : List (LockCall κ ο δ)) [DecidableEq κ] [DecidableEq ο] [DecidableEq δ] :
    Workers (LockAction κ ο δ) (LockHeap κ ο δ) :=
  ⟨calls.map LockCall.todo, LockHeap.empty⟩

variable [DecidableEq κ] [DecidableEq ο] [DecidableEq δ]

namespace LockAction

/-- How many references to a lock the thread is going to drop. -/
def refs (l : InodeLock κ ο δ) : LockAction κ ο δ → Nat
  | .release _ released unwind => released.count l + unwind.count l
  | .unrefGranted ls => ls.count l
  | .unref l' => [l'].count l
  | _ => 0

/-- How often the thread is going to unwind the frame of a lock. -/
def owes (l : InodeLock κ ο δ) : LockAction κ ο δ → Nat
  | .release _ _ unwind => unwind.count l
  | .unwindBlocked l' | .unwindGranted l' => [l'].count l
  | _ => 0

end LockAction

namespace LockHeap

variable (s : LockHeap κ ο δ) (l : InodeLock κ ο δ)

/-- How often the lock is in the granted list of its domain. -/
def granted : Nat := (s.dom l.domain).granted.count l

/-- How often the lock is in the blocked list of its domain. -/
def waiting : Nat := (s.dom l.domain).waiting.count l

/-- The account of one lock. There is a reference for each list it is in and for each one in the
hands of a thread; it has been freed when there are none. A request that blocked is blocked still,
or its frame is in the hands of a thread, or has been unwound. -/
structure Account (granted waiting refs owed : Nat) (ref : Int)
    (created blocked unwound freed : Nat) : Prop where
  ref_eq : ref = (granted + waiting + refs : Nat)
  live : 0 < granted + waiting + refs → freed = 0 ∧ created = 1
  dead : granted + waiting + refs = 0 → freed = created
  unwound_add : unwound + (waiting + owed) = blocked
  blocked_le : blocked ≤ created
  created_le : created ≤ 1

/-- All accounts are in order, with `R` references and `O` frames in the hands of threads. -/
structure Balanced (s : LockHeap κ ο δ) (R O : InodeLock κ ο δ → Nat) : Prop where
  account : ∀ l, Account (s.granted l) (s.waiting l) (R l) (O l) (s.ref l)
    (s.created.count l) (s.blocked.count l) (s.unwound.count l) (s.freed.count l)
  frame : ∀ l, 0 < s.waiting l + O l → s.frame l = true
  ids : ∀ l, 0 < s.created.count l → l.id < s.next
  domain : ∀ d l, l.domain ≠ d → (s.dom d).granted.count l = 0 ∧ (s.dom d).waiting.count l = 0
  lockers : ∀ c l, (s.lockers c).count l =
    if l.client = some c then s.granted l + s.waiting l else 0
  cleaned : ∀ p ∈ s.cleaned, p.2 ≤ s.next ∧
    ∀ l, l.client = some p.1 → 0 < s.granted l + s.waiting l → p.2 ≤ l.id

variable {s} {l} {R O : InodeLock κ ο δ → Nat} {x : InodeLock κ ο δ}

lemma one_self : [x].count x = 1 := count_singleton_self

lemma one_other (h : l ≠ x) : [x].count l = 0 :=
  count_eq_zero_of_not_mem (by simpa using h)

private lemma of_one (h : 0 < [x].count l) : l = x := by
  by_contra hl
  rw [one_other hl] at h
  exact absurd h (lt_irrefl 0)

lemma count_cons_one (x : InodeLock κ ο δ) (ls : List (InodeLock κ ο δ)) :
    (x :: ls).count l = [x].count l + ls.count l := by
  rw [← count_append]
  rfl

private lemma count_erase_one {ls : List (InodeLock κ ο δ)} (hx : x ∈ ls)
    (l : InodeLock κ ο δ) : (ls.erase x).count l + [x].count l = ls.count l := by
  by_cases hl : l = x
  · subst hl
    have := count_pos_iff.mpr hx
    rw [count_erase_self, one_self]
    omega
  · rw [count_erase_of_ne hl, one_other hl, add_zero]

private lemma ref_refLock (s : LockHeap κ ο δ) (x l : InodeLock κ ο δ) :
    (s.refLock x).ref l = s.ref l + [x].count l := by
  simp only [refLock]
  by_cases hl : l = x
  · rw [hl, update_self, one_self]
    rfl
  · rw [update_of_ne hl, one_other hl, Int.natCast_zero, add_zero]

private lemma ref_unrefLock (s : LockHeap κ ο δ) (x l : InodeLock κ ο δ) :
    (s.unrefLock x).ref l = s.ref l - [x].count l := by
  simp only [unrefLock]
  by_cases hl : l = x
  · rw [hl, update_self, one_self]
    rfl
  · rw [update_of_ne hl, one_other hl, Int.natCast_zero, sub_zero]

lemma foldl_refLock (ls : List (InodeLock κ ο δ)) (s : LockHeap κ ο δ) :
    ls.foldl (fun s l => s.refLock l) s = { s with ref := fun l => s.ref l + ls.count l } := by
  induction ls generalizing s with
  | nil => simp
  | cons x ls ih =>
    rw [foldl_cons, ih]
    have href : (fun l => (s.refLock x).ref l + ls.count l) =
        fun l => s.ref l + (x :: ls).count l := by
      funext l
      rw [ref_refLock, count_cons_one x ls, Int.natCast_add, add_assoc]
    rw [href]
    rfl

section

/-- Locks move between the lists of a domain, by `dg l` and `dw l` for the lock `l`. -/
structure Moves (s : LockHeap κ ο δ) (d : δ) (t : InodelkDom κ ο δ)
    (dg dw : InodeLock κ ο δ → Int) : Prop where
  granted : ∀ l, (t.granted.count l : Int) = (s.dom d).granted.count l + dg l
  waiting : ∀ l, (t.waiting.count l : Int) = (s.dom d).waiting.count l + dw l
  other : ∀ l, l.domain ≠ d → dg l = 0 ∧ dw l = 0

variable {d : δ} {t : InodelkDom κ ο δ} {dg dw : InodeLock κ ο δ → Int}

section

variable (hm : s.Moves d t dg dw)
include hm

lemma Moves.granted_eq (l : InodeLock κ ο δ) :
    ((s.setDom d t).granted l : Int) = s.granted l + dg l := by
  simp only [LockHeap.granted, setDom]
  by_cases hl : l.domain = d
  · rw [hl, update_self]
    exact hm.granted l
  · rw [update_of_ne hl, (hm.other l hl).1, add_zero]

lemma Moves.waiting_eq (l : InodeLock κ ο δ) :
    ((s.setDom d t).waiting l : Int) = s.waiting l + dw l := by
  simp only [LockHeap.waiting, setDom]
  by_cases hl : l.domain = d
  · rw [hl, update_self]
    exact hm.waiting l
  · rw [update_of_ne hl, (hm.other l hl).2, add_zero]

variable (h : s.Balanced R O)
include h

/-- Locks stay in the lists of their domains. -/
lemma Moves.domain (d' : δ) (l : InodeLock κ ο δ) (hl : l.domain ≠ d') :
    ((s.setDom d t).dom d').granted.count l = 0 ∧
      ((s.setDom d t).dom d').waiting.count l = 0 := by
  simp only [setDom]
  by_cases hd : d' = d
  · subst hd
    rw [update_self]
    have hold := h.domain d' l hl
    have hg := hm.granted l
    have hw := hm.waiting l
    have hother := hm.other l hl
    omega
  · rw [update_of_ne hd]
    exact h.domain d' l hl

/-- The lists of the clients follow those of the domains. -/
lemma Moves.lockers {lockers : κ → List (InodeLock κ ο δ)}
    (hls : ∀ c l, ((lockers c).count l : Int) =
      (s.lockers c).count l + if l.client = some c then dg l + dw l else 0) (c : κ)
    (l : InodeLock κ ο δ) : (lockers c).count l =
      if l.client = some c then (s.setDom d t).granted l + (s.setDom d t).waiting l else 0 := by
  have hold := h.lockers c l
  have hnew := hls c l
  have hg := hm.granted_eq l
  have hw := hm.waiting_eq l
  split_ifs at hold hnew ⊢ <;> omega

/-- Nothing that was there when a cleanup had gone through its list can turn up in one later. -/
lemma Moves.cleaned (hle : ∀ l, 0 < dg l + dw l → ∀ p ∈ s.cleaned, p.2 ≤ l.id) (p : κ × Nat)
    (hp : p ∈ s.cleaned) :
    p.2 ≤ s.next ∧ ∀ l, l.client = some p.1 →
      0 < (s.setDom d t).granted l + (s.setDom d t).waiting l → p.2 ≤ l.id := by
  refine ⟨(h.cleaned p hp).1, fun l hc hl => ?_⟩
  have hg := hm.granted_eq l
  have hw := hm.waiting_eq l
  by_cases hpos : 0 < dg l + dw l
  · exact hle l hpos p hp
  · exact (h.cleaned p hp).2 l hc (by omega)

end

private lemma count_addLocker (c : κ) {l : InodeLock κ ο δ} {n : Int} (hn : n = [x].count l) :
    (((s.addLocker x).lockers c).count l : Int) =
      (s.lockers c).count l + if l.client = some c then n else 0 := by
  rw [hn]
  simp only [addLocker]
  by_cases hl : l = x
  · subst hl
    split
    · rw [count_append, Int.natCast_add]
    · exact (Int.add_zero _).symm
  · rw [one_other hl, Int.natCast_zero, ite_self, Int.add_zero]
    split
    · rw [count_append, one_other hl, add_zero]
    · rfl

private lemma count_dropLocker (h : ∀ c, x.client = some c → x ∈ s.lockers c) (c : κ)
    (l : InodeLock κ ο δ) : ((s.dropLocker x).lockers c).count l +
      (if l.client = some c then [x].count l else 0) = (s.lockers c).count l := by
  simp only [dropLocker]
  by_cases hl : l = x
  · subst hl
    split
    · next hc => exact count_erase_one (h c hc) l
    · rfl
  · rw [one_other hl, ite_self, add_zero]
    split
    · rw [count_erase_of_ne hl]
    · rfl

end

namespace Balanced

section

variable (h : s.Balanced R O)
include h

lemma of_eq {R' O' : InodeLock κ ο δ → Nat} (hR : ∀ l, R l = R' l) (hO : ∀ l, O l = O' l) :
    s.Balanced R' O' :=
  funext hR ▸ funext hO ▸ h

/-- A lock that is yet to be allocated has no account. -/
lemma fresh (hid : l.id = s.next) :
    s.granted l = 0 ∧ s.waiting l = 0 ∧ R l = 0 ∧ O l = 0 ∧ s.created.count l = 0 ∧
      s.freed.count l = 0 ∧ s.blocked.count l = 0 ∧ s.unwound.count l = 0 := by
  have hcreated : s.created.count l = 0 := by
    by_contra hc
    have := h.ids l (by omega)
    omega
  obtain ⟨-, hlive, hdead, hunwound, hblocked, -⟩ := h.account l
  omega

lemma create (hid : x.id = s.next) : (s.create x).Balanced (fun l => R l + [x].count l) O := by
  refine ⟨fun l => ?_, fun l hl => ?_, fun l hl => ?_, h.domain, h.lockers, fun p hp => ?_⟩
  · show Account (s.granted l) (s.waiting l) _ (O l) (update s.ref x 1 l)
      ((s.created ++ [x]).count l) (s.blocked.count l) (s.unwound.count l) (s.freed.count l)
    rw [count_append]
    by_cases hl : l = x
    · subst hl
      obtain ⟨hg, hw, hR, hO, hc, hf, hb, hu⟩ := h.fresh hid
      rw [hg, hw, hR, hO, hc, hf, hb, hu]
      constructor <;> simp
    · rw [update_of_ne hl, one_other hl]
      exact h.account l
  · show update s.frame x true l = true
    by_cases hlx : l = x
    · rw [hlx, update_self]
    · rw [update_of_ne hlx]
      exact h.frame l hl
  · show l.id < s.next + 1
    by_cases hlx : l = x
    · rw [hlx]
      omega
    · have hc : 0 < (s.created ++ [x]).count l := hl
      rw [count_append, one_other hlx] at hc
      have := h.ids l hc
      omega
  · exact ⟨Nat.le_succ_of_le (h.cleaned p hp).1, (h.cleaned p hp).2⟩

end

section

variable {d : δ} {t : InodelkDom κ ο δ} {dg dw : InodeLock κ ο δ → Int}

section

variable (h : s.Balanced (fun l => R l + [x].count l) O)
include h

/-- A lock in the hands of its request is granted. -/
lemma enterGranted (hm : s.Moves d t (fun l => [x].count l) (fun _ => 0))
    (hx : s.waiting x + O x = 0) (hid : ∀ p ∈ s.cleaned, p.2 ≤ x.id) :
    ((((s.setDom d t).refLock x).clearFrame x).addLocker x).Balanced
      (fun l => R l + [x].count l) O := by
  refine ⟨fun l => ?_, fun l hl => ?_, h.ids, hm.domain h, hm.lockers h fun c l => ?_,
    hm.cleaned h fun l hl => ?_⟩
  · show Account ((s.setDom d t).granted l) ((s.setDom d t).waiting l) _ _ ((s.refLock x).ref l)
      (s.created.count l) (s.blocked.count l) (s.unwound.count l) (s.freed.count l)
    have hg := hm.granted_eq l
    have hw := hm.waiting_eq l
    have href := ref_refLock s x l
    obtain ⟨_, _, _, _, _, _⟩ := h.account l
    constructor <;> omega
  · have hw := hm.waiting_eq l
    have hold : 0 < s.waiting l + O l := by
      have : 0 < (s.setDom d t).waiting l + O l := hl
      omega
    show update s.frame x false l = true
    rw [update_of_ne (by rintro rfl; omega)]
    exact h.frame l hold
  · exact count_addLocker c (by omega)
  · obtain rfl : l = x := of_one (by omega)
    exact hid

/-- A lock in the hands of its request is left in the blocked list, with its frame. -/
lemma enterWaiting (hm : s.Moves d t (fun _ => 0) (fun l => [x].count l))
    (hx : s.blocked.count x = 0) (hframe : s.frame x) (hid : ∀ p ∈ s.cleaned, p.2 ≤ x.id) :
    (((s.setDom d t).addLocker x).noteBlocked x).Balanced R O := by
  refine ⟨fun l => ?_, fun l hl => ?_, h.ids, hm.domain h, hm.lockers h fun c l => ?_,
    hm.cleaned h fun l hl => ?_⟩
  · show Account ((s.setDom d t).granted l) ((s.setDom d t).waiting l) _ _ (s.ref l)
      (s.created.count l) ((s.blocked ++ [x]).count l) (s.unwound.count l) (s.freed.count l)
    rw [count_append]
    have hg := hm.granted_eq l
    have hw := hm.waiting_eq l
    have hone : 0 < [x].count l → s.blocked.count l = 0 := fun hl => of_one hl ▸ hx
    have hle : [x].count l ≤ 1 := count_le_length
    obtain ⟨_, _, _, _, _, _⟩ := h.account l
    constructor <;> omega
  · by_cases hlx : l = x
    · exact hlx ▸ hframe
    · have hw := hm.waiting_eq l
      rw [one_other hlx] at hw
      exact h.frame l (by have : 0 < (s.setDom d t).waiting l + O l := hl; omega)
  · exact count_addLocker c (by omega)
  · obtain rfl : l = x := of_one (by omega)
    exact hid

end

/-- A lock is taken out of the list it is in, and its frame with it if it is blocked. -/
lemma leave {O' : InodeLock κ ο δ → Nat} (h : s.Balanced R O) (hm : s.Moves d t dg dw)
    (hx : ∀ l, dg l + dw l = -[x].count l) (hO : ∀ l, (O' l : Int) = O l - dw l) :
    ((s.setDom d t).dropLocker x).Balanced (fun l => R l + [x].count l) O' := by
  have hin : ∀ c, x.client = some c → x ∈ s.lockers c := by
    intro c hc
    have hg := hm.granted_eq x
    have hw := hm.waiting_eq x
    have hone := hx x
    have hold := h.lockers c x
    rw [one_self] at hone
    rw [if_pos hc] at hold
    exact count_pos_iff.mp (by omega)
  refine ⟨fun l => ?_, fun l hl => ?_, h.ids, hm.domain h, hm.lockers h fun c l => ?_,
    hm.cleaned h fun l hl => ?_⟩
  · show Account ((s.setDom d t).granted l) ((s.setDom d t).waiting l) _ _ (s.ref l)
      (s.created.count l) (s.blocked.count l) (s.unwound.count l) (s.freed.count l)
    have hg := hm.granted_eq l
    have hw := hm.waiting_eq l
    have hone := hx l
    have hOl := hO l
    obtain ⟨_, _, _, _, _, _⟩ := h.account l
    constructor <;> omega
  · have hw := hm.waiting_eq l
    have hOl := hO l
    exact h.frame l (by have : 0 < (s.setDom d t).waiting l + O' l := hl; omega)
  · have := count_dropLocker (s := s.setDom d t) hin c l
    have hone := hx l
    show ((((s.setDom d t).dropLocker x).lockers c).count l : Int) =
      ((s.setDom d t).lockers c).count l + _
    split_ifs at this ⊢ <;> omega
  · have hone := hx l
    omega

/-- Blocked locks are granted by a pass, which has their frames and a reference to each then. -/
lemma pass {gs : List (InodeLock κ ο δ)} (h : s.Balanced R O)
    (hm : s.Moves d t (fun l => gs.count l) (fun l => -gs.count l)) :
    (gs.foldl (fun s l => s.refLock l) (s.setDom d t)).Balanced
      (fun l => R l + gs.count l) (fun l => O l + gs.count l) := by
  rw [foldl_refLock]
  refine ⟨fun l => ?_, fun l hl => ?_, h.ids, hm.domain h, hm.lockers h fun c l => ?_,
    hm.cleaned h fun l hl => ?_⟩
  · show Account ((s.setDom d t).granted l) ((s.setDom d t).waiting l) _ _ (s.ref l + gs.count l)
      (s.created.count l) (s.blocked.count l) (s.unwound.count l) (s.freed.count l)
    have hg := hm.granted_eq l
    have hw := hm.waiting_eq l
    obtain ⟨_, _, _, _, _, _⟩ := h.account l
    constructor <;> omega
  · have hw := hm.waiting_eq l
    exact h.frame l (by have : 0 < (s.setDom d t).waiting l + (O l + gs.count l) := hl; omega)
  · show ((s.lockers c).count l : Int) = (s.lockers c).count l + _
    rw [Int.add_right_neg, ite_self, add_zero]
  · omega

end

/-- A thread drops a reference; the lock is freed if it was the last one. -/
lemma unref (h : s.Balanced (fun l => R l + [x].count l) O) : (s.unrefLock x).Balanced R O := by
  refine ⟨fun l => ?_, h.frame, h.ids, h.domain, h.lockers, h.cleaned⟩
  show Account (s.granted l) (s.waiting l) (R l) (O l) ((s.unrefLock x).ref l) (s.created.count l)
    (s.blocked.count l) (s.unwound.count l) ((if s.ref x - 1 = 0 then _ else _ : List _).count l)
  rw [ref_unrefLock]
  obtain ⟨_, _, _, _, _, _⟩ := h.account l
  by_cases hl : l = x
  · subst hl
    rw [one_self] at *
    split
    · rw [count_append, one_self]
      constructor <;> omega
    · constructor <;> omega
  · rw [one_other hl] at *
    have hsame : (if s.ref x - 1 = 0 then s.freed ++ [x] else s.freed).count l =
        s.freed.count l := by
      split
      · rw [count_append, one_other hl, add_zero]
      · rfl
    constructor <;> omega

private lemma unrefAll {ls : List (InodeLock κ ο δ)} (h : s.Balanced (fun l => R l + ls.count l) O)
    : (ls.foldl (fun s l => s.unrefLock l) s).Balanced R O := by
  induction ls generalizing s with
  | nil => exact h
  | cons x ls ih =>
    refine ih (unref (h.of_eq (fun l => ?_) fun _ => rfl))
    rw [count_cons_one x ls]
    omega

private lemma unwind (h : s.Balanced R (fun l => O l + [x].count l)) :
    (s.unwindFrame x).Balanced R O := by
  have hframe : s.frame x := h.frame x (by rw [one_self]; omega)
  rw [unwindFrame, if_pos hframe]
  refine ⟨fun l => ?_, fun l hl => ?_, h.ids, h.domain, h.lockers, h.cleaned⟩
  · show Account (s.granted l) (s.waiting l) (R l) (O l) (s.ref l) (s.created.count l)
      (s.blocked.count l) ((s.unwound ++ [x]).count l) (s.freed.count l)
    rw [count_append]
    obtain ⟨_, _, _, _, _, _⟩ := h.account l
    constructor <;> omega
  · exact h.frame l (lt_of_lt_of_le hl (by simp only [waiting]; omega))

/-- A frame that nobody has to unwind can be forgotten. -/
lemma forget (h : s.Balanced R O) (hx : s.waiting x + O x = 0) :
    (s.clearFrame x).Balanced R O := by
  refine ⟨h.account, fun l hl => ?_, h.ids, h.domain, h.lockers, h.cleaned⟩
  have hold : 0 < s.waiting l + O l := hl
  show update s.frame x false l = true
  rw [update_of_ne (by rintro rfl; omega)]
  exact h.frame l hold

end Balanced

private lemma sum_one (ls : List (InodeLock κ ο δ)) (l : InodeLock κ ο δ) :
    (ls.map fun x => [x].count l).sum = ls.count l := by
  induction ls with
  | nil => rfl
  | cons x ls ih => rw [map_cons, sum_cons, ih, count_cons_one x ls]

private lemma sum_finishGrant (gs : List (InodeLock κ ο δ)) (l : InodeLock κ ο δ) :
    ((finishGrant gs).map (LockAction.refs l)).sum = gs.count l ∧
      ((finishGrant gs).map (LockAction.owes l)).sum = gs.count l := by
  have hrefs : LockAction.refs l ∘ .unwindGranted = fun _ => 0 := rfl
  have howes : LockAction.owes l ∘ .unwindGranted = fun x => [x].count l := rfl
  simp only [finishGrant, map_append, map_map, hrefs, howes, sum_append, sum_one,
    map_cons, LockAction.refs, LockAction.owes]
  simp

private lemma sum_finishCleanup (released unwind : List (InodeLock κ ο δ)) (l : InodeLock κ ο δ) :
    ((finishCleanup released unwind).map (LockAction.refs l)).sum =
        released.count l + unwind.count l ∧
      ((finishCleanup released unwind).map (LockAction.owes l)).sum = unwind.count l := by
  have hrefs : LockAction.refs l ∘ .unwindBlocked = fun _ => 0 := rfl
  have howes : LockAction.owes l ∘ .unwindBlocked = fun x => [x].count l := rfl
  have hflat : ∀ (f : LockAction κ ο δ → Nat) (g : InodeLock κ ο δ → Nat)
      (ls : List (InodeLock κ ο δ)), (∀ x, f (.grant x.domain) + f (.unref x) = g x) →
      ((ls.flatMap fun x => [.grant x.domain, .unref x]).map f).sum = (ls.map g).sum := by
    intro f g ls hfg
    induction ls with
    | nil => rfl
    | cons x ls ih => simp [ih, ← hfg, add_assoc]
  simp only [finishCleanup, map_append, map_map, hrefs, howes, sum_append, sum_one]
  rw [hflat (LockAction.refs l) (fun x => [x].count l) _ fun x => zero_add _, sum_one,
    hflat (LockAction.owes l) (fun _ => 0) _ fun x => rfl]
  simp

variable {d : δ}

lemma moves_grant (s : LockHeap κ ο δ) (x : InodeLock κ ο δ) : s.Moves x.domain
      { s.dom x.domain with granted := x :: (s.dom x.domain).granted }
      (fun l => [x].count l) (fun _ => 0) where
  granted l := by rw [count_cons_one, Int.natCast_add, add_comm]
  waiting l := (add_zero _).symm
  other l hl := ⟨by rw [one_other (by rintro rfl; exact hl rfl)]; rfl, rfl⟩

lemma moves_block (s : LockHeap κ ο δ) (x : InodeLock κ ο δ) : s.Moves x.domain
      { s.dom x.domain with waiting := (s.dom x.domain).waiting ++ [x] }
      (fun _ => 0) (fun l => [x].count l) where
  granted l := (add_zero _).symm
  waiting l := by rw [count_append, Int.natCast_add]
  other l hl := ⟨rfl, by rw [one_other (by rintro rfl; exact hl rfl)]; rfl⟩

lemma moves_unlock {lock retlock : InodeLock κ ο δ} (h : s.Balanced R O)
    (hfind : (s.dom d).granted.find? (matchesInodelk lock) = some retlock) :
    s.Moves d ((s.dom d).release (matchesInodelk lock)) (fun l => -[retlock].count l)
      (fun _ => 0) where
  granted l := by
    have := Table.release_count hfind l
    omega
  waiting l := (add_zero _).symm
  other l hl := by
    have hcount := Table.release_count hfind l
    have hold := (h.domain d l hl).1
    exact ⟨by omega, rfl⟩

lemma moves_pass (h : s.Balanced R O) (d : δ) : s.Moves d (grantBlockedInodeLocks (s.dom d)).2
      (fun l => (grantBlockedInodeLocks (s.dom d)).1.count l)
      (fun l => -(grantBlockedInodeLocks (s.dom d)).1.count l) where
  granted l := by
    have := (Table.grantWaiting_count (inodelks κ ο δ) (s.dom d) l).1
    exact_mod_cast this
  waiting l := by
    have := (Table.grantWaiting_count (inodelks κ ο δ) (s.dom d) l).2
    simp only [grantBlockedInodeLocks]
    omega
  other l hl := by
    have hcount := (Table.grantWaiting_count (inodelks κ ο δ) (s.dom d) l).2
    have hold := (h.domain d l hl).2
    simp only [grantBlockedInodeLocks]
    omega

/-- What a request does: its lock is granted, or it is blocked, or its reference is dropped. -/
lemma lockSection_cases (s : LockHeap κ ο δ) (x : InodeLock κ ο δ) (canBlock : Bool) :
    s.lockSection x canBlock = ((((s.setDom x.domain
        { s.dom x.domain with granted := x :: (s.dom x.domain).granted }).refLock x).clearFrame
          x).addLocker x).unrefLock x ∨
      s.lockSection x canBlock = ((s.setDom x.domain
        { s.dom x.domain with waiting := (s.dom x.domain).waiting ++ [x] }).addLocker
          x).noteBlocked x ∨
      s.lockSection x canBlock = s.unrefLock x := by
  unfold lockSection lockInodelk
  rcases Table.request_cases (inodelks κ ο δ) x canBlock (s.dom x.domain) with
    ⟨-, heq⟩ | ⟨-, heq⟩
  · rw [heq]
    exact .inl rfl
  rw [heq]
  cases canBlock with
  | true => exact .inr (.inl rfl)
  | false =>
    have hsame : s.setDom x.domain (s.dom x.domain) = s := by
      simp [setDom]
    exact .inr (.inr (congrArg (unrefLock x) hsame))

/-- What an unlock does: nothing, or it takes out a lock and starts a grant pass. -/
lemma unlockSection_cases (s : LockHeap κ ο δ) (x : InodeLock κ ο δ) :
    s.unlockSection x = ([], s.unrefLock x) ∨
      ∃ retlock, (s.dom x.domain).granted.find? (matchesInodelk x) = some retlock ∧
        s.unlockSection x = ([.grant x.domain], (((s.setDom x.domain
          ((s.dom x.domain).release (matchesInodelk x))).dropLocker retlock).unrefLock
            retlock).unrefLock x) := by
  unfold unlockSection inodeUnlockLock
  cases (s.dom x.domain).granted.find? (matchesInodelk x) with
  | none => exact .inl rfl
  | some retlock => exact .inr ⟨retlock, rfl, rfl⟩

section

variable (h : s.Balanced (fun l => R l + [x].count l) O)
include h

/-- The lock of a request enters a list, or is freed. -/
lemma lockSection_balanced (hw : s.waiting x + O x = 0) (hb : s.blocked.count x = 0)
    (hframe : s.frame x) (hid : ∀ p ∈ s.cleaned, p.2 ≤ x.id) (canBlock : Bool) :
    (s.lockSection x canBlock).Balanced R O := by
  rcases lockSection_cases s x canBlock with heq | heq | heq
  · rw [heq]
    exact (h.enterGranted (moves_grant s x) hw hid).unref
  · rw [heq]
    exact h.enterWaiting (moves_block s x) hb hframe hid
  · rw [heq]
    exact h.unref

/-- An unlock takes out the lock that it finds. Its own lock is freed. -/
lemma unlockSection_balanced : (s.unlockSection x).2.Balanced R O := by
  rcases unlockSection_cases s x with heq | ⟨retlock, hfind, heq⟩
  · rw [heq]
    exact h.unref
  · rw [heq]
    have hleft := h.leave (moves_unlock h hfind) (fun l => add_zero _)
      fun l => (sub_zero _).symm
    exact hleft.unref.unref

end

/-- A request leaves all accounts in order. -/
lemma setlkSection_balanced (h : s.Balanced R O) (req : InodeLock κ ο δ) (canBlock : Bool) :
    (s.setlkSection req canBlock).2.Balanced R O := by
  have hnew := h.create (x := { req with id := s.next }) rfl
  simp only [setlkSection]
  split
  · obtain ⟨hg, hw, hR, hO, -, -, hb, -⟩ := h.fresh (l := { req with id := s.next }) rfl
    refine lockSection_balanced hnew ?_ hb (update_self ..) (fun p hp => (h.cleaned p hp).1) _
    exact Nat.add_eq_zero_iff.mpr ⟨hw, hO⟩
  · exact unlockSection_balanced hnew

/-- All that may be left to do for a request is a grant pass. -/
lemma setlkSection_todo (req : InodeLock κ ο δ) (canBlock : Bool) (s : LockHeap κ ο δ) :
    (s.setlkSection req canBlock).1 = [] ∨
      (s.setlkSection req canBlock).1 = [.grant req.domain] := by
  simp only [setlkSection]
  split
  · exact .inl rfl
  · rcases unlockSection_cases (s.create { req with id := s.next }) { req with id := s.next } with
      heq | ⟨retlock, -, heq⟩
    · exact .inl (congrArg Prod.fst heq)
    · exact .inr (congrArg Prod.fst heq)

lemma moves_erase_granted (s : LockHeap κ ο δ) (hx : x ∈ (s.dom x.domain).granted) :
    s.Moves x.domain { s.dom x.domain with granted := (s.dom x.domain).granted.erase x }
      (fun l => -[x].count l) (fun _ => 0) where
  granted l := by
    have := count_erase_one hx l
    show (((s.dom x.domain).granted.erase x).count l : Int) = _
    omega
  waiting l := (add_zero _).symm
  other l hl := ⟨by rw [one_other (by rintro rfl; exact hl rfl)]; rfl, rfl⟩

lemma moves_erase_waiting (s : LockHeap κ ο δ) (hx : x ∈ (s.dom x.domain).waiting) :
    s.Moves x.domain { s.dom x.domain with waiting := (s.dom x.domain).waiting.erase x }
      (fun _ => 0) (fun l => -[x].count l) where
  granted l := (add_zero _).symm
  waiting l := by
    have := count_erase_one hx l
    show (((s.dom x.domain).waiting.erase x).count l : Int) = _
    omega
  other l hl := ⟨rfl, by rw [one_other (by rintro rfl; exact hl rfl)]; rfl⟩

/-- What a cleanup does: it is through with the list of its client; or it takes a lock out of the
granted list, or out of the blocked list. -/
lemma releaseSection_cases (h : s.Balanced R O) (c : κ) (released unwind : List (InodeLock κ ο δ)) :
    (s.lockers c = [] ∧ s.releaseSection c released unwind = (finishCleanup released unwind,
        { s with
          ctxLocked := update s.ctxLocked c false
          cleaned := s.cleaned ++ [(c, s.next)] })) ∨
      (∃ x ∈ (s.dom x.domain).granted, s.releaseSection c released unwind =
        ([.release c (released ++ [x]) unwind], (s.setDom x.domain
          { s.dom x.domain with granted := (s.dom x.domain).granted.erase x }).dropLocker x)) ∨
      ∃ x ∈ (s.dom x.domain).waiting, s.releaseSection c released unwind =
        ([.release c released (unwind ++ [x])], (s.setDom x.domain
          { s.dom x.domain with waiting := (s.dom x.domain).waiting.erase x }).dropLocker x) := by
  cases hls : s.lockers c with
  | nil => exact .inl ⟨rfl, by simp [releaseSection, hls]⟩
  | cons x rest =>
    by_cases hg : x ∈ (s.dom x.domain).granted
    · exact .inr (.inl ⟨x, hg, by simp [releaseSection, hls, if_pos hg]⟩)
    refine .inr (.inr ⟨x, ?_, by simp [releaseSection, hls, if_neg hg]⟩)
    have hnone : s.granted x = 0 := count_eq_zero_of_not_mem hg
    have hcount := h.lockers c x
    have hpos : 0 < (s.lockers c).count x := by
      rw [hls]
      exact count_pos_iff.mpr mem_cons_self
    have hw : 0 < s.waiting x := by
      split at hcount <;> omega
    exact count_pos_iff.mp hw

/-- A cleanup takes out the next lock of its client; or there are none, and so none in any list
that was allocated before. -/
lemma releaseSection_balanced {released unwind : List (InodeLock κ ο δ)} {c : κ}
    (h : s.Balanced (fun l => R l + LockAction.refs l (.release c released unwind))
      (fun l => O l + LockAction.owes l (.release c released unwind))) :
    (s.releaseSection c released unwind).2.Balanced
      (fun l => R l + ((s.releaseSection c released unwind).1.map (LockAction.refs l)).sum)
      (fun l => O l + ((s.releaseSection c released unwind).1.map (LockAction.owes l)).sum) := by
  rcases releaseSection_cases h c released unwind with
    ⟨hnil, heq⟩ | ⟨x, hg, heq⟩ | ⟨x, hw, heq⟩
  · rw [heq]
    have hclean := h.of_eq (fun l => congrArg _ (sum_finishCleanup released unwind l).1.symm)
      (fun l => congrArg _ (sum_finishCleanup released unwind l).2.symm)
    refine ⟨hclean.account, hclean.frame, hclean.ids, hclean.domain, hclean.lockers, ?_⟩
    intro p hp
    rcases mem_append.mp hp with hp' | hp'
    · exact hclean.cleaned p hp'
    · obtain rfl := mem_singleton.mp hp'
      refine ⟨le_rfl, fun l hl hpos => ?_⟩
      have hgone := h.lockers c l
      rw [hnil, if_pos hl] at hgone
      exact absurd hgone (ne_of_lt hpos)
  · rw [heq]
    refine (h.leave (moves_erase_granted s hg) (fun l => add_zero _)
      fun l => (sub_zero _).symm).of_eq (fun l => ?_) fun l => ?_
    · simp only [LockAction.refs, map_cons, map_nil, sum_cons, sum_nil, count_append]
      omega
    · simp only [LockAction.owes, map_cons, map_nil, sum_cons, sum_nil]
      omega
  · rw [heq]
    have howes : ∀ l,
        ((O l + LockAction.owes l (.release c released (unwind ++ [x])) : Nat) : Int) =
          (O l + LockAction.owes l (.release c released unwind) : Nat) - -[x].count l := fun l => by
      simp only [LockAction.owes, count_append]
      omega
    refine (h.leave (moves_erase_waiting s hw) (fun l => zero_add _) howes).of_eq
      (fun l => ?_) fun l => ?_
    · simp only [LockAction.refs, map_cons, map_nil, sum_cons, sum_nil, count_append]
      omega
    · simp only [map_cons, map_nil, sum_cons, sum_nil]
      omega

/-- A lock that a pass has granted is unwound, and its frame forgotten. -/
lemma unwindGranted_balanced (h : s.Balanced R (fun l => O l + [x].count l)) :
    ((s.unwindFrame x).clearFrame x).Balanced R O := by
  refine h.unwind.forget ?_
  obtain ⟨-, -, -, hunwound, hblocked, hcreated⟩ := h.account x
  rw [one_self] at hunwound
  have hw : (s.unwindFrame x).waiting x = s.waiting x := by
    unfold unwindFrame
    split <;> rfl
  omega

/-- What is done by a thread that need not wait. -/
def turn (s : LockHeap κ ο δ) : LockAction κ ο δ → List (LockAction κ ο δ) × LockHeap κ ο δ
  | .setlk req canBlock => s.setlkSection req canBlock
  | .cleanup c => ([.release c [] []], { s with ctxLocked := update s.ctxLocked c true })
  | .release c released unwind => s.releaseSection c released unwind
  | .unwindBlocked l => ([], s.unwindFrame l)
  | .grant d => s.grantSection d
  | .unwindGranted l => ([], (s.unwindFrame l).clearFrame l)
  | .unrefGranted ls => ([], ls.foldl (fun s l => s.unrefLock l) s)
  | .unref l => ([], s.unrefLock l)

lemma eq_turn {a : LockAction κ ο δ} {r : List (LockAction κ ο δ) × LockHeap κ ο δ}
    (ha : exec a s = some r) : r = s.turn a := by
  cases a with
  | setlk | cleanup =>
    simp only [exec] at ha
    split at ha
    · cases ha
    · exact (Option.some.inj ha).symm
  | _ => exact (Option.some.inj ha).symm

/-- Whatever a thread does leaves all accounts in order. -/
lemma turn_balanced (a : LockAction κ ο δ)
    (h : s.Balanced (fun l => R l + LockAction.refs l a) (fun l => O l + LockAction.owes l a)) :
    (s.turn a).2.Balanced (fun l => R l + ((s.turn a).1.map (LockAction.refs l)).sum)
      (fun l => O l + ((s.turn a).1.map (LockAction.owes l)).sum) := by
  cases a with
  | setlk req canBlock =>
    have hs := setlkSection_balanced h req canBlock
    unfold turn
    rcases setlkSection_todo req canBlock s with hmore | hmore <;> rw [hmore] <;> exact hs
  | cleanup c => exact ⟨h.account, h.frame, h.ids, h.domain, h.lockers, h.cleaned⟩
  | release c released unwind => exact releaseSection_balanced h
  | unwindBlocked l => exact h.unwind
  | grant d =>
    exact (h.pass (moves_pass h d)).of_eq (fun l => congrArg _ (sum_finishGrant _ l).1.symm)
      fun l => congrArg _ (sum_finishGrant _ l).2.symm
  | unwindGranted l => exact unwindGranted_balanced h
  | unrefGranted ls => exact h.unrefAll
  | unref l => exact h.unref

end LockHeap

end TagItGluster.Locks
