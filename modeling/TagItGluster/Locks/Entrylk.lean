import TagItGluster.Locks.Inodelk

/-!
# Entry locks of a domain

An entry lock is on a name in a directory, or on the whole directory. The lists of a domain are
handled as those of its inode locks are; a read and a write lock do not differ in their conflicts,
an unlock also compares the type, and tries the blocked locks again even where it finds nothing.
Line numbers: `xlators/features/locks/src/entrylk.c`.
-/

namespace TagItGluster.Locks

open Base

/-- `entrylk_type`. -/
inductive EntrylkType where
  | rdlck
  | wrlck
deriving DecidableEq

/-- `pl_entry_lock_t`. A lock without a name is on the whole directory. -/
structure EntryLock (κ ο ν : Type) where
  client : Option κ
  owner : ο
  basename : Option ν
  type : EntrylkType
deriving DecidableEq

/-- The entry locks of a `pl_dom_list_t`: `entrylk_list` and `blocked_entrylks`. -/
abbrev EntrylkDom (κ ο ν : Type) := Table (EntryLock κ ο ν)

variable {κ ο ν : Type} [DecidableEq κ] [DecidableEq ο] [DecidableEq ν]

/-- `names_conflict` (95). -/
def namesConflict : Option ν → Option ν → Bool
  | none, _ => true
  | _, none => true
  | some n₁, some n₂ => n₁ = n₂

/-- `names_equal` (176). -/
def namesEqual : Option ν → Option ν → Bool
  | none, none => true
  | some n₁, some n₂ => n₁ = n₂
  | _, _ => false

/-- `__same_entrylk_owner` (102). -/
def sameEntrylkOwner (l₁ l₂ : EntryLock κ ο ν) : Bool :=
  l₁.owner = l₂.owner && l₁.client = l₂.client

private lemma namesConflict_comm (n₁ n₂ : Option ν) :
    namesConflict n₁ n₂ = namesConflict n₂ n₁ := by
  cases n₁ with
  | none => cases n₂ <;> rfl
  | some n₁ =>
    cases n₂ with
    | none => rfl
    | some n₂ => simp [namesConflict, eq_comm]

/-- The conflicts and owners of entry locks. -/
def entrylks (κ ο ν : Type) [DecidableEq κ] [DecidableEq ο] [DecidableEq ν] :
    Policy (EntryLock κ ο ν) where
  conflict l₁ l₂ := namesConflict l₂.basename l₁.basename
  same l₁ l₂ := sameEntrylkOwner l₂ l₁
  conflict_comm _ _ := namesConflict_comm _ _
  same_refl l := by simp [sameEntrylkOwner]
  same_comm l₁ l₂ := by simp only [sameEntrylkOwner, eq_comm]

/-- `__lock_entrylk` (356): what it returns, and the domain behind it. -/
def lockEntrylk (lock : EntryLock κ ο ν) (nonblock : Bool) (dom : EntrylkDom κ ο ν) :
    Int × EntrylkDom κ ο ν :=
  let r := dom.request (entrylks κ ο ν) lock !nonblock
  (if r.1 then 0 else -eagain, r.2)

/-- The test of `__find_matching_lock` (331). -/
def matchesEntrylk (lock tmp : EntryLock κ ο ν) : Bool :=
  namesEqual lock.basename tmp.basename && sameEntrylkOwner lock tmp && lock.type = tmp.type

/-- `__unlock_entrylk` (423): the lock found, and the domain without it. -/
def unlockEntrylk (lock : EntryLock κ ο ν) (dom : EntrylkDom κ ο ν) :
    Option (EntryLock κ ο ν) × EntrylkDom κ ο ν :=
  (dom.granted.find? (matchesEntrylk lock), dom.release (matchesEntrylk lock))

/-- `__grant_blocked_entry_locks` (468): the locks granted, and the domain behind it. -/
def grantBlockedEntryLocks (dom : EntrylkDom κ ο ν) : List (EntryLock κ ο ν) × EntrylkDom κ ο ν :=
  dom.grantWaiting (entrylks κ ο ν)

/-- `entrylk_cmd`. -/
inductive EntrylkCmd where
  | lock
  | unlock
  | lockNb

/-- `pl_common_entrylk` (535), with nothing in between: `op_ret` and `op_errno`, and the domain. -/
def plCommonEntrylk (cmd : EntrylkCmd) (reqlock : EntryLock κ ο ν) (dom : EntrylkDom κ ο ν) :
    (Int × Int) × EntrylkDom κ ο ν :=
  match cmd with
  | .unlock =>
    let r := unlockEntrylk reqlock dom
    (if r.1.isSome then (0, 0) else (-1, einval), (grantBlockedEntryLocks r.2).2)
  | .lock => locked (lockEntrylk reqlock false dom)
  | .lockNb => locked (lockEntrylk reqlock true dom)
where
  locked (r : Int × EntrylkDom κ ο ν) : (Int × Int) × EntrylkDom κ ο ν :=
    (if r.1 = 0 then (0, 0) else (-1, -r.1), r.2)

/-- A request for a domain. -/
abbrev EntrylkRequest (κ ο ν : Type) := EntrylkCmd × EntryLock κ ο ν

/-- A request from its beginning to its end. -/
def entrylkStep (req : EntrylkRequest κ ο ν) (dom : EntrylkDom κ ο ν) : EntrylkDom κ ο ν :=
  (plCommonEntrylk req.1 req.2 dom).2

/-- A domain without locks. -/
def emptyEntrylkDom : EntrylkDom κ ο ν := ⟨[], []⟩

/-- Granted locks are in peace, and nothing is blocked for no reason. -/
structure EntrylkInv (dom : EntrylkDom κ ο ν) : Prop where
  peaceful : dom.Peaceful (entrylks κ ο ν)
  queued : dom.Queued (entrylks κ ο ν)

private lemma entrylkInv_step (req : EntrylkRequest κ ο ν) (dom : EntrylkDom κ ο ν)
    (h : EntrylkInv dom) : EntrylkInv (entrylkStep req dom) := by
  have hlock : ∀ nonblock, EntrylkInv (lockEntrylk req.2 nonblock dom).2 := fun nonblock =>
    ⟨Table.request_peaceful h.peaceful, Table.request_queued h.queued⟩
  obtain ⟨cmd, lock⟩ := req
  cases cmd with
  | lock => exact hlock false
  | lockNb => exact hlock true
  | unlock =>
    exact ⟨Table.grantWaiting_peaceful (Table.release_peaceful h.peaceful),
      Table.grantWaiting_queued _ _⟩

/-- Whatever requests come, granted locks of different owners do not conflict by name, and every
blocked lock conflicts with a granted lock or with a lock that is blocked in front of it. -/
theorem entrylk_exclusive_queued (requests : List (EntrylkRequest κ ο ν)) :
    let dom := runAll entrylkStep requests emptyEntrylkDom
    (∀ l₁ ∈ dom.granted, ∀ l₂ ∈ dom.granted,
        sameEntrylkOwner l₁ l₂ = false → namesConflict l₁.basename l₂.basename = false) ∧
      ∀ pre l post, dom.waiting = pre ++ l :: post →
        (∃ l' ∈ dom.granted, sameEntrylkOwner l l' = false ∧
          namesConflict l.basename l'.basename = true) ∨
          ∃ l' ∈ pre, namesConflict l.basename l'.basename = true := by
  have hinit : EntrylkInv (emptyEntrylkDom : EntrylkDom κ ο ν) := by
    refine ⟨fun l hl => absurd hl List.not_mem_nil, fun pre l post h => ?_⟩
    simp [emptyEntrylkDom] at h
  obtain ⟨hpeaceful, hqueued⟩ := runAll_always entrylkStep EntrylkInv entrylkInv_step requests hinit
  refine ⟨fun l₁ h₁ l₂ h₂ hne => hpeaceful l₂ h₂ l₁ h₁ hne, fun pre l post hsplit => ?_⟩
  rcases hqueued pre l post hsplit with ⟨l', hl', hne, hconf⟩ | ⟨l', hl', hconf⟩
  · rw [(entrylks κ ο ν).same_comm] at hne
    rw [(entrylks κ ο ν).conflict_comm] at hconf
    exact .inl ⟨l', hl', hne, hconf⟩
  · rw [(entrylks κ ο ν).conflict_comm] at hconf
    exact .inr ⟨l', hl', hconf⟩

end TagItGluster.Locks
