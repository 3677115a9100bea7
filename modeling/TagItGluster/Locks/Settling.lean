import TagItGluster.Locks.Frames

/-!
# Threads of inode lock requests come to rest

Whatever a thread does, less is left to do afterwards, if every lock in a list counts for what a
cleanup or a grant pass might have to do for it. A thread that waits does so for a cleanup that has
`ctx->lock` and can go on. So the threads come to rest, and then every frame of a blocked request
has been unwound once, and every lock been freed once, except for those still in the lists.
-/

namespace TagItGluster.Locks

open Base List Function

variable {κ ο δ : Type}

namespace LockAction

/-- What a thread may have to do before it is done with this, if locks in lists count extra. -/
def weight : LockAction κ ο δ → Nat
  | .setlk _ _ => 7
  | .cleanup _ => 2
  | .release _ released unwind => 1 + 3 * released.length + 4 * unwind.length
  | .grant _ => 2
  | _ => 1

/-- What a thread only does after something else. -/
def later : LockAction κ ο δ → Bool
  | .setlk _ _ | .cleanup _ | .release _ _ _ => false
  | _ => true

end LockAction

namespace LockHeap

private lemma weight_finishCleanup (released unwind : List (InodeLock κ ο δ)) :
    ((finishCleanup released unwind).map LockAction.weight).sum =
      3 * released.length + 4 * unwind.length := by
  have hflat : ∀ ls : List (InodeLock κ ο δ), ((ls.flatMap fun l =>
      [LockAction.grant l.domain, LockAction.unref l]).map LockAction.weight).sum =
        3 * ls.length := by
    intro ls
    induction ls with
    | nil => rfl
    | cons l ls ih =>
      rw [flatMap_cons, map_append, sum_append]
      simp only [map_cons, map_nil, sum_cons, sum_nil, LockAction.weight, length_cons]
      omega
  have hunwind : (LockAction.weight : LockAction κ ο δ → Nat) ∘ .unwindBlocked = fun _ => 1 := rfl
  rw [finishCleanup, map_append, sum_append, hflat, map_map, hunwind,
    map_const', sum_replicate_nat, length_append]
  omega

private lemma weight_finishGrant (gs : List (InodeLock κ ο δ)) :
    ((finishGrant gs).map LockAction.weight).sum = gs.length + 1 := by
  have hunwind : (LockAction.weight : LockAction κ ο δ → Nat) ∘ .unwindGranted = fun _ => 1 := rfl
  rw [finishGrant, map_append, sum_append, map_map, hunwind, map_const', sum_replicate_nat, mul_one]
  rfl

variable {a : LockAction κ ο δ}

private lemma mem_finishGrant_later {gs : List (InodeLock κ ο δ)} (ha : a ∈ finishGrant gs) :
    a.later = true := by
  rcases mem_append.mp ha with hm | hm
  · obtain ⟨l, -, rfl⟩ := mem_map.mp hm
    rfl
  · obtain rfl := mem_singleton.mp hm
    rfl

private lemma mem_finishCleanup_later {released unwind : List (InodeLock κ ο δ)}
    (ha : a ∈ finishCleanup released unwind) : a.later = true := by
  rcases mem_append.mp ha with hm | hm
  · obtain ⟨l, -, rfl⟩ := mem_map.mp hm
    rfl
  · obtain ⟨l, -, hl⟩ := mem_flatMap.mp hm
    rcases mem_pair.mp hl with rfl | rfl <;> rfl

end LockHeap

variable [DecidableEq κ] [DecidableEq ο] [DecidableEq δ]

namespace LockAction

/-- The cleanup of a client that has `ctx->lock`. -/
def holds (c : κ) : LockAction κ ο δ → Nat
  | .release c' _ _ => if c' = c then 1 else 0
  | _ => 0

/-- The cleanup of a client that has not gone through its list. -/
def cleans (c : κ) : LockAction κ ο δ → Nat
  | .cleanup c' | .release c' _ _ => if c' = c then 1 else 0
  | _ => 0

end LockAction

namespace LockHeap

variable {s : LockHeap κ ο δ} {R O : InodeLock κ ο δ → Nat} {x : InodeLock κ ο δ}

/-- What threads may have to do for the locks in lists. -/
def listed (s : LockHeap κ ο δ) : Nat :=
  (s.created.map fun l => 5 * s.granted l + 6 * s.waiting l).sum

section

variable {d : δ} {t : InodelkDom κ ο δ} {dg dw : InodeLock κ ο δ → Int}
  {ls : List (InodeLock κ ο δ)}

private lemma sum_count_singleton (xs : List (InodeLock κ ο δ)) (x : InodeLock κ ο δ) :
    (xs.map fun l => [x].count l).sum = xs.count x := by
  induction xs with
  | nil => rfl
  | cons y xs ih =>
    rw [map_cons, sum_cons, ih, count_cons_one y xs]
    by_cases hy : y = x
    · rw [hy]
    · rw [one_other hy, one_other (Ne.symm hy)]

/-- Locks that have been allocated once are counted once. -/
lemma sum_count {xs : List (InodeLock κ ο δ)} (h : ∀ x ∈ ls, xs.count x = 1) :
    (xs.map fun l => ls.count l).sum = ls.length := by
  induction ls with
  | nil => simp
  | cons x ls ih =>
    obtain ⟨hx, hls⟩ := forall_mem_cons.mp h
    simp [count_cons_one x ls, sum_count_singleton, hx, ih hls, add_comm]

/-- What is in the lists changes by the locks that move. -/
lemma listed_setDom (hm : s.Moves d t dg dw) (hls : ∀ x ∈ ls, s.created.count x = 1)
    {k : Int} (hk : ∀ l, 5 * dg l + 6 * dw l = k * ls.count l) :
    ((s.setDom d t).listed : Int) = s.listed + k * ls.length := by
  have hsum : ∀ xs : List (InodeLock κ ο δ),
      ((xs.map fun l => 5 * (s.setDom d t).granted l + 6 * (s.setDom d t).waiting l).sum : Int) =
        (xs.map fun l => 5 * s.granted l + 6 * s.waiting l).sum +
          k * (xs.map fun l => ls.count l).sum := by
    intro xs
    induction xs with
    | nil => simp
    | cons l xs ih =>
      have hg := hm.granted_eq l
      have hw := hm.waiting_eq l
      have hkl := hk l
      simp only [map_cons, sum_cons, Int.natCast_add, Int.mul_add]
      omega
  rw [← sum_count hls]
  exact hsum s.created

/-- What is in the lists when a lock has left one. -/
lemma listed_leave (h : s.Balanced R O) (hm : s.Moves d t dg dw)
    (hx : ∀ l, dg l + dw l = -[x].count l) {k : Int}
    (hk : ∀ l, 5 * dg l + 6 * dw l = k * [x].count l) :
    ((s.setDom d t).listed : Int) = s.listed + k := by
  have hcreated : ∀ y ∈ [x], s.created.count y = 1 := by
    intro y hy
    rw [mem_singleton.mp hy]
    have hg := hm.granted_eq x
    have hw := hm.waiting_eq x
    have hone := hx x
    rw [one_self] at hone
    exact ((h.account x).live (by omega)).2
  have := listed_setDom hm hcreated hk
  rw [length_singleton] at this
  omega

private lemma listed_create (h : s.Balanced R O) (hid : x.id = s.next) :
    (s.create x).listed = s.listed := by
  obtain ⟨hg, hw, -⟩ := h.fresh hid
  show ((s.created ++ [x]).map fun l => 5 * s.granted l + 6 * s.waiting l).sum = _
  rw [map_append, sum_append, map_singleton, hg, hw]
  rfl

/-- A lock enters a list at the cost of its request. -/
lemma listed_lockSection (h : s.Balanced (fun l => R l + [x].count l) O) (canBlock : Bool) :
    (s.lockSection x canBlock).listed ≤ s.listed + 6 := by
  have hx : ∀ y ∈ [x], s.created.count y = 1 := by
    intro y hy
    rw [mem_singleton.mp hy]
    exact ((h.account x).live (by rw [one_self]; omega)).2
  rcases lockSection_cases s x canBlock with heq | heq | heq
  · have := listed_setDom (moves_grant s x) hx fun l => Int.add_zero _
    rw [heq]
    show (s.setDom x.domain _).listed ≤ _
    rw [length_singleton] at this
    omega
  · have := listed_setDom (moves_block s x) hx fun l => Int.zero_add _
    rw [heq]
    show (s.setDom x.domain _).listed ≤ _
    rw [length_singleton] at this
    omega
  · rw [heq]
    exact Nat.le_add_right s.listed 6

/-- A lock that an unlock takes out pays for the grant pass. -/
lemma listed_unlockSection (h : s.Balanced (fun l => R l + [x].count l) O) :
    (s.unlockSection x).2.listed + ((s.unlockSection x).1.map LockAction.weight).sum ≤
      s.listed := by
  rcases unlockSection_cases s x with heq | ⟨retlock, hfind, heq⟩
  · rw [heq]
    exact le_rfl
  · rw [heq]
    have := listed_leave h (moves_unlock h hfind) (fun l => add_zero _) (k := -5)
      fun l => by omega
    show (s.setDom x.domain _).listed + 2 ≤ s.listed
    omega

/-- A request pays for its lock. -/
lemma setlkSection_weight (h : s.Balanced R O) (req : InodeLock κ ο δ) (canBlock : Bool) :
    (s.setlkSection req canBlock).2.listed +
      ((s.setlkSection req canBlock).1.map LockAction.weight).sum < s.listed + 7 := by
  have hnew := h.create (x := { req with id := s.next }) rfl
  have hlisted := listed_create (x := { req with id := s.next }) h rfl
  simp only [setlkSection]
  split
  · have := listed_lockSection hnew canBlock
    simp only [map_nil, sum_nil]
    omega
  · have := listed_unlockSection hnew
    omega

/-- Locks that a cleanup takes out pay for what it does with them. -/
lemma releaseSection_weight {c : κ} {released unwind : List (InodeLock κ ο δ)}
    (h : s.Balanced R O) :
    (s.releaseSection c released unwind).2.listed +
        ((s.releaseSection c released unwind).1.map LockAction.weight).sum <
      s.listed + LockAction.weight (.release c released unwind : LockAction κ ο δ) := by
  rcases releaseSection_cases h c released unwind with
    ⟨-, heq⟩ | ⟨x, hg, heq⟩ | ⟨x, hw, heq⟩
  · rw [heq]
    show s.listed + ((finishCleanup released unwind).map LockAction.weight).sum < _
    rw [weight_finishCleanup, LockAction.weight]
    omega
  · have := listed_leave h (moves_erase_granted s hg) (fun l => add_zero _) (k := -5)
      fun l => by omega
    rw [heq]
    show (s.setDom x.domain _).listed + _ < _
    dsimp only at this
    simp only [map_cons, map_nil, sum_cons, sum_nil, LockAction.weight,
      length_append, length_singleton]
    omega
  · have := listed_leave h (moves_erase_waiting s hw) (fun l => zero_add _) (k := -6)
      fun l => by omega
    rw [heq]
    show (s.setDom x.domain _).listed + _ < _
    dsimp only at this
    simp only [map_cons, map_nil, sum_cons, sum_nil, LockAction.weight,
      length_append, length_singleton]
    omega

/-- Locks that a pass grants pay for their frames. -/
lemma grantSection_weight (h : s.Balanced R O) (d : δ) :
    (s.grantSection d).2.listed + ((s.grantSection d).1.map LockAction.weight).sum <
      s.listed + 2 := by
  have hcreated : ∀ x ∈ (grantBlockedInodeLocks (s.dom d)).1, s.created.count x = 1 := by
    intro x hx
    have hw := (moves_pass h d).waiting_eq x
    have hpos := count_pos_iff.mpr hx
    exact ((h.account x).live (by omega)).2
  have := listed_setDom (moves_pass h d) hcreated (k := -1) fun l => by omega
  simp only [grantSection]
  rw [foldl_refLock, weight_finishGrant]
  show (s.setDom d _).listed + _ < _
  omega

private lemma listed_unwindFrame (s : LockHeap κ ο δ) (l : InodeLock κ ο δ) :
    (s.unwindFrame l).listed = s.listed := by
  unfold unwindFrame
  split <;> rfl

private lemma listed_unrefAll (ls : List (InodeLock κ ο δ)) (s : LockHeap κ ο δ) :
    (ls.foldl (fun s l => s.unrefLock l) s).listed = s.listed := by
  induction ls generalizing s with
  | nil => rfl
  | cons l ls ih => exact ih (s.unrefLock l)

/-- Whatever a thread does, less is left to do. -/
lemma turn_weight (a : LockAction κ ο δ) (h : s.Balanced R O) :
    (s.turn a).2.listed + ((s.turn a).1.map LockAction.weight).sum < s.listed + a.weight := by
  cases a with
  | setlk req canBlock => exact setlkSection_weight h req canBlock
  | cleanup c => exact Nat.lt_succ_self (s.listed + 1)
  | release c released unwind => exact releaseSection_weight h
  | unwindBlocked l | unwindGranted l => exact Nat.lt_succ_of_le (listed_unwindFrame s l).le
  | grant d => exact grantSection_weight h d
  | unrefGranted ls => exact Nat.lt_succ_of_le (listed_unrefAll ls s).le
  | unref l => exact Nat.lt_succ_self s.listed

end

variable {a : LockAction κ ο δ}

/-- The locks `ctx->lock` and what has been cleaned stay. -/
def Quiet (s s' : LockHeap κ ο δ) : Prop := s'.ctxLocked = s.ctxLocked ∧ s'.cleaned = s.cleaned

/-- Only cleanups have to do with `ctx->lock`. -/
lemma setlkSection_quiet (req : InodeLock κ ο δ) (canBlock : Bool) (s : LockHeap κ ο δ) :
    s.Quiet (s.setlkSection req canBlock).2 := by
  simp only [setlkSection]
  split
  · rcases lockSection_cases (s.create { req with id := s.next }) { req with id := s.next }
      canBlock with heq | heq | heq <;> rw [heq] <;> exact ⟨rfl, rfl⟩
  · rcases unlockSection_cases (s.create { req with id := s.next }) { req with id := s.next } with
      heq | ⟨retlock, -, heq⟩ <;> rw [heq] <;> exact ⟨rfl, rfl⟩

private lemma unrefAll_quiet (ls : List (InodeLock κ ο δ)) (s : LockHeap κ ο δ) :
    s.Quiet (ls.foldl (fun s l => s.unrefLock l) s) := by
  induction ls generalizing s with
  | nil => exact ⟨rfl, rfl⟩
  | cons l ls ih => exact ih (s.unrefLock l)

omit [DecidableEq κ] [DecidableEq ο] [DecidableEq δ] in
private lemma unwindFrame_quiet (l : InodeLock κ ο δ) (s : LockHeap κ ο δ) :
    s.Quiet (s.unwindFrame l) := by
  unfold unwindFrame
  split <;> exact ⟨rfl, rfl⟩

/-- What a thread does: a cleanup begins, goes on, or is through with its list; or `ctx->lock` has
nothing to do with it. -/
lemma turn_cases (a : LockAction κ ο δ) (h : s.Balanced R O) :
    (∃ c, a = .cleanup c) ∨
      (∃ c rs us rs' us', a = .release c rs us ∧ (s.turn a).1 = [.release c rs' us'] ∧
        s.Quiet (s.turn a).2) ∨
      (∃ c rs us, a = .release c rs us ∧ (∀ a' ∈ (s.turn a).1, a'.later) ∧
        (s.turn a).2.ctxLocked = update s.ctxLocked c false ∧
        (s.turn a).2.cleaned = s.cleaned ++ [(c, s.next)]) ∨
      ((∀ c, a.cleans c = 0 ∧ a.holds c = 0) ∧ (∀ a' ∈ (s.turn a).1, a'.later) ∧
        s.Quiet (s.turn a).2) := by
  cases a with
  | setlk req canBlock =>
    refine .inr (.inr (.inr ⟨fun c => ⟨rfl, rfl⟩, ?_, setlkSection_quiet req canBlock s⟩))
    unfold turn
    rcases setlkSection_todo req canBlock s with htodo | htodo <;> rw [htodo]
    · exact forall_mem_nil _
    · exact forall_mem_singleton.mpr rfl
  | cleanup c => exact .inl ⟨c, rfl⟩
  | release c released unwind =>
    dsimp only [turn]
    rcases releaseSection_cases h c released unwind with
      ⟨-, heq⟩ | ⟨x, -, heq⟩ | ⟨x, -, heq⟩ <;> rw [heq]
    · exact .inr (.inr (.inl ⟨c, released, unwind, rfl, fun a' => mem_finishCleanup_later,
        rfl, rfl⟩))
    · exact .inr (.inl ⟨c, released, unwind, _, _, rfl, rfl, rfl, rfl⟩)
    · exact .inr (.inl ⟨c, released, unwind, _, _, rfl, rfl, rfl, rfl⟩)
  | unwindBlocked l | unwindGranted l =>
    exact .inr (.inr (.inr ⟨fun c => ⟨rfl, rfl⟩, forall_mem_nil _, unwindFrame_quiet l s⟩))
  | grant d =>
    refine .inr (.inr (.inr ⟨fun c => ⟨rfl, rfl⟩, fun a' => mem_finishGrant_later, ?_⟩))
    simp only [turn, grantSection, foldl_refLock]
    exact ⟨rfl, rfl⟩
  | unrefGranted ls =>
    exact .inr (.inr (.inr ⟨fun c => ⟨rfl, rfl⟩, forall_mem_nil _, unrefAll_quiet ls s⟩))
  | unref l => exact .inr (.inr (.inr ⟨fun c => ⟨rfl, rfl⟩, forall_mem_nil _, rfl, rfl⟩))

omit [DecidableEq ο] [DecidableEq δ] in
/-- What comes later is no cleanup. -/
lemma sum_later {as : List (LockAction κ ο δ)} (h : ∀ a ∈ as, a.later) (c : κ) :
    (as.map (LockAction.holds c)).sum = 0 ∧ (as.map (LockAction.cleans c)).sum = 0 := by
  have hzero : ∀ a ∈ as, LockAction.holds c a = 0 ∧ LockAction.cleans c a = 0 := by
    intro a ha
    have hlater := h a ha
    cases a <;> first | exact ⟨rfl, rfl⟩ | cases hlater
  refine ⟨sum_eq_zero fun n hn => ?_, sum_eq_zero fun n hn => ?_⟩
  · obtain ⟨a, ha, rfl⟩ := mem_map.mp hn
    exact (hzero a ha).1
  · obtain ⟨a, ha, rfl⟩ := mem_map.mp hn
    exact (hzero a ha).2

/-- A client whose `ctx->lock` is held has a cleanup that holds it. -/
lemma turn_held {c : κ} {n : Nat} (h : s.Balanced R O)
    (hold : s.ctxLocked c → 0 < n + a.holds c) (hc : (s.turn a).2.ctxLocked c) :
    0 < n + ((s.turn a).1.map (LockAction.holds c)).sum := by
  rcases turn_cases a h with ⟨c', rfl⟩ | ⟨c', rs, us, rs', us', rfl, hmore, hctx, -⟩ |
    ⟨c', rs, us, rfl, hlater, hctx, -⟩ | ⟨hzero, hlater, hctx, -⟩
  · by_cases hcc : c' = c
    · simp [turn, LockAction.holds, hcc]
    · have hsame : update s.ctxLocked c' true c := hc
      rw [update_of_ne (Ne.symm hcc)] at hsame
      exact Nat.lt_of_lt_of_le (hold hsame) (Nat.le_add_right n _)
  · rw [hctx] at hc
    rw [hmore]
    exact hold hc
  · rw [(sum_later hlater c).1]
    by_cases hcc : c' = c
    · rw [hctx, hcc, update_self] at hc
      cases hc
    · rw [hctx, update_of_ne (Ne.symm hcc)] at hc
      simpa [LockAction.holds, if_neg hcc] using hold hc
  · rw [(sum_later hlater c).1]
    rw [hctx] at hc
    simpa [(hzero c).2] using hold hc

/-- A cleanup is still to go through its list, or has done so. -/
lemma turn_cleaned (c : κ) (h : s.Balanced R O) :
    ((s.turn a).2.cleaned.map Prod.fst).count c + ((s.turn a).1.map (LockAction.cleans c)).sum =
      (s.cleaned.map Prod.fst).count c + a.cleans c := by
  rcases turn_cases a h with ⟨c', rfl⟩ | ⟨c', rs, us, rs', us', rfl, hmore, -, hcl⟩ |
    ⟨c', rs, us, rfl, hlater, -, hcl⟩ | ⟨hzero, hlater, -, hcl⟩
  · rfl
  · rw [hmore, hcl]
    rfl
  · rw [(sum_later hlater c).2, hcl, map_append, count_append]
    simp only [map_cons, map_nil, count_singleton, beq_iff_eq]
    rfl
  · rw [(sum_later hlater c).2, hcl, (hzero c).1]

/-- What a thread has to do after the first thing comes later. -/
lemma turn_later (a : LockAction κ ο δ) (h : s.Balanced R O) :
    ∀ a' ∈ (s.turn a).1.tail, a'.later = true := by
  rcases turn_cases a h with ⟨c, rfl⟩ | ⟨c, rs, us, rs', us', -, hmore, -⟩ |
    ⟨c, rs, us, -, hlater, -⟩ | ⟨-, hlater, -⟩
  · exact forall_mem_nil _
  · rw [hmore]
    exact forall_mem_nil _
  · exact fun a' ha' => hlater a' (mem_of_mem_tail ha')
  · exact fun a' ha' => hlater a' (mem_of_mem_tail ha')

end LockHeap

section

/-- Threads with requests and cleanups of inode locks. -/
abbrev LockThreads (κ ο δ : Type) := Workers (LockAction κ ο δ) (LockHeap κ ο δ)

/-- What holds of the threads throughout: the accounts are in order, every thread has one thing to
do before what comes later, a `ctx->lock` that is held is held by a cleanup, and each cleanup is
still to go through its list or has done so. -/
structure Settling (calls : List (LockCall κ ο δ)) (w : LockThreads κ ο δ) : Prop where
  balanced : w.state.Balanced (fun l => w.load (LockAction.refs l))
    (fun l => w.load (LockAction.owes l))
  later : ∀ as ∈ w.todo, ∀ a ∈ as.tail, a.later = true
  held : ∀ c, w.state.ctxLocked c = true → 0 < w.load (LockAction.holds c)
  cleaned : ∀ c, (w.state.cleaned.map Prod.fst).count c + w.load (LockAction.cleans c) =
    (startCalls calls).load (LockAction.cleans c)

variable {calls : List (LockCall κ ο δ)} {w : LockThreads κ ο δ}

private lemma empty_balanced : (LockHeap.empty : LockHeap κ ο δ).Balanced (fun _ => 0)
    (fun _ => 0) where
  account l := by constructor <;> simp [LockHeap.empty, LockHeap.granted, LockHeap.waiting,
    emptyInodelkDom]
  frame l hl := absurd hl (lt_irrefl 0)
  ids l hl := absurd hl (lt_irrefl 0)
  domain d l hl := ⟨rfl, rfl⟩
  lockers c l := by
    show 0 = if l.client = some c then 0 + 0 else 0
    rw [ite_self]
  cleaned p hp := absurd hp not_mem_nil

private lemma settling_start (calls : List (LockCall κ ο δ)) :
    Settling calls (startCalls calls) := by
  have hload : ∀ f : LockAction κ ο δ → Nat, (∀ call : LockCall κ ο δ, ∀ a ∈ call.todo, f a = 0) →
      (startCalls calls).load f = 0 := by
    refine fun f hf => Workers.load_eq_zero fun as has a ha => ?_
    obtain ⟨call, -, rfl⟩ := mem_map.mp has
    exact hf call a ha
  refine ⟨?_, fun as has a ha => ?_, fun c hc => absurd hc Bool.false_ne_true, fun c => zero_add _⟩
  · refine empty_balanced.of_eq (fun l => (hload _ fun call a ha => ?_).symm)
      fun l => (hload _ fun call a ha => ?_).symm
    · cases call <;> rw [mem_singleton.mp ha] <;> rfl
    · cases call <;> rw [mem_singleton.mp ha] <;> rfl
  · obtain ⟨call, -, rfl⟩ := mem_map.mp has
    cases call <;> cases ha

private lemma Settling.step (h : Settling calls w) (i : Nat) :
    Settling calls (w.step LockHeap.exec i) := by
  rcases Workers.step_cases LockHeap.exec i w with ⟨-, hsame⟩ | ⟨a, more, s, -, ha, hs, rest, hload⟩
  · rw [hsame]
    exact h
  have hb := h.balanced.of_eq (fun l => (hload _).1) (fun l => (hload _).1)
  obtain rfl : more = (w.state.turn a).1 := congrArg Prod.fst (LockHeap.eq_turn ha)
  obtain rfl : s = (w.state.turn a).2 := congrArg Prod.snd (LockHeap.eq_turn ha)
  refine ⟨?_, ?_, fun c hc => ?_, fun c => ?_⟩
  · rw [hs]
    exact (LockHeap.turn_balanced a hb).of_eq (fun l => (hload _).2.symm) fun l => (hload _).2.symm
  · refine Workers.step_each LockHeap.exec h.later fun a more s rest ha hrest a' ha' => ?_
    have hmore := LockHeap.turn_later a h.balanced
    rw [← LockHeap.eq_turn ha] at hmore
    cases more with
    | nil => exact hrest a' (mem_of_mem_tail ha')
    | cons b more =>
      rcases mem_append.mp ha' with hin | hin
      · exact hmore a' hin
      · exact hrest a' hin
  · rw [(hload _).2]
    refine LockHeap.turn_held hb (fun hc => ?_) (hs ▸ hc)
    rw [← (hload _).1]
    exact h.held c hc
  · have hcl := LockHeap.turn_cleaned (a := a) c hb
    have hold := h.cleaned c
    rw [(hload _).1] at hold
    rw [hs, (hload _).2]
    omega

variable {s : LockHeap κ ο δ} {a : LockAction κ ο δ}

private lemma ctxLocked_of_exec_eq_none (ha : s.exec a = none) : ∃ c, s.ctxLocked c = true := by
  cases a with
  | setlk req canBlock =>
    simp only [LockHeap.exec] at ha
    split at ha
    · next hlocked =>
      obtain ⟨c, -, hc⟩ := (Option.any_eq_true _ _).mp hlocked
      exact ⟨c, hc⟩
    · cases ha
  | cleanup c =>
    simp only [LockHeap.exec] at ha
    split at ha
    · next hlocked => exact ⟨c, hlocked⟩
    · cases ha
  | _ => cases ha

/-- A cleanup that has a `ctx->lock` need not wait. -/
lemma exec_ne_none_of_holds {c : κ} (ha : 0 < a.holds c) : a.later = false ∧ s.exec a ≠ none := by
  cases a with
  | release c' released unwind => exact ⟨rfl, Option.some_ne_none _⟩
  | _ => exact absurd ha (lt_irrefl 0)

/-- Some thread need not wait until all are at rest: the cleanup that has a `ctx->lock` is what its
thread does next. -/
lemma Settling.busy (h : Settling calls w) (hidle : ¬w.Idle) :
    ∃ i < w.todo.length, ∃ a rest, w.todo[i]? = some (a :: rest) ∧ w.state.exec a ≠ none := by
  have hready : ∃ as ∈ w.todo, ∃ a rest, as = a :: rest ∧ w.state.exec a ≠ none := by
    simp only [Workers.Idle, not_forall] at hidle
    obtain ⟨as, has, hne⟩ := hidle
    cases as with
    | nil => exact absurd rfl hne
    | cons a rest =>
      by_cases ha : w.state.exec a = none
      · obtain ⟨c, hc⟩ := ctxLocked_of_exec_eq_none ha
        obtain ⟨as', has', a', ha', hholds⟩ := Workers.load_pos_iff.mp (h.held c hc)
        obtain ⟨hnow, hexec⟩ := exec_ne_none_of_holds hholds
        cases as' with
        | nil => cases ha'
        | cons b rest' =>
          rcases mem_cons.mp ha' with rfl | htail
          · exact ⟨_, has', a', rest', rfl, hexec⟩
          · have hlater := h.later _ has' a' htail
            exact absurd (hnow.symm.trans hlater) Bool.false_ne_true
      · exact ⟨_, has, a, rest, rfl, ha⟩
  obtain ⟨as, has, a, rest, rfl, ha⟩ := hready
  obtain ⟨i, hi⟩ := getElem?_of_mem has
  exact ⟨i, (List.getElem?_eq_some_iff.mp hi).1, a, rest, hi, ha⟩

/-- What is left to do, for the threads and for locks in lists. -/
def leftToDo (w : LockThreads κ ο δ) : Nat := w.state.listed + w.load LockAction.weight

/-- Less is left to do whenever something is done. -/
lemma Settling.leftToDo_lt (h : Settling calls w) (i : Nat) :
    ((∀ a rest, w.todo[i]? = some (a :: rest) → w.state.exec a = none) ∧
        w.step LockHeap.exec i = w) ∨
      leftToDo (w.step LockHeap.exec i) < leftToDo w := by
  rcases Workers.step_cases LockHeap.exec i w with hsame | ⟨a, more, s, -, ha, hs, rest, hload⟩
  · exact .inl hsame
  refine .inr ?_
  have := LockHeap.turn_weight a h.balanced
  rw [← LockHeap.eq_turn ha] at this
  simp only [leftToDo, hs, (hload _).1, (hload _).2]
  dsimp only at this
  omega

/-- The threads come to rest when each has had enough turns. -/
lemma Settling.comes_to_rest (h : Settling calls w) (hn : w.todo.length = calls.length) :
    (runAll (Workers.step LockHeap.exec) (Workers.rounds calls.length (leftToDo w)) w).Idle := by
  refine Workers.idle_of_rounds (Settling calls) leftToDo (fun i w h => h.step i)
    (fun i w h => (h.leftToDo_lt i).imp_left And.right) (fun w h hidle => ?_) h hn le_rfl
  obtain ⟨i, hi, a, rest, hget, ha⟩ := h.busy hidle
  refine ⟨i, hi, fun hsame => ?_⟩
  rcases h.leftToDo_lt i with ⟨hwait, -⟩ | hlt
  · exact ha (hwait a rest hget)
  · rw [hsame] at hlt
    exact lt_irrefl _ hlt

/-- When all threads are at rest, nothing is in their hands. -/
lemma Settling.rest (h : Settling calls w) (hidle : w.Idle) :
    w.state.Balanced (fun _ => 0) (fun _ => 0) :=
  h.balanced.of_eq (fun _ => hidle.load_eq_zero _) fun _ => hidle.load_eq_zero _

private lemma length_run (calls : List (LockCall κ ο δ)) (schedule : List Nat) :
    (runAll (Workers.step LockHeap.exec) schedule (startCalls calls)).todo.length =
      calls.length :=
  runAll_always (Workers.step LockHeap.exec) (fun w => w.todo.length = calls.length)
    (fun i w h => (Workers.length_step LockHeap.exec i w).trans h) schedule
    (length_map _)

/-- A lock is in a list if and only if it is counted there. -/
lemma LockHeap.listed_iff (s : LockHeap κ ο δ) (l : InodeLock κ ο δ) :
    l ∈ (s.dom l.domain).granted ++ (s.dom l.domain).waiting ↔ 0 < s.granted l + s.waiting l := by
  rw [← count_pos_iff, count_append]
  rfl

/-- A lock is in lists of its own domain only. -/
lemma LockHeap.Balanced.domain_of_mem {R O : InodeLock κ ο δ → Nat} {d : δ} {l : InodeLock κ ο δ}
    (h : s.Balanced R O) (hl : l ∈ (s.dom d).granted ++ (s.dom d).waiting) : l.domain = d := by
  by_contra hd
  obtain ⟨hg, hw⟩ := h.domain d l hd
  have hpos := count_pos_iff.mpr hl
  rw [count_append] at hpos
  omega

/-- In whatever order the threads of requests and cleanups run, no frame of a blocked request is
unwound twice and no lock is freed twice; and after a cleanup has gone through the list of its
client, a lock of the client in any list has been set after that. The threads come to rest. When
they have, the frame of each blocked request has been unwound unless it is still blocked, each lock
has been freed unless it is in a list, and each cleanup has gone through the list of its client. -/
theorem frames_refs_settle (calls : List (LockCall κ ο δ)) (schedule : List Nat) :
    let w := runAll (Workers.step LockHeap.exec) schedule (startCalls calls)
    (∀ l, w.state.unwound.count l ≤ 1 ∧ w.state.freed.count l ≤ 1) ∧
      (∀ c n, (c, n) ∈ w.state.cleaned → ∀ d, ∀ l ∈ (w.state.dom d).granted ++
        (w.state.dom d).waiting, l.client = some c → n ≤ l.id) ∧
      (∃ k, (runAll (Workers.step LockHeap.exec) (Workers.rounds calls.length k) w).Idle) ∧
      (w.Idle → (∀ l ∈ w.state.blocked, w.state.unwound.count l =
          if l ∈ (w.state.dom l.domain).waiting then 0 else 1) ∧
        (∀ l ∈ w.state.created, w.state.freed.count l =
          if l ∈ (w.state.dom l.domain).granted ++ (w.state.dom l.domain).waiting then 0 else 1) ∧
        ∀ c, .cleanup c ∈ calls → ∃ n, (c, n) ∈ w.state.cleaned) := by
  intro w
  have h : Settling calls w :=
    runAll_always (Workers.step LockHeap.exec) (Settling calls) (fun i w h => h.step i) schedule
      (settling_start calls)
  refine ⟨fun l => ?_, fun c n hc d l hl hclient => ?_,
    ⟨leftToDo w, h.comes_to_rest (length_run calls schedule)⟩,
    fun hidle => ⟨fun l hl => ?_, fun l hl => ?_, fun c hc => ?_⟩⟩
  · obtain ⟨-, hlive, hdead, _, _, _⟩ := h.balanced.account l
    omega
  · obtain rfl := h.balanced.domain_of_mem hl
    exact (h.balanced.cleaned _ hc).2 l hclient ((w.state.listed_iff l).mp hl)
  · obtain ⟨-, -, -, hunwound, hblocked, hcreated⟩ := (h.rest hidle).account l
    have hin := count_pos_iff.mpr hl
    split
    · next hw =>
      have : 0 < w.state.waiting l := count_pos_iff.mpr hw
      omega
    · next hw =>
      have : w.state.waiting l = 0 := count_eq_zero_of_not_mem hw
      omega
  · obtain ⟨-, hlive, hdead, -, -, hcreated⟩ := (h.rest hidle).account l
    have hin := count_pos_iff.mpr hl
    have hiff := w.state.listed_iff l
    split
    · next hlist =>
      have := hiff.mp hlist
      omega
    · next hlist =>
      have := mt hiff.mpr hlist
      omega
  · have hstart : 0 < (startCalls calls).load (LockAction.cleans c) :=
      Workers.load_pos_iff.mpr ⟨_, mem_map_of_mem hc, .cleanup c, mem_singleton_self _,
        by simp [LockAction.cleans]⟩
    have hcleaned := h.cleaned c
    rw [hidle.load_eq_zero] at hcleaned
    have hpos : 0 < (w.state.cleaned.map Prod.fst).count c := by omega
    obtain ⟨p, hp, rfl⟩ := mem_map.mp (count_pos_iff.mp hpos)
    exact ⟨p.2, hp⟩

end

/-- A lock of ten bytes of the only inode. -/
def tenBytes (client owner : Nat) : InodeLock Nat Nat Unit where
  id := 0
  domain := ()
  client := some client
  owner := owner
  flType := .wrlck
  flStart := 0
  flEnd := 9

/-- A lock is set while the cleanup of its client, which has gone through the list, is still at its
grant pass. Nothing takes it out: the cleanup has finished, and the lock is in the granted list. -/
theorem set_behind_cleanup :
    let calls := [.setlk (tenBytes 1 1) false, .cleanup 1, .setlk (tenBytes 1 2) false]
    let w := runAll (Workers.step LockHeap.exec) [0, 1, 1, 1, 2, 1, 1, 1] (startCalls calls)
    w.todo = [[], [], []] ∧ w.state.cleaned = [(1, 1)] ∧
      (w.state.dom ()).granted = [{ tenBytes 1 2 with id := 1 }] := by
  decide

end TagItGluster.Locks
