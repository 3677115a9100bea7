import TagItGluster.Base.Workers

/-!
# The barrier

While the barrier is enabled, the replies of the barriered fops are queued. It is disabled by a
request or by the timer that was started when it was enabled; the queued replies are then taken off
under the lock and passed on outside of it.

The timer thread takes a timer out of the registry before it calls `barrier_timeout`, which only
then takes the lock. A timer that was taken out can no longer be cancelled: its callback disables
the barrier even if the barrier was disabled and enabled again in the meantime.

Not in the code are the replies passed on so far, the timer of the period in which replies have to
be held back, and the replies that were passed on in such a period. Line numbers:
`xlators/features/barrier/src/barrier.c`.
-/

namespace TagItGluster.Barrier

open Base List

/-- `barrier_priv_t`, the timers of the barrier, and for each thread the replies it has still to
pass on. -/
structure BarrierPriv where
  timer : Option Nat
  enabled : Bool
  queue : List Nat
  queueSize : Nat
  nextTimer : Nat
  active : List Nat
  picked : Option Nat
  outgoing : List (List Nat)
  arrived : Nat
  passed : List Nat
  period : Option Nat
  leaked : List Nat
deriving DecidableEq

/-- What happens next. `memory` is what an allocation in the step answers. -/
inductive BarrierEvent where
  | reply (memory : Bool)
  | notify (on : Bool) (memory : Bool)
  | reconfigure (on : Bool) (memory : Bool)
  | pick (timer : Nat)
  | timeout
  | resume (thread : Nat)

namespace BarrierPriv

/-- The timers in the registry after `gf_timer_call_cancel` for the timer of the barrier. A timer
that was picked is not among them. -/
def activeAfterCancel (s : BarrierPriv) : List Nat :=
  match s.timer with
  | some timer => s.active.erase timer
  | none => s.active

/-- `__barrier_disable` (437), with the replies it takes off the queue. -/
def disable (s : BarrierPriv) : BarrierPriv × List Nat :=
  ({ s with
      active := s.activeAfterCancel
      timer := none
      queue := []
      queueSize := 0
      enabled := false }, s.queue)

/-- `__barrier_enqueue` (423). -/
def enqueue (reply : Nat) (s : BarrierPriv) : BarrierPriv :=
  { s with queue := s.queue ++ [reply], queueSize := s.queueSize + 1 }

/-- `__barrier_enable` (456). -/
def enable (memory : Bool) (s : BarrierPriv) : BarrierPriv × Int :=
  if memory then
    ({ s with
        timer := some s.nextTimer
        nextTimer := s.nextTimer + 1
        active := s.active ++ [s.nextTimer]
        enabled := true
        period := some s.nextTimer }, 0)
  else ({ s with timer := none }, -1)

/-- A thread has replies to pass on, outside of the lock. -/
def send (replies : List Nat) (s : BarrierPriv) : BarrierPriv :=
  { s with outgoing := s.outgoing ++ [replies] }

/-- The barrier is disabled, and its replies are passed on. -/
def release (s : BarrierPriv) : BarrierPriv := s.disable.1.send s.disable.2

/-- `BARRIER_FOP_CBK` (barrier.h:19). -/
def reply (memory : Bool) (s : BarrierPriv) : BarrierPriv :=
  let id := s.arrived
  let s := { s with arrived := s.arrived + 1 }
  if s.enabled then
    if memory then s.enqueue id
    else s.disable.1.send (s.disable.2 ++ [id])
  else s.send [id]

/-- `notify` (475) with the value of the key `barrier`. -/
def notify (on memory : Bool) (s : BarrierPriv) : BarrierPriv × Int :=
  match s.enabled, on with
  | false, true => s.enable memory
  | false, false => ({ s with period := none }, -1)
  | true, false => ({ s.release with period := none }, 0)
  | true, true => (s, -1)

/-- `reconfigure` (549) with the value of the option `barrier`. -/
def reconfigure (on memory : Bool) (s : BarrierPriv) : BarrierPriv × Int :=
  match s.enabled, on with
  | false, true => s.enable memory
  | false, false => ({ s with period := none }, 0)
  | true, false => ({ s.release with period := none }, 0)
  | true, true => (s, 0)

/-- The timer thread takes a timer out of the registry. -/
def pick (timer : Nat) (s : BarrierPriv) : BarrierPriv :=
  if timer ∈ s.active ∧ s.picked = none then
    { s with active := s.active.erase timer, picked := some timer }
  else s

/-- `barrier_timeout` (396) for the timer that was taken out. -/
def timeout (s : BarrierPriv) : BarrierPriv :=
  match s.picked with
  | some timer =>
    { s.release with
      picked := none
      period := if s.period = some timer then none else s.period }
  | none => s

/-- A thread passes on its next reply. -/
def resume (thread : Nat) (s : BarrierPriv) : BarrierPriv :=
  match s.outgoing[thread]? with
  | some (reply :: rest) =>
    { s with
      outgoing := s.outgoing.set thread rest
      passed := s.passed ++ [reply]
      leaked := if s.period.isSome then s.leaked ++ [reply] else s.leaked }
  | _ => s

/-- What an event does. -/
def step : BarrierEvent → BarrierPriv → BarrierPriv
  | .reply memory, s => s.reply memory
  | .notify on memory, s => (s.notify on memory).1
  | .reconfigure on memory, s => (s.reconfigure on memory).1
  | .pick timer, s => s.pick timer
  | .timeout, s => s.timeout
  | .resume thread, s => s.resume thread

/-- The state after `init` (614), the option `barrier` being given. -/
def init (on : Bool) : BarrierPriv :=
  let s : BarrierPriv :=
    { timer := none
      enabled := false
      queue := []
      queueSize := 0
      nextTimer := 0
      active := []
      picked := none
      outgoing := []
      arrived := 0
      passed := []
      period := none
      leaked := [] }
  if on then (s.enable true).1 else s

/-! ### Every reply once -/

/-- Each reply was passed on, is queued or is with a thread, and only an enabled barrier has a
queue. -/
structure Kept (s : BarrierPriv) : Prop where
  replies : (s.passed ++ s.queue ++ s.outgoing.flatten).Perm (List.range s.arrived)
  size : s.queueSize = s.queue.length
  empty : s.enabled = false → s.queue = []

variable {s : BarrierPriv}

section

variable (h : s.Kept)
include h

private lemma Kept.release : s.release.Kept := by
  refine ⟨?_, rfl, fun _ => rfl⟩
  refine .trans ?_ h.replies
  change (s.passed ++ [] ++ (s.outgoing ++ [s.queue]).flatten).Perm _
  rw [append_nil, append_assoc, flatten_append, flatten_singleton]
  exact perm_append_comm.append_left _

private lemma Kept.enable (memory : Bool) : (s.enable memory).1.Kept := by
  unfold BarrierPriv.enable
  split
  · exact ⟨h.replies, h.size, by simp⟩
  · exact ⟨h.replies, h.size, h.empty⟩

private lemma Kept.reply (memory : Bool) : (s.reply memory).Kept := by
  have hrange : (s.passed ++ s.queue ++ s.outgoing.flatten ++ [s.arrived]).Perm
      (List.range (s.arrived + 1)) := by
    rw [range_succ]
    exact h.replies.append_right _
  unfold BarrierPriv.reply
  dsimp only
  split
  next henabled =>
    split
    · refine ⟨.trans ?_ hrange, ?_, ?_⟩
      · change (s.passed ++ (s.queue ++ [s.arrived]) ++ s.outgoing.flatten).Perm _
        simp only [append_assoc]
        exact (perm_append_comm.append_left _).append_left _
      · simp [enqueue, h.size]
      · intro hdisabled
        exact absurd henabled (by simpa [enqueue] using hdisabled)
    · refine ⟨.trans ?_ hrange, rfl, fun _ => rfl⟩
      change (s.passed ++ [] ++ (s.outgoing ++ [s.queue ++ [s.arrived]]).flatten).Perm _
      rw [append_nil, flatten_append, flatten_singleton]
      simp only [append_assoc]
      refine List.Perm.append_left _ ?_
      rw [← append_assoc, ← append_assoc]
      exact perm_append_comm.append_right _
  next =>
    refine ⟨.trans ?_ hrange, h.size, h.empty⟩
    change (s.passed ++ s.queue ++ (s.outgoing ++ [[s.arrived]]).flatten).Perm _
    rw [flatten_append, flatten_singleton, ← append_assoc]

private lemma Kept.of_period (period : Option Nat) : { s with period := period }.Kept :=
  ⟨h.replies, h.size, h.empty⟩

private lemma Kept.notify (on memory : Bool) : (s.notify on memory).1.Kept := by
  unfold BarrierPriv.notify
  split
  · exact h.enable memory
  · exact h.of_period none
  · exact h.release.of_period none
  · exact h

end

private lemma reconfigure_fst (on memory : Bool) (s : BarrierPriv) :
    (s.reconfigure on memory).1 = (s.notify on memory).1 := by
  unfold BarrierPriv.reconfigure BarrierPriv.notify
  cases s.enabled <;> cases on <;> rfl

private lemma Kept.timeout (h : s.Kept) : s.timeout.Kept := by
  unfold BarrierPriv.timeout
  split
  · exact ⟨h.release.replies, h.release.size, h.release.empty⟩
  · exact h

private lemma Kept.resume (h : s.Kept) (thread : Nat) : (s.resume thread).Kept := by
  unfold BarrierPriv.resume
  split
  next reply rest hget =>
    refine ⟨.trans ?_ h.replies, h.size, h.empty⟩
    simp only [append_assoc]
    refine List.Perm.append_left _ ?_
    rw [singleton_append]
    exact perm_middle.symm.trans ((flatten_set_perm hget).append_left _)
  next => exact h

private lemma Kept.step (h : s.Kept) (e : BarrierEvent) : (BarrierPriv.step e s).Kept := by
  cases e with
  | reply memory => exact h.reply memory
  | notify on memory => exact h.notify on memory
  | reconfigure on memory =>
    dsimp only [BarrierPriv.step]
    rw [reconfigure_fst]
    exact h.notify on memory
  | pick timer =>
    dsimp only [BarrierPriv.step, BarrierPriv.pick]
    split
    · exact ⟨h.replies, h.size, h.empty⟩
    · exact h
  | timeout => exact h.timeout
  | resume thread => exact h.resume thread

private lemma init_kept (on : Bool) : (init on).Kept := by
  cases on with
  | false | true => exact ⟨.refl _, rfl, fun _ => rfl⟩

/-- The threads can pass on all replies they have. -/
lemma drains (s : BarrierPriv) : ∃ es, (runAll step es s).outgoing.flatten = [] ∧
    (runAll step es s).queue = s.queue ∧ (runAll step es s).arrived = s.arrived := by
  induction hn : s.outgoing.flatten.length generalizing s with
  | zero => exact ⟨[], length_eq_zero_iff.mp hn, rfl, rfl⟩
  | succ n ih =>
    have hne : s.outgoing.flatten ≠ [] := by
      intro heq
      rw [heq] at hn
      cases hn
    obtain ⟨l, hl, hlne⟩ := flatten_ne_nil_iff.mp hne
    obtain ⟨thread, hget⟩ := getElem?_of_mem hl
    obtain ⟨reply, rest, rfl⟩ := exists_cons_of_ne_nil hlne
    obtain ⟨hout, hqueue, harrived⟩ : (step (.resume thread) s).outgoing =
        s.outgoing.set thread rest ∧ (step (.resume thread) s).queue = s.queue ∧
          (step (.resume thread) s).arrived = s.arrived := by
      simp [step, BarrierPriv.resume, hget]
    obtain ⟨es, hdone, hqueue', harrived'⟩ := ih (step (.resume thread) s) (by
      have hperm := (flatten_set_perm hget).length_eq
      rw [length_cons] at hperm
      rw [hout]
      omega)
    exact ⟨.resume thread :: es, hdone, hqueue'.trans hqueue, harrived'.trans harrived⟩

/-- After a request to disable the barrier every reply can reach the client. -/
lemma Kept.passes_all (h : s.Kept) : ∃ es,
    (runAll BarrierPriv.step es s).passed.Perm (List.range s.arrived) := by
  have hqueue :
      (s.notify false true).1.queue = [] ∧ (s.notify false true).1.arrived = s.arrived := by
    unfold BarrierPriv.notify
    cases henabled : s.enabled with
    | false => exact ⟨h.empty henabled, rfl⟩
    | true => exact ⟨rfl, rfl⟩
  obtain ⟨es, hdone, hrest, harrived⟩ := drains (s.notify false true).1
  refine ⟨.notify false true :: es, ?_⟩
  have hkept := runAll_always BarrierPriv.step Kept (fun e _ hs => hs.step e) es
    (h.notify false true)
  have hreplies := hkept.replies
  rw [hdone, hrest, hqueue.1, harrived, hqueue.2, append_nil, append_nil] at hreplies
  exact hreplies

/-! ### Held back -/

/-- While replies have to be held back, the barrier is enabled with the timer of the period and no
thread has a reply to pass on. -/
structure Holds (s : BarrierPriv) : Prop where
  period : ∀ timer, s.period = some timer →
    s.enabled = true ∧ s.timer = some timer ∧ s.outgoing.flatten = []
  leaked : s.leaked = []

/-- Allocations succeed; the barrier is enabled when no thread has a reply to pass on; and the timer
that runs out is the one of the barrier, or the barrier is disabled. -/
def Orderly : BarrierEvent → BarrierPriv → Prop
  | .reply memory, _ => memory = true
  | .notify on memory, s | .reconfigure on memory, s =>
    on = true → s.enabled = false → memory = true ∧ s.outgoing.flatten = []
  | .timeout, s => s.enabled = true → s.picked = s.timer
  | _, _ => True

section

variable (h : s.Holds)
include h

private lemma Holds.period_none (hdisabled : s.enabled = false) : s.period = none := by
  cases hperiod : s.period with
  | none => rfl
  | some timer => simp [(h.period timer hperiod).1] at hdisabled

private lemma Holds.enable (hflatten : s.outgoing.flatten = []) :
    (s.enable true).1.Holds where
  period _ htimer := ⟨rfl, htimer, hflatten⟩
  leaked := h.leaked

private lemma Holds.notify {on memory : Bool}
    (hok : on → s.enabled = false → memory ∧ s.outgoing.flatten = []) :
    (s.notify on memory).1.Holds := by
  unfold BarrierPriv.notify
  split
  next henabled =>
    obtain ⟨rfl, hflatten⟩ := hok rfl henabled
    exact h.enable hflatten
  next => exact ⟨by simp, h.leaked⟩
  next => exact ⟨by simp, h.leaked⟩
  next => exact h

private lemma Holds.step (e : BarrierEvent) (hok : Orderly e s) : (BarrierPriv.step e s).Holds := by
  cases e with
  | reply memory =>
    obtain rfl : memory = true := hok
    dsimp only [BarrierPriv.step, BarrierPriv.reply]
    split
    next => exact ⟨h.period, h.leaked⟩
    next hdisabled =>
      have hnone := h.period_none (Bool.eq_false_iff.mpr hdisabled)
      exact ⟨by simp [send, hnone], h.leaked⟩
  | notify on memory => exact h.notify hok
  | reconfigure on memory =>
    dsimp only [BarrierPriv.step]
    rw [reconfigure_fst]
    exact h.notify hok
  | pick timer =>
    dsimp only [BarrierPriv.step, BarrierPriv.pick]
    split
    · exact ⟨h.period, h.leaked⟩
    · exact h
  | timeout =>
    dsimp only [BarrierPriv.step, BarrierPriv.timeout]
    split
    next timer hpicked =>
      refine ⟨?_, h.leaked⟩
      intro timer' hperiod
      -- the period is that of the timer, which has run out
      exfalso
      split at hperiod
      · cases hperiod
      next hne =>
        obtain ⟨henabled, htimer, -⟩ := h.period timer' hperiod
        have hpicked' := hok henabled
        rw [hpicked, htimer] at hpicked'
        exact hne (hpicked' ▸ hperiod)
    next => exact h
  | resume thread =>
    dsimp only [BarrierPriv.step, BarrierPriv.resume]
    split
    next reply rest hget =>
      have hperiod : s.period = none := by
        cases hperiod : s.period with
        | none => rfl
        | some timer =>
          have hflatten := (h.period timer hperiod).2.2
          have hmem := flatten_eq_nil_iff.mp hflatten _ (mem_of_getElem? hget)
          cases hmem
      exact ⟨by simp [hperiod], by simpa [hperiod] using h.leaked⟩
    next => exact h

end

private lemma init_holds (on : Bool) : (init on).Holds := by
  cases on with
  | false => exact ⟨by simp [init], rfl⟩
  | true => exact ⟨fun timer htimer => ⟨rfl, htimer, rfl⟩, rfl⟩

/-- In every run each reply is passed on once, is queued or is with a thread, it can always reach
the client, and the queue of a disabled barrier is empty. If the barrier is enabled only when no
thread has a reply to pass on, and only the timer of the present period runs out, no reply is passed
on between an enabling and the first request to disable the barrier or the end of its timer. -/
theorem barrier_holds_back (on : Bool) (es : List BarrierEvent) :
    ((runAll step es (init on)).passed ++ (runAll step es (init on)).queue ++
      (runAll step es (init on)).outgoing.flatten).Perm
        (List.range (runAll step es (init on)).arrived) ∧
    (∃ es', (runAll step es' (runAll step es (init on))).passed.Perm
      (List.range (runAll step es (init on)).arrived)) ∧
    ((runAll step es (init on)).enabled = false → (runAll step es (init on)).queue = []) ∧
    (Throughout step Orderly es (init on) → (runAll step es (init on)).leaked = []) := by
  have hkept := runAll_always step Kept (fun e _ h => h.step e) es (init_kept on)
  refine ⟨hkept.replies, hkept.passes_all, hkept.empty, ?_⟩
  intro hok
  exact (runAll_inv step Holds (fun e _ h hok => h.step e hok) (init_holds on) hok).leaked

/-- The barrier is enabled, holds a reply and is disabled by its timer. -/
theorem barrier_holds_back_once :
    (runAll step [.notify true true, .reply true, .pick 0, .timeout, .resume 0]
      (init false)).passed = [0] ∧
    (runAll step [.notify true true, .reply true, .pick 0, .timeout, .resume 0]
      (init false)).leaked = [] := by
  refine ⟨by decide, (barrier_holds_back false _).2.2.2 ?_⟩
  refine ⟨?_, rfl, trivial, ?_, trivial, trivial⟩
  · exact fun _ _ => ⟨rfl, rfl⟩
  · exact fun _ => rfl

/-- The first timer is picked, the barrier is disabled and enabled again, and a reply is queued.
Then the first timer's callback disables the barrier, and the reply goes to the client while the
second timer still runs. -/
theorem barrier_leaks :
    (runAll step [.notify true true, .pick 0, .notify false true, .notify true true, .reply true,
      .timeout, .resume 1] (init false)).leaked = [0] ∧
    (runAll step [.notify true true, .pick 0, .notify false true, .notify true true, .reply true,
      .timeout, .resume 1] (init false)).period = some 1 := by
  decide

end BarrierPriv

end TagItGluster.Barrier
