import TagItGluster.IoThreads.Pool

/-!
# The worker pool: sizes, limits, order and the number of threads

One invariant holds in every run: the queue sizes, the counts of the priorities and the order in
which requests are handed out. The number of threads is apart. A worker that decides to leave while
a request has to wait for the throttle waits too, and comes back to the test of `timeout`, which is
still set.
-/

namespace TagItGluster.IoThreads

open Base List Function

/-! ### Taking a request -/

/-- The queue sizes are those of the lists. -/
structure Sized (conf : IotConf) : Prop where
  sizes : ∀ p, conf.queueSizes p = (conf.reqs p).length
  size : conf.queueSize = ((conf.reqs .hi).length + (conf.reqs .normal).length +
    (conf.reqs .lo).length + (conf.reqs .least).length : Nat)

namespace IotConf

variable {conf : IotConf} {p : IotPri}

private lemma sized_enqueue (h : Sized conf) (stub : Nat) (p : IotPri) :
    Sized (conf.enqueue stub p) := by
  constructor
  · intro q
    by_cases hq : q = p
    · subst hq
      simp [enqueue, h.sizes]
    · simp [enqueue, update_of_ne hq, h.sizes]
  · have := h.size
    cases p <;> simp [enqueue] <;> omega

private lemma sized_took {stub : Nat} {rest : List Nat} (h : Sized conf)
    (hreqs : conf.reqs p = stub :: rest) : Sized (conf.took p rest) := by
  constructor
  · intro q
    by_cases hq : q = p
    · subst hq
      simp [took, h.sizes, hreqs]
    · simp [took, update_of_ne hq, h.sizes]
  · have := h.size
    cases p <;> simp [took] <;> simp [hreqs] at this <;> omega

/-- What `__iot_dequeue` does: it takes the first request of a priority below its limit, or it
changes at most the throttle. -/
lemma dequeue_cases (now : Timeval) (conf : IotConf) :
    (∃ throttle p stub rest, conf.reqs p = stub :: rest ∧ conf.acIotCount p < conf.acIotLimit p ∧
      conf.dequeue now = ({ conf with throttle := throttle }.took p rest, .stub stub p)) ∨
    (∃ throttle d, (∀ stub p, d ≠ .stub stub p) ∧
      conf.dequeue now = ({ conf with throttle := throttle }, d)) := by
  have hready {p : IotPri} (h : conf.ready p = true) :
      ∃ stub rest, conf.reqs p = stub :: rest ∧ conf.acIotCount p < conf.acIotLimit p := by
    rw [ready, Bool.and_eq_true, decide_eq_true_iff] at h
    cases hreqs : conf.reqs p with
    | nil => simp [hreqs] at h
    | cons stub rest => exact ⟨stub, rest, rfl, h.2⟩
  unfold dequeue
  split
  next => exact .inr ⟨conf.throttle, .nothing, by simp, rfl⟩
  next hfind =>
    obtain ⟨stub, rest, hreqs, hlt⟩ := hready (find?_some hfind)
    dsimp only
    split
    next till _ => exact .inr ⟨_, .sleep till, by simp, rfl⟩
    next =>
      refine .inl ⟨(conf.throttle.allow now).1, .least, stub, rest, hreqs, hlt, ?_⟩
      simp [take, hreqs]
  next p _ hfind =>
    obtain ⟨stub, rest, hreqs, hlt⟩ := hready (find?_some hfind)
    exact .inl ⟨conf.throttle, p, stub, rest, hreqs, hlt, by simp [take, hreqs]⟩

end IotConf

/-! ### The invariant -/

namespace IotPool

/-- What every step keeps: the queue sizes, the number of workers with a request of each priority,
which is within its limit, and the order of the requests; a worker in a wait has no request. -/
structure Kept (s : IotPool) : Prop where
  ids : s.workers.map IotWorker.id = List.range s.workers.length
  sized : Sized s.conf
  active : ∀ p, s.conf.acIotCount p = s.workers.countP (·.pri = some p)
  limit : ∀ p, s.conf.acIotCount p ≤ s.conf.acIotLimit p
  order : ∀ p, (s.arrived.filter (·.2 = p)).map Prod.fst =
    (s.handed.filter (·.2 = p)).map Prod.fst ++ s.conf.reqs p
  numbered : s.arrived.map Prod.fst = List.range s.arrived.length
  waiting : ∀ w ∈ s.workers, w.phase = .idle ∨ w.phase = .throttled → w.pri = none

variable {s : IotPool} {w w' : IotWorker} {conf : IotConf}

private lemma Kept.nodup (h : s.Kept) : (s.workers.map IotWorker.id).Nodup := by
  rw [h.ids]
  exact nodup_range

private lemma mem_put (conf : IotConf) (w' : IotWorker) (hw : w ∈ s.workers) (hid : w'.id = w.id)
    {x : IotWorker} :
    x ∈ (s.put conf w').workers ↔ x = w' ∨ (x ∈ s.workers ∧ x.id ≠ w.id) := by
  unfold put
  rw [mem_updateAt, hid]
  constructor
  · rintro (⟨_, _, _, rfl⟩ | h)
    · exact .inl rfl
    · exact .inr h
  · rintro (rfl | h)
    · exact .inl ⟨w, hw, rfl, rfl⟩
    · exact .inr h

private lemma ids_put (conf : IotConf) (w' : IotWorker) (s : IotPool) :
    (s.put conf w').workers.map IotWorker.id = s.workers.map IotWorker.id := by
  refine map_updateAt IotWorker.id ?_
  intro a ha
  exact ha.symm

private lemma put_put (conf conf' : IotConf) (hid : w'.id = w.id) :
    (s.put conf w).put conf' w' = s.put conf' w' := by
  unfold put
  rw [hid]
  rw [updateAt_updateAt (fun _ _ => rfl)]
  rfl

/-- A change of one worker together with the counters and what was handed out. -/
lemma Kept.put (h : s.Kept) (handed : List (Nat × IotPri)) (hw : w ∈ s.workers)
    (hid : w'.id = w.id) (hsized : Sized conf)
    (hactive : ∀ p, conf.acIotCount p + (if w.pri = some p then 1 else 0) =
      s.conf.acIotCount p + (if w'.pri = some p then 1 else 0))
    (hlimit : ∀ p, conf.acIotCount p ≤ conf.acIotLimit p)
    (horder : ∀ p, (s.handed.filter (·.2 = p)).map Prod.fst ++ s.conf.reqs p =
      (handed.filter (·.2 = p)).map Prod.fst ++ conf.reqs p)
    (hwaiting : w'.phase = .idle ∨ w'.phase = .throttled → w'.pri = none) :
    { s.put conf w' with handed := handed }.Kept where
  ids := by
    have hlength : (s.put conf w').workers.length = s.workers.length := by
      rw [← length_map, ids_put, length_map]
    rw [ids_put, hlength, h.ids]
  sized := hsized
  active := by
    intro p
    have hcount := countP_updateAt (f := fun _ => w') (fun x => x.pri = some p) h.nodup hw hid.symm
    have hbefore := h.active p
    have hafter := hactive p
    simp only [decide_eq_true_eq] at hcount
    change conf.acIotCount p =
      ((updateAt IotWorker.id w'.id (fun _ => w') s.workers).countP _ : Nat)
    by_cases hpri : w.pri = some p <;> by_cases hpri' : w'.pri = some p <;>
      simp only [hpri, hpri', if_true, if_false] at hcount hafter <;> omega
  limit := hlimit
  order p := (h.order p).trans (horder p)
  numbered := h.numbered
  waiting := by
    intro x hx
    rcases (mem_put conf w' hw hid).mp hx with rfl | ⟨hx, -⟩
    · exact hwaiting
    · exact h.waiting x hx

/-! ### The steps of a worker -/

/-- What the test of `timeout` does to the number of threads and to `bye`. -/
def TimeoutTest (conf : IotConf) (w : IotWorker) (currCount : Int) (bye : Bool) : Prop :=
  if w.timeout = true ∧ iotMinThreads < conf.currCount then
    currCount = conf.currCount - 1 ∧ bye = true
  else currCount = conf.currCount ∧ bye = w.bye

private lemma leaveIfTimedOut_spec (conf : IotConf) (w : IotWorker) :
    ∃ currCount timeout bye, TimeoutTest conf w currCount bye ∧ leaveIfTimedOut conf w =
        ({ conf with currCount := currCount }, { w with timeout := timeout, bye := bye }) := by
  by_cases htimeout : w.timeout = true
  · by_cases hlt : iotMinThreads < conf.currCount
    · refine ⟨conf.currCount - 1, w.timeout, true, ?_, ?_⟩
      · simp [TimeoutTest, htimeout, hlt]
      · simp [leaveIfTimedOut, htimeout, hlt]
    · refine ⟨conf.currCount, false, w.bye, ?_, ?_⟩
      · simp [TimeoutTest, hlt]
      · simp [leaveIfTimedOut, htimeout, hlt]
  · refine ⟨conf.currCount, w.timeout, w.bye, ?_, ?_⟩
    · simp [TimeoutTest, htimeout]
    · rw [leaveIfTimedOut, if_neg htimeout]

/-- What a worker does behind its wait: it takes a request, or it goes on without one. -/
lemma afterWait_cases (now : Timeval) (conf : IotConf) (w : IotWorker) (s : IotPool) :
    ∃ currCount timeout bye throttle, TimeoutTest conf w currCount bye ∧
      ((∃ p stub rest, conf.reqs p = stub :: rest ∧ conf.acIotCount p < conf.acIotLimit p ∧
          s.afterWait now conf w =
            { s.put ({ conf with currCount := currCount, throttle := throttle }.took p rest)
                ⟨w.id, .running stub, some p, timeout, bye⟩ with
              handed := s.handed ++ [(stub, p)] }) ∨
        ∃ phase, s.afterWait now conf w =
          s.put { conf with currCount := currCount, throttle := throttle }
            ⟨w.id, phase, none, timeout, bye⟩) := by
  obtain ⟨currCount, timeout, bye, htest, hleave⟩ := leaveIfTimedOut_spec conf w
  rcases IotConf.dequeue_cases now { conf with currCount := currCount } with
    ⟨throttle, p, stub, rest, hreqs, hlt, hdequeue⟩ | ⟨throttle, d, hd, hdequeue⟩
  · refine ⟨currCount, timeout, bye, throttle, htest, .inl ⟨p, stub, rest, hreqs, hlt, ?_⟩⟩
    simp [afterWait, hleave, hdequeue, IotWorker.given]
  refine ⟨currCount, timeout, bye, throttle, htest, .inr ?_⟩
  cases d with
  | stub stub p => exact absurd rfl (hd stub p)
  | sleep till =>
    by_cases htill : till = ⟨0, 0⟩
    · refine ⟨if bye then .gone else .top, ?_⟩
      simp [afterWait, hleave, hdequeue, IotWorker.given, htill]
    · refine ⟨.throttled, ?_⟩
      simp [afterWait, hleave, hdequeue, IotWorker.given, htill]
  | nothing =>
    refine ⟨if bye then .gone else .top, ?_⟩
    simp [afterWait, hleave, hdequeue, IotWorker.given]

/-- A worker without a request goes on behind its wait. -/
lemma Kept.afterWait (h : (s.put conf w).Kept) (hw : w ∈ (s.put conf w).workers)
    (hpri : w.pri = none) (now : Timeval) : (s.afterWait now conf w).Kept := by
  obtain ⟨currCount, timeout, bye, throttle, -, hcases⟩ := afterWait_cases now conf w s
  have hsized := h.sized
  have hlimit := h.limit
  rcases hcases with ⟨p, stub, rest, hreqs, hlt, heq⟩ | ⟨phase, heq⟩
  · obtain ⟨w', hw'⟩ : ∃ w' : IotWorker, ⟨w.id, .running stub, some p, timeout, bye⟩ = w' :=
      ⟨_, rfl⟩
    have hid : w'.id = w.id := by rw [← hw']
    have hpri' : w'.pri = some p := by rw [← hw']
    rw [heq, hw', ← put_put conf _ hid]
    refine h.put _ hw hid ?_ ?_ ?_ ?_ ?_
    · exact IotConf.sized_took ⟨hsized.sizes, hsized.size⟩ hreqs
    · intro q
      by_cases hq : q = p
      · subst hq
        simp [IotConf.took, hpri, hpri', IotPool.put]
      · simp [IotConf.took, hpri, hpri', update_of_ne hq, Ne.symm hq, IotPool.put]
    · intro q
      by_cases hq : q = p
      · subst hq
        simpa [IotConf.took] using Int.add_one_le_of_lt hlt
      · simpa [IotConf.took, update_of_ne hq, IotPool.put] using hlimit q
    · intro q
      by_cases hq : q = p
      · subst hq
        simp [IotConf.took, hreqs, IotPool.put]
      · simp [IotConf.took, update_of_ne hq, Ne.symm hq, IotPool.put]
    · simp [← hw']
  · obtain ⟨w', hw'⟩ : ∃ w' : IotWorker, ⟨w.id, phase, none, timeout, bye⟩ = w' := ⟨_, rfl⟩
    have hid : w'.id = w.id := by rw [← hw']
    have hpri' : w'.pri = none := by rw [← hw']
    rw [heq, hw', ← put_put conf _ hid]
    refine h.put s.handed hw hid ⟨hsized.sizes, hsized.size⟩ ?_ hlimit (fun _ => rfl)
      (fun _ => hpri')
    intro q
    rw [hpri, hpri']
    rfl

/-- The worker waits for requests, or goes on. -/
lemma Kept.waitForRequests (h : (s.put conf w).Kept) (hw : w ∈ (s.put conf w).workers)
    (hpri : w.pri = none) (now : Timeval) : (s.waitForRequests now conf w).Kept := by
  unfold IotPool.waitForRequests
  split
  · obtain ⟨w', hw'⟩ : ∃ w' : IotWorker, { w with phase := .idle } = w' := ⟨_, rfl⟩
    have hid : w'.id = w.id := by rw [← hw']
    have hpri' : w'.pri = none := by rw [← hw']; exact hpri
    rw [hw', ← put_put conf _ hid]
    refine h.put s.handed hw hid ⟨h.sized.sizes, h.sized.size⟩ ?_ h.limit (fun _ => rfl)
      (fun _ => hpri')
    intro q
    rw [hpri, hpri']
    rfl
  · exact h.afterWait hw hpri now

section

variable (h : s.Kept)
include h

/-- The worker gives back its place among those of its priority. -/
lemma Kept.releasePri (hw : w ∈ s.workers) :
    (s.put (releasePri s.conf w).1 (releasePri s.conf w).2).Kept ∧
      (IoThreads.releasePri s.conf w).2.pri = none ∧
      (IoThreads.releasePri s.conf w).2.id = w.id := by
  unfold IoThreads.releasePri
  split
  next p hpri =>
    refine ⟨?_, rfl, rfl⟩
    refine h.put s.handed hw rfl ⟨h.sized.sizes, h.sized.size⟩ ?_ ?_ (fun _ => rfl) (fun _ => rfl)
    · intro q
      by_cases hq : q = p
      · subst hq
        simp [IotConf.release, hpri]
      · simp [IotConf.release, hpri, update_of_ne hq, Ne.symm hq]
    · intro q
      have hlimit := h.limit q
      by_cases hq : q = p
      · subst hq
        simp [IotConf.release]
        omega
      · simpa [IotConf.release, update_of_ne hq] using hlimit
  next hpri =>
    refine ⟨?_, hpri, rfl⟩
    exact h.put s.handed hw rfl h.sized (fun _ => rfl) h.limit (fun _ => rfl) (fun _ => hpri)

/-- A worker changes its phase. -/
lemma Kept.move (w' : IotWorker) (hw : w ∈ s.workers) (hid : w'.id = w.id) (hpri : w'.pri = w.pri)
    (hwaiting : w'.phase = .idle ∨ w'.phase = .throttled → w'.pri = none) (sleepCount : Int) :
    (s.put { s.conf with sleepCount := sleepCount } w').Kept := by
  refine h.put s.handed hw hid ⟨h.sized.sizes, h.sized.size⟩ ?_ h.limit (fun _ => rfl) hwaiting
  intro p
  rw [hpri]

section

variable (hw : w ∈ s.workers)
include hw

private lemma Kept.lock (now : Timeval) : (s.lock now w).Kept := by
  unfold IotPool.lock
  obtain ⟨hreleased, hpri, hid⟩ := h.releasePri hw
  generalize IoThreads.releasePri s.conf w = r at hreleased hpri hid ⊢
  obtain ⟨conf, w₁⟩ := r
  have hmem : w₁ ∈ (s.put conf w₁).workers := (mem_put conf w₁ hw hid).mpr (.inl rfl)
  split
  next => exact hreleased.waitForRequests hmem hpri now
  next =>
    dsimp only
    obtain ⟨w₂, hw₂⟩ : ∃ w₂ : IotWorker, { w₁ with phase := .gone } = w₂ := ⟨_, rfl⟩
    have hid₂ : w₂.id = w₁.id := by rw [← hw₂]
    rw [hw₂, ← put_put conf conf hid₂]
    exact hreleased.move w₂ hmem hid₂ (by rw [← hw₂]) (by simp [← hw₂]) conf.sleepCount
  next => exact h

private lemma Kept.wake (timedOut : Bool) (now : Timeval) : (s.wake timedOut now w).Kept := by
  unfold IotPool.wake
  split
  next hphase =>
    have hpri := h.waiting w hw (.inl hphase)
    split
    next =>
      have hmove := h.move { w with timeout := true } hw rfl rfl (fun _ => hpri)
        (s.conf.sleepCount - 1)
      exact hmove.afterWait ((mem_put _ { w with timeout := true } hw rfl).mpr (.inl rfl)) hpri now
    next =>
      have hmove := h.move w hw rfl rfl (fun _ => hpri) (s.conf.sleepCount - 1)
      exact hmove.waitForRequests ((mem_put _ _ hw rfl).mpr (.inl rfl)) hpri now
  next => exact h.move { w with phase := .top } hw rfl rfl (by simp) s.conf.sleepCount
  next => exact h

private lemma Kept.finish : (s.finish w).Kept := by
  unfold IotPool.finish
  split
  next =>
    refine h.move { w with phase := if w.bye then .leaving else .top } hw rfl rfl ?_
      s.conf.sleepCount
    cases w.bye <;> simp
  next => exact h

end

/-! ### Scheduling -/

private lemma Kept.createWorkers (created : Nat) : (s.createWorkers created).Kept := by
  have hnew {w : IotWorker} (hw : w ∈ (List.range' s.workers.length created).map IotWorker.new) :
      w.pri = none := by
    obtain ⟨i, -, rfl⟩ := mem_map.mp hw
    rfl
  unfold IotPool.createWorkers
  constructor
  case ids =>
    have hid : IotWorker.id ∘ IotWorker.new = id := rfl
    rw [map_append, h.ids, map_map, hid, map_id, length_append,
      length_map, length_range', range_eq_range', range_eq_range',
      ← range'_append_1, Nat.zero_add]
  case sized => exact ⟨h.sized.sizes, h.sized.size⟩
  case active =>
    intro p
    have hzero : ((List.range' s.workers.length created).map IotWorker.new).countP
        (·.pri = some p) = 0 := by
      rw [countP_eq_zero]
      intro w hw
      simp [hnew hw]
    rw [countP_append, hzero]
    exact h.active p
  case limit => exact h.limit
  case order => exact h.order
  case numbered => exact h.numbered
  case waiting =>
    intro w hw hphase
    rcases mem_append.mp hw with hw | hw
    · exact h.waiting w hw hphase
    · exact hnew hw

private lemma Kept.schedule (pri : Int) (threads : Nat) : (s.schedule pri threads).1.Kept := by
  refine Kept.createWorkers ?_ _
  generalize IotPri.ofInt pri = p
  constructor
  case ids => exact h.ids
  case sized => exact IotConf.sized_enqueue h.sized _ p
  case active => exact h.active
  case limit => exact h.limit
  case order =>
    intro q
    rw [filter_append, map_append, h.order q]
    by_cases hq : q = p
    · subst hq
      simp [IotConf.enqueue]
    · simp [IotConf.enqueue, update_of_ne hq, Ne.symm hq]
  case numbered =>
    rw [map_append, h.numbered, length_append, length_singleton, range_succ]
    rfl
  case waiting => exact h.waiting

private lemma Kept.step (e : IotEvent) : (IotPool.step e s).Kept := by
  cases e with
  | schedule pri threads => exact h.schedule pri threads
  | lock id now =>
    dsimp only [IotPool.step]
    split
    next w hw => exact h.lock (of_find?_key hw).1 now
    next => exact h
  | wake id timedOut now =>
    dsimp only [IotPool.step]
    split
    next w hw => exact h.wake (of_find?_key hw).1 timedOut now
    next => exact h
  | finish id =>
    dsimp only [IotPool.step]
    split
    next w hw => exact h.finish (of_find?_key hw).1
    next => exact h

end

private lemma init_kept (maxCount : Nat) (acIotLimit : IotPri → Nat) (rateLimit : BitVec 32)
    (threads : Nat) : (init maxCount acIotLimit rateLimit threads).Kept := by
  refine Kept.createWorkers ?_ _
  constructor
  case ids => rfl
  case sized => exact ⟨fun _ => rfl, rfl⟩
  case active => exact fun _ => rfl
  case limit => simp
  case order => exact fun _ => rfl
  case numbered => rfl
  case waiting => simp

/-! ### The number of threads -/

/-- `curr_count` is the number of workers that have not decided to leave. -/
def Counted (s : IotPool) : Prop := s.conf.currCount = s.workers.countP (!·.bye)

/-- A worker that has decided to leave takes itself off the count once more. It gets there if it had
to wait for the throttle after its decision, since `timeout` is still set behind that wait. -/
def GivesUpTwice : IotEvent → IotPool → Prop
  | .lock id _, s => ∃ w, s.worker? id = some w ∧ w.phase = .top ∧ w.bye = true ∧
    w.timeout = true ∧ s.conf.queueSize ≠ 0 ∧ iotMinThreads < s.conf.currCount
  | .wake id timedOut _, s => ∃ w, s.worker? id = some w ∧ w.phase = .idle ∧ w.bye = true ∧
    (timedOut = true ∨ w.timeout = true ∧ s.conf.queueSize ≠ 0) ∧
    iotMinThreads < s.conf.currCount
  | _, _ => False

section

variable (hc : s.Counted)
include hc

private lemma Counted.put_iff (h : s.Kept) (conf : IotConf) (w' : IotWorker) (hw : w ∈ s.workers)
    (hid : w'.id = w.id) :
    (s.put conf w').Counted ↔ conf.currCount + (if w.bye then 0 else 1) =
      s.conf.currCount + (if w'.bye then 0 else 1) := by
  have hcount := countP_updateAt (f := fun _ => w') (!·.bye) h.nodup hw hid.symm
  unfold Counted at hc ⊢
  change conf.currCount = ((updateAt IotWorker.id w'.id (fun _ => w') s.workers).countP _ : Nat) ↔ _
  cases hbye : w.bye <;> cases hbye' : w'.bye <;> simp only [hbye, hbye'] at hcount ⊢ <;>
    simp at hcount ⊢ <;> omega

private lemma Counted.put (h : s.Kept) (conf : IotConf) (w' : IotWorker) (hw : w ∈ s.workers)
    (hid : w'.id = w.id) (hbye : w'.bye = w.bye) (hcurr : conf.currCount = s.conf.currCount) :
    (s.put conf w').Counted := by
  rw [hc.put_iff h conf w' hw hid, hbye, hcurr]

private lemma Counted.afterWait_iff (h : s.Kept) (conf : IotConf) {x : IotWorker}
    (hx : x ∈ s.workers)
    (hid : w.id = x.id) (hbye : w.bye = x.bye) (hcurr : conf.currCount = s.conf.currCount)
    (now : Timeval) : (s.afterWait now conf w).Counted ↔
      ¬(w.bye ∧ w.timeout ∧ iotMinThreads < s.conf.currCount) := by
  obtain ⟨currCount, timeout, bye, throttle, htest, hcases⟩ := afterWait_cases now conf w s
  have hcount : (s.afterWait now conf w).Counted ↔ currCount + (if w.bye then 0 else 1) =
      s.conf.currCount + (if bye then 0 else 1) := by
    rw [hbye]
    rcases hcases with ⟨p, stub, rest, -, -, heq⟩ | ⟨phase, heq⟩ <;> rw [heq]
    · exact hc.put_iff h _ ⟨w.id, .running stub, some p, timeout, bye⟩ hx hid
    · exact hc.put_iff h _ ⟨w.id, phase, none, timeout, bye⟩ hx hid
  rw [hcount]
  unfold TimeoutTest at htest
  rw [hcurr] at htest
  split at htest
  next ht =>
    rw [htest.1, htest.2]
    cases w.bye
    · simp
    · refine iff_of_false ?_ (fun hno => hno ⟨rfl, ht⟩)
      omega
  next ht =>
    rw [htest.1, htest.2]
    simp only [true_iff]
    exact fun hall => ht hall.2

private lemma Counted.waitForRequests_iff (h : s.Kept) (conf : IotConf) {x : IotWorker}
    (hx : x ∈ s.workers) (hid : w.id = x.id) (hbye : w.bye = x.bye)
    (hcurr : conf.currCount = s.conf.currCount) (hsize : conf.queueSize = s.conf.queueSize)
    (now : Timeval) : (s.waitForRequests now conf w).Counted ↔
      ¬(w.bye ∧ w.timeout ∧ s.conf.queueSize ≠ 0 ∧
        iotMinThreads < s.conf.currCount) := by
  unfold IotPool.waitForRequests
  rw [hsize]
  split
  next hzero =>
    simp only [hzero, ne_eq, not_true_eq_false, false_and, and_false, not_false_eq_true, iff_true]
    exact hc.put h _ { w with phase := .idle } hx hid hbye hcurr
  next hzero =>
    rw [hc.afterWait_iff h conf hx hid hbye hcurr now]
    simp [hzero]

private lemma Counted.createWorkers (created : Nat) : (s.createWorkers created).Counted := by
  have hnew : ((List.range' s.workers.length created).map IotWorker.new).countP (!·.bye) =
      created := by
    rw [countP_map, countP_eq_length.mpr, length_range']
    intro i _
    rfl
  unfold Counted IotPool.createWorkers at *
  rw [countP_append, hnew]
  push_cast
  rw [← hc]

end

private lemma releasePri_spec (conf : IotConf) (w : IotWorker) :
    (releasePri conf w).2.id = w.id ∧ (releasePri conf w).2.bye = w.bye ∧
      (releasePri conf w).2.timeout = w.timeout ∧
      (releasePri conf w).1.currCount = conf.currCount ∧
      (releasePri conf w).1.queueSize = conf.queueSize := by
  unfold releasePri
  split <;> exact ⟨rfl, rfl, rfl, rfl, rfl⟩

section

variable (hc : s.Counted)
include hc

private lemma Counted.lock_iff (h : s.Kept) (hw : w ∈ s.workers) (now : Timeval) :
    (s.lock now w).Counted ↔ ¬(w.phase = .top ∧ w.bye ∧ w.timeout ∧
      s.conf.queueSize ≠ 0 ∧ iotMinThreads < s.conf.currCount) := by
  obtain ⟨hid, hbye, htimeout, hcurr, hsize⟩ := releasePri_spec s.conf w
  unfold IotPool.lock
  split
  next hphase =>
    rw [hc.waitForRequests_iff h _ hw hid hbye hcurr hsize now, hbye, htimeout]
    simp [hphase]
  next hphase =>
    refine iff_of_true ?_ (by simp [hphase])
    exact hc.put h _ { (releasePri s.conf w).2 with phase := .gone } hw hid hbye hcurr
  next hphase _ => exact iff_of_true hc (fun hall => hphase hall.1)

private lemma Counted.wake_iff (h : s.Kept) (hw : w ∈ s.workers) (timedOut : Bool) (now : Timeval) :
    (s.wake timedOut now w).Counted ↔ ¬(w.phase = .idle ∧ w.bye ∧
      (timedOut ∨ w.timeout ∧ s.conf.queueSize ≠ 0) ∧
      iotMinThreads < s.conf.currCount) := by
  unfold IotPool.wake
  split
  next hphase =>
    split
    next htimed =>
      have hiff := hc.afterWait_iff (w := { w with timeout := true }) h
        { s.conf with sleepCount := s.conf.sleepCount - 1 } hw rfl rfl rfl now
      rw [hiff]
      simp [hphase, htimed]
    next htimed =>
      have hiff := hc.waitForRequests_iff h
        { s.conf with sleepCount := s.conf.sleepCount - 1 } hw rfl rfl rfl rfl now
      rw [hiff]
      simp [hphase, htimed]
  next hphase =>
    refine iff_of_true ?_ (by simp [hphase])
    exact hc.put h _ { w with phase := .top } hw rfl rfl rfl
  next hphase _ => exact iff_of_true hc (fun hall => hphase hall.1)

private lemma Counted.finish (h : s.Kept) (hw : w ∈ s.workers) : (s.finish w).Counted := by
  unfold IotPool.finish
  split
  · exact hc.put h _ { w with phase := if w.bye then .leaving else .top } hw rfl rfl rfl
  · exact hc

/-- The count stays right exactly if no worker takes itself off twice. -/
lemma Counted.step_iff (h : s.Kept) (e : IotEvent) : (step e s).Counted ↔ ¬GivesUpTwice e s := by
  cases e with
  | schedule pri threads =>
    refine iff_of_true ?_ not_false
    exact Counted.createWorkers hc _
  | lock id now =>
    dsimp only [step, GivesUpTwice]
    split
    next w hw =>
      rw [hc.lock_iff h (of_find?_key hw).1 now]
      simp [hw]
    next hw => exact iff_of_true hc (by simp [hw])
  | wake id timedOut now =>
    dsimp only [step, GivesUpTwice]
    split
    next w hw =>
      rw [hc.wake_iff h (of_find?_key hw).1 timedOut now]
      simp [hw]
    next hw => exact iff_of_true hc (by simp [hw])
  | finish id =>
    refine iff_of_true ?_ not_false
    dsimp only [step]
    split
    next w hw => exact hc.finish h (of_find?_key hw).1
    next => exact hc

end

/-! ### Whole runs -/

private lemma count_filter_map {l : List (Nat × IotPri)} (r : Nat × IotPri) :
    ((l.filter (·.2 = r.2)).map Prod.fst).count r.1 = l.count r := by
  induction l with
  | nil => rfl
  | cons x l ih =>
    by_cases hx : x.2 = r.2
    · rw [filter_cons_of_pos (by simpa using hx), map_cons, count_cons, count_cons, ih]
      simp [Prod.ext_iff, hx]
    · rw [filter_cons_of_neg (by simpa using hx), ih]
      simp [Prod.ext_iff, hx]

/-- What the pool promises. -/
structure Sound (s : IotPool) : Prop where
  sized : Sized s.conf
  active : ∀ p, s.conf.acIotCount p = s.workers.countP (·.pri = some p) ∧
    s.conf.acIotCount p ≤ s.conf.acIotLimit p
  once : ∀ r ∈ s.arrived, s.handed.count r + (s.conf.reqs r.2).count r.1 = 1
  order : ∀ p, (s.arrived.filter (·.2 = p)).map Prod.fst =
    (s.handed.filter (·.2 = p)).map Prod.fst ++ s.conf.reqs p
  counted : s.Counted

private lemma Kept.once (h : s.Kept) {r : Nat × IotPri} (hr : r ∈ s.arrived) :
    s.handed.count r + (s.conf.reqs r.2).count r.1 = 1 := by
  have hnodup : s.arrived.Nodup := by
    apply List.Nodup.of_map Prod.fst
    rw [h.numbered]
    exact nodup_range
  calc s.handed.count r + (s.conf.reqs r.2).count r.1
      = ((s.handed.filter (·.2 = r.2)).map Prod.fst ++ s.conf.reqs r.2).count r.1 := by
        rw [count_append, count_filter_map]
    _ = s.arrived.count r := by rw [← h.order, count_filter_map]
    _ = 1 := count_eq_one_of_mem hnodup hr

private lemma Kept.sound_iff (h : s.Kept) : s.Sound ↔ s.Counted :=
  ⟨Sound.counted, fun hc =>
    ⟨h.sized, fun p => ⟨h.active p, h.limit p⟩, fun _ hr => h.once hr, h.order, hc⟩⟩

/-- The pool keeps its promises in every state of a run exactly if no worker takes itself off the
count twice. All but the count of the threads hold in every run. -/
theorem pool_sound_iff (maxCount : Nat) (acIotLimit : IotPri → Nat) (rateLimit : BitVec 32)
    (threads : Nat) (es : List IotEvent) :
    (∀ es', es' <+: es → (runAll step es' (init maxCount acIotLimit rateLimit threads)).Sound) ↔
    Throughout step (fun e s => ¬GivesUpTwice e s) es
      (init maxCount acIotLimit rateLimit threads) := by
  have hkept := init_kept maxCount acIotLimit rateLimit threads
  rw [throughout_iff_always step (fun s => s.Kept ∧ s.Counted) ?_
    ⟨hkept, Counted.createWorkers (by rfl) _⟩]
  · have hrun (es' : List IotEvent) := runAll_always step Kept (fun e _ h => h.step e) es' hkept
    constructor
    · exact fun h es' hpre => ⟨hrun es', (h es' hpre).counted⟩
    · exact fun h es' hpre => (hrun es').sound_iff.mpr (h es' hpre).2
  · rintro e s ⟨h, hc⟩
    rw [hc.step_iff h e]
    exact (and_iff_right (h.step e)).symm

/-- A worker sleeps too long while a request of the least priority comes that has to wait. -/
def overslept : List IotEvent :=
  [.schedule 0 9, .schedule 0 9, .schedule 0 9, .lock 0 ⟨100, 0⟩, .lock 1 ⟨100, 0⟩,
    .lock 2 ⟨100, 0⟩, .finish 0, .finish 1, .finish 2, .lock 0 ⟨100, 0⟩, .lock 1 ⟨100, 0⟩,
    .lock 2 ⟨100, 0⟩, .schedule 3 9, .wake 0 false ⟨100, 0⟩, .finish 0, .lock 0 ⟨100, 0⟩,
    .schedule 3 9, .wake 0 true ⟨100, 0⟩, .wake 0 false ⟨100, 0⟩, .lock 0 ⟨100, 0⟩]

/-- The worker takes itself off the count before and after its wait for the throttle: the count is
one, and two workers stay. -/
theorem pool_miscounts : (runAll step overslept (init 16 (fun _ => 16) 1 9)).conf.currCount = 1 ∧
    (runAll step overslept (init 16 (fun _ => 16) 1 9)).workers.countP (!·.bye) = 2 ∧
    ¬(runAll step overslept (init 16 (fun _ => 16) 1 9)).Sound := by
  have hcurr : (runAll step overslept (init 16 (fun _ => 16) 1 9)).conf.currCount = 1 := by
    decide +kernel
  have hstay : (runAll step overslept (init 16 (fun _ => 16) 1 9)).workers.countP (!·.bye) = 2 := by
    decide +kernel
  refine ⟨hcurr, hstay, ?_⟩
  intro hsound
  have hcounted := hsound.counted
  rw [Counted, hcurr] at hcounted
  exact absurd hcounted (by decide)

end IotPool

end TagItGluster.IoThreads
