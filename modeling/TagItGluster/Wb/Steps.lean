import TagItGluster.Wb.Moves

/-!
# Runs of the queue

What each thread still has to do refers to requests that have been taken out of `todo`, and the
references to them are in its hands until it is done, or with the server in between. So every event
is a number of moves, and what the moves keep holds in every run.
-/

namespace TagItGluster.Wb

open Relation Base List Function

namespace Action

/-- The writes that a thread has taken out of `todo`, and has to wind or to get done. -/
def winds : Action → List Nat
  | .fulfill batches _ => batches.flatMap Batch.members
  | .wind b _ => b.members
  | .headDone b _ _ => b.members
  | _ => []

/-- The requests with another reference that a thread has to drop, or to hand to the server. -/
def others : Action → List Nat
  | .unref i => [i]
  | .resume i write => if write then [i] else []
  | _ => []

/-- What a thread has to do can be done. -/
def Ok (s : Inode) : Action → Prop
  | .enqueue r => r.New
  | .unwind i => s.Promised i
  | .resume i _ => s.Picked [i]
  | .fulfill batches _ => s.Picked (batches.flatMap Batch.members)
  | .wind b totalSize => s.Picked b.members ∧ totalSize = sizes s.req b.members
  | .headDone b totalSize wound =>
    s.Picked b.members ∧ totalSize ≤ sizes s.req b.members ∧
      (wound = true → totalSize = sizes s.req b.members)
  | _ => True

private lemma Ok.mono {s s' : Inode} (h : s.Before s') {a : Action} (ha : a.Ok s) : a.Ok s' := by
  cases a with
  | unwind i => exact Inode.Promised.mono h ha
  | resume | fulfill => exact Inode.Picked.mono h ha
  | wind b totalSize =>
    exact ⟨Inode.Picked.mono h ha.1, ha.2.trans (sizes_eq_of_before h ha.1).symm⟩
  | headDone b totalSize wound =>
    refine ⟨Inode.Picked.mono h ha.1, ?_⟩
    rw [sizes_eq_of_before h ha.1]
    exact ha.2
  | _ => exact ha

end Action

namespace Shared

/-- The writes that the server has not answered. -/
def winds (s : Shared) : List Nat := s.outstanding.flatMap fun o => o.1.members

end Shared

section

variable (conf : Conf) (req : Nat → Request)

private lemma fulfillFrom_members (g : Gathering) (is : List Nat) :
    (fulfillFrom conf req g is).flatMap Batch.members = g.batch.members ++ is := by
  induction is generalizing g with
  | nil => simp [fulfillFrom]
  | cons i is ih =>
    unfold fulfillFrom
    split
    · rw [flatMap_cons, ih]
      rfl
    · rw [ih]
      simp [Batch.members]

/-- Every request of the list is in one of the batches. -/
lemma wbFulfill_members (is : List Nat) :
    (wbFulfill conf req is).flatMap Batch.members = is := by
  cases is with
  | nil => rfl
  | cons i is =>
    rw [wbFulfill, fulfillFrom_members]
    rfl

private lemma sizes_cons (i : Nat) (is : List Nat) :
    sizes req (i :: is) = (req i).writeSize + sizes req is := by
  simp [sizes]

private lemma sizes_take_le (n : Nat) (is : List Nat) : sizes req (is.take n) ≤ sizes req is := by
  have h : sizes req (is.take n ++ is.drop n) = sizes req is := by rw [take_append_drop]
  rw [sizes, map_append, sum_append] at h
  exact Nat.le.intro h

end

section

variable {conf : Conf} {t : Refs}

private lemma fulfillRequests_frame (is : List Nat) (s : Inode) (i : Nat) :
    ((runAll (wbFulfillRequest 0) is s).req i).writeSize = (s.req i).writeSize ∧
      (runAll (wbFulfillRequest 0) is s).carrier = s.carrier ∧
      (runAll (wbFulfillRequest 0) is s).answered = s.answered ∧
      (runAll (wbFulfillRequest 0) is s).dropped = s.dropped := by
  refine runAll_always (wbFulfillRequest 0) (fun s' => (s'.req i).writeSize = (s.req i).writeSize ∧
    s'.carrier = s.carrier ∧ s'.answered = s.answered ∧ s'.dropped = s.dropped)
    (fun j s' h => ⟨?_, h.2⟩) is ⟨rfl, rfl, rfl, rfl⟩
  rw [wbFulfillRequest_req, update_apply, ← h.1]
  split
  · next heq =>
    rw [heq, Request.fulfill]
    unfold Request.unref
    split_ifs <;> rfl
  · rfl

/-- The requests of a batch besides its head are done, while the head is not. -/
lemma fulfillRequests_moves (conf : Conf) (is : List Nat) {s : Inode} (hhead : ∃ j, 0 < t.winds j)
    (hsettled : ∀ w, s.carrier w ∈ is → s.answered w ∨ s.dropped w) :
    ReflTransGen (Move conf) (s, t.hold is [])
      (runAll (wbFulfillRequest 0) is s, t.owe (sizes s.req is)) := by
  induction is generalizing s t with
  | nil => rw [Refs.owe_eq_self (by rfl)]; exact .refl
  | cons i is ih =>
    have hmove := @Move.fulfill conf s (t.hold is []) i 0
      (.inr (hhead.imp fun j hj => Nat.lt_of_lt_of_le hj (Nat.le_add_right ..)))
      fun w hw => hsettled w (hw ▸ mem_cons_self)
    have hsizes : sizes (wbFulfillRequest 0 i s).req is = sizes s.req is := by
      unfold sizes
      congr 1
      exact map_congr_left fun j _ => (fulfillRequests_frame [i] s j).1
    have hrest := ih (t := t.owe ((s.req i).writeSize - (0 : Nat))) (s := wbFulfillRequest 0 i s)
      hhead fun w hw => hsettled w (mem_cons_of_mem i hw)
    have hall : (t.owe ((s.req i).writeSize - (0 : Nat))).owe (sizes s.req is) =
        t.owe (sizes s.req (i :: is)) := by
      rw [Refs.owe_owe]
      congr 1
    have hstart : (t.hold is []).hold [i] [] = t.hold (i :: is) [] :=
      (Refs.hold_hold ..).trans (Refs.hold_congr (perm_append_comm.count_eq ·) fun _ => rfl)
    rw [hsizes, hall] at hrest
    rw [hstart] at hmove
    exact .head hmove hrest

variable {b : Batch} {totalSize : Nat} {s : Shared}

/-- A batch is done. What its wind did not load is not given back to the window. -/
lemma wbHeadDone_moves (conf : Conf) {s : Inode} {wound : Bool} (hdue : t.due = 0)
    (hle : totalSize ≤ sizes s.req b.members)
    (hwound : wound → totalSize = sizes s.req b.members) :
    ReflTransGen (Move conf) (s, t.hold b.members [])
      (wbHeadDone b totalSize (s.settle b totalSize wound), t) := by
  -- What is recorded first.
  have hsettle : ReflTransGen (Move conf) (s, t.hold b.members []) (s.settle b totalSize wound,
        (t.owe (totalSize - sizes s.req b.members)).hold b.members []) ∧
      (∀ w, s.carrier w ∈ b.members → (s.settle b totalSize wound).answered w = true ∨
        (s.settle b totalSize wound).dropped w = true) ∧
      (s.settle b totalSize wound).req = s.req ∧
      (s.settle b totalSize wound).carrier = s.carrier := by
    cases wound with
    | true =>
      rw [Refs.owe_eq_self (by rw [hwound rfl]; omega)]
      refine ⟨.single (.settle (fun w => s.answered w || decide (s.carrier w ∈ b.members)) s.dropped
        (fun w hw => by rw [hw]; rfl) fun w hw => hw), fun w hw => .inl ?_, rfl, rfl⟩
      simp [Inode.settle, Inode.answer, hw]
    | false =>
      refine ⟨.tail (.single (.settle s.answered
        (fun w => s.dropped w || decide (s.carrier w ∈ b.members)) (fun w hw => hw)
        fun w hw => by rw [hw]; rfl)) ?_, fun w hw => .inr ?_, rfl, rfl⟩
      · have hmove := @Move.unload conf
          { s with dropped := fun w => s.dropped w || decide (s.carrier w ∈ b.members) }
          (t.hold b.members []) (sizes s.req b.members - totalSize)
        rw [show -((sizes s.req b.members - totalSize : Nat) : Int) =
          totalSize - sizes s.req b.members by omega] at hmove
        exact hmove
      · simp [Inode.settle, Inode.drop, hw]
  obtain ⟨hrecord, hsettled, hreq, hcarrier⟩ := hsettle
  generalize s.settle b totalSize wound = s' at hrecord hsettled hreq hcarrier ⊢
  -- Then the requests behind the head, and the head at last.
  obtain ⟨hsize, hcarrier', hanswered, hdropped⟩ := fulfillRequests_frame b.winds s' b.head
  have hwinds := fulfillRequests_moves conf b.winds
    (t := (t.owe (totalSize - sizes s.req b.members)).hold [b.head] [])
    ⟨b.head, by simp [Refs.hold]⟩ fun w hw => hsettled w (hcarrier ▸ mem_cons_of_mem _ hw)
  have hhead := @Move.fulfill conf (runAll (wbFulfillRequest 0) b.winds s')
    ((t.owe (totalSize - sizes s.req b.members)).owe (sizes s'.req b.winds)) b.head totalSize
    (.inl ?_) fun w hw => ?_
  · have hstart : ((t.owe (totalSize - sizes s.req b.members)).hold [b.head] []).hold b.winds [] =
        (t.owe (totalSize - sizes s.req b.members)).hold b.members [] := Refs.hold_hold ..
    have hend : ((t.owe (totalSize - sizes s.req b.members)).owe (sizes s'.req b.winds)).owe
        (((runAll (wbFulfillRequest 0) b.winds s').req b.head).writeSize - totalSize) = t := by
      rw [Refs.owe_owe, Refs.owe_owe, hsize, hreq, Batch.members, sizes_cons]
      exact Refs.owe_eq_self (by omega)
    rw [hstart] at hwinds
    rw [hend] at hhead
    exact (hrecord.trans hwinds).tail hhead
  · show t.due + _ + _ + _ = 0
    rw [hsize, hreq, Batch.members, sizes_cons]
    omega
  · rw [hanswered, hdropped]
    rw [hcarrier', hcarrier] at hw
    exact hsettled w (hw ▸ mem_cons_self)

private lemma wbEnqueueRange_moves (stub : Stub) (s : Inode) :
    ReflTransGen (Move conf) (s, t) ((wbEnqueueRange conf stub s).1, t) := by
  have hsize : (wbEnqueueRange conf stub s).1 =
      { s with size := (wbEnqueueRange conf stub s).1.size } := by
    unfold wbEnqueueRange
    cases stub.fop <;> rfl
  rw [hsize]
  exact .single (.resize _)

/-- What a failed or a successful wind still has to do. -/
lemma wbFulfillHead_ok (env : Env) (hb : s.inode.Picked b.members) :
    (∀ a ∈ (wbFulfillHead env b s).1, a.Ok s.inode) ∧
      (wbFulfillHead env b s).1.flatMap Action.winds = b.members ∧
      (wbFulfillHead env b s).1.flatMap Action.others = [] := by
  have hloaded : ∀ j, sizes s.inode.req (b.head :: b.winds.take (j + 1)) ≤
      sizes s.inode.req b.members := by
    intro j
    exact Nat.add_le_add_left (sizes_take_le ..) _
  have hfailing : ∀ fd e totalSize, totalSize ≤ sizes s.inode.req b.members →
      (∀ a ∈ failing fd e ++ [Action.headDone b totalSize false], a.Ok s.inode) ∧
        (failing fd e ++ [Action.headDone b totalSize false]).flatMap Action.winds = b.members ∧
        (failing fd e ++ [Action.headDone b totalSize false]).flatMap Action.others = [] := by
    intro fd e totalSize hle
    refine ⟨fun a ha => ?_, by simp [failing, Action.winds], by simp [failing, Action.others]⟩
    simp only [failing, cons_append, nil_append, mem_cons, not_mem_nil, or_false] at ha
    rcases ha with rfl | rfl | rfl
    · trivial
    · trivial
    · exact ⟨hb, hle, nofun⟩
  unfold wbFulfillHead
  dsimp only
  split
  · exact hfailing _ _ _ (hloaded _)
  split_ifs
  · refine ⟨fun a ha => ?_, by simp [Action.winds], by simp [Action.others]⟩
    obtain rfl := mem_singleton.mp ha
    exact ⟨hb, Nat.le_refl _, nofun⟩
  · exact hfailing _ _ _ (Nat.le_refl _)
  · refine ⟨fun a ha => ?_, by simp [Action.winds], by simp [Action.others]⟩
    obtain rfl := mem_singleton.mp ha
    exact ⟨hb, rfl⟩

/-- What a pass leaves to do. -/
lemma actions_ok {s : Inode} {p : Pass} (h : p.From conf s t) :
    (∀ a ∈ p.actions conf, a.Ok p.inode) ∧ (p.actions conf).flatMap Action.winds = p.liabilities ∧
      ∀ i, ((p.actions conf).flatMap Action.others).count i = p.others.count i := by
  unfold Pass.actions
  refine ⟨fun a ha => ?_, ?_, fun i => ?_⟩
  · simp only [mem_append, mem_flatMap, mem_cons, not_mem_nil, or_false] at ha
    rcases ha with (⟨i, hi, rfl | rfl⟩ | ⟨i, hi, rfl | rfl⟩) | rfl
    · exact h.lies i hi
    · trivial
    · intro j hj
      obtain rfl := mem_singleton.mp hj
      exact h.tasks _ (mem_map_of_mem hi)
    · trivial
    · rw [Action.Ok, wbFulfill_members]
      exact h.liabilities
  · have hnone : ∀ {α : Type} (l : List α), (l.flatMap fun _ => ([] : List Nat)) = [] :=
      fun l => flatMap_eq_nil_iff.mpr fun _ _ => rfl
    simp [Action.winds, flatMap_assoc, wbFulfill_members, hnone]
  · have htasks : (p.tasks.flatMap fun i => (if i.2 then [i.1] else []) ++ [i.1]) =
        p.tasks.flatMap fun i => if i.2 then [i.1, i.1] else [i.1] := by
      congr 1
      funext i
      cases i.2 <;> rfl
    simp only [flatMap_append, flatMap_assoc, flatMap_cons, Action.others,
      flatMap_nil, append_nil, nil_append, flatMap_singleton', htasks,
      Pass.others, count_append]
    omega

/-- A step of a thread is a number of moves, and what is left to do can be done. -/
structure Steps (conf : Conf) (t : Refs) (a : Action) (s : Shared) (more : List Action)
    (s' : Shared) : Prop where
  moves : ReflTransGen (Move conf) (s.inode, t.hold (a.winds ++ s.winds) (a.others ++ s.syncs))
    (s'.inode, t.hold (more.flatMap Action.winds ++ s'.winds)
      (more.flatMap Action.others ++ s'.syncs))
  more : ∀ b ∈ more, b.Ok s'.inode
  outstanding : ∀ o ∈ s'.outstanding, o ∈ s.outstanding ∨ (Action.wind o.1 o.2).Ok s'.inode

private lemma count_append_comm (is js : List Nat) (i : Nat) :
    (is ++ js).count i = (js ++ is).count i := perm_append_comm.count_eq i

private lemma process_steps (env : Env) (s : Shared) (hdue : t.due = 0) :
    Steps conf t .process s ((wbProcessQueue conf env.noBuffer s.inode).actions conf)
      { s with inode := (wbProcessQueue conf env.noBuffer s.inode).inode } := by
  have hfrom := wbProcessQueue_from (t := t.hold s.winds s.syncs) conf env.noBuffer s.inode hdue
  obtain ⟨hok, hwinds, hothers⟩ := actions_ok hfrom
  generalize wbProcessQueue conf env.noBuffer s.inode = p at hfrom hok hwinds hothers ⊢
  have hend : t.hold (s.winds ++ p.liabilities) (s.syncs ++ p.others) =
      t.hold ((p.actions conf).flatMap Action.winds ++ s.winds)
        ((p.actions conf).flatMap Action.others ++ s.syncs) := by
    refine Refs.hold_congr (fun i => ?_) fun i => ?_
    · rw [hwinds]
      exact count_append_comm ..
    · rw [count_append, count_append, hothers]
      exact add_comm ..
  have hmoves := hfrom.moves
  rw [Refs.hold_hold, hend] at hmoves
  exact ⟨hmoves, hok, fun o ho => .inl ho⟩

private lemma unref_steps (i : Nat) (s : Shared) (hdue : t.due = 0) :
    Steps conf t (.unref i) s [] { s with inode := wbRequestUnref i s.inode } := by
  refine ⟨.single ?_, forall_mem_nil _, fun o ho => .inl ho⟩
  have hmove := @Move.unref conf s.inode (t.hold s.winds s.syncs) i hdue
  rw [Refs.hold_hold, append_nil, Refs.hold_congr (fun _ => rfl) (count_append_comm _ _)] at hmove
  exact hmove

private lemma resume_steps {i : Nat} (write : Bool) (hi : s.inode.Picked [i]) :
    Steps conf t (.resume i write) s [] { s with
      inode := s.inode.wind [i]
      syncs := if write then s.syncs ++ [i] else s.syncs } := by
  refine ⟨.single ?_, forall_mem_nil _, fun o ho => .inl ho⟩
  have hmove := @Move.wind conf s.inode
    (t.hold s.winds (Action.others (.resume i write) ++ s.syncs)) [i] s.inode.transit hi
  have hsyncs : t.hold s.winds (Action.others (.resume i write) ++ s.syncs) =
      t.hold s.winds (if write then s.syncs ++ [i] else s.syncs) := by
    refine Refs.hold_congr (fun _ => rfl) fun j => ?_
    cases write with
    | true => exact count_append_comm ..
    | false => rfl
  rw [hsyncs] at hmove
  show Move conf (_, t.hold s.winds (Action.others (.resume i write) ++ s.syncs)) _
  rw [hsyncs]
  exact hmove

private lemma fulfill_steps {env : Env} {batches : List Batch} {retry : Bool}
    (h : s.inode.Picked ((b :: batches).flatMap Batch.members)) :
    Steps conf t (.fulfill (b :: batches) retry) s ((wbFulfillHead env b s).1 ++
      [.fulfill batches (retry || (wbFulfillHead env b s).2)]) s := by
  obtain ⟨hok, hwinds, hothers⟩ := wbFulfillHead_ok env
    fun i hi => h i (mem_append_left _ hi)
  refine ⟨?_, fun a ha => ?_, fun o ho => .inl ho⟩
  · rw [flatMap_append, flatMap_append, hwinds, hothers]
    simp only [flatMap_cons, flatMap_nil, append_nil, Action.winds]
    exact .refl
  · rcases mem_append.mp ha with ha | ha
    · exact hok a ha
    · obtain rfl := mem_singleton.mp ha
      exact fun i hi => h i (mem_append_right _ hi)

private lemma wind_steps (h : (Action.wind b totalSize).Ok s.inode) :
    Steps conf t (.wind b totalSize) s [] { s with
      inode := { s.inode.wind b.members with transit := s.inode.transit + totalSize }
      outstanding := s.outstanding ++ [(b, totalSize)] } := by
  have hmove := @Move.wind conf s.inode (t.hold (b.members ++ s.winds) s.syncs) b.members
    (s.inode.transit + totalSize) h.1
  refine ⟨.single ?_, forall_mem_nil _, fun o ho => ?_⟩
  · have hwinds : t.hold (b.members ++ s.winds) s.syncs =
        t.hold (s.outstanding ++ [(b, totalSize)] |>.flatMap fun o => o.1.members) s.syncs := by
      refine Refs.hold_congr (fun i => ?_) fun _ => rfl
      rw [flatMap_append, flatMap_cons, flatMap_nil, append_nil]
      exact count_append_comm ..
    show Move conf (_, t.hold (b.members ++ s.winds) s.syncs) _
    rw [hwinds] at hmove ⊢
    exact hmove
  · rcases mem_append.mp ho with ho | ho
    · exact .inl ho
    · obtain rfl := mem_singleton.mp ho
      exact .inr (h.mono hmove.before)

/-- Every step of a thread. -/
lemma exec_steps {env : Env} {a : Action} {s' : Shared} {more : List Action}
    (h : exec conf env a s = some (more, s')) (ha : a.Ok s.inode) (hdue : t.due = 0) :
    Steps conf t a s more s' := by
  cases a with
  | call stub =>
    simp only [exec, Option.some.injEq] at h
    obtain ⟨rfl, rfl⟩ := h
    split_ifs
    · exact ⟨.refl, forall_mem_nil _, fun o ho => .inl ho⟩
    · exact ⟨.refl, by simp [Action.Ok], fun o ho => .inl ho⟩
  | range stub =>
    obtain ⟨rfl, rfl⟩ := h
    refine ⟨wbEnqueueRange_moves stub s.inode, ?_, fun o ho => .inl ho⟩
    simp [Action.Ok, wbEnqueueRange_new]
  | enqueue r =>
    obtain ⟨rfl, rfl⟩ := h
    exact ⟨.single (.enqueue ha), forall_mem_nil _, fun o ho => .inl ho⟩
  | process =>
    obtain ⟨rfl, rfl⟩ := h
    exact process_steps env s hdue
  | unwind i =>
    obtain ⟨rfl, rfl⟩ := h
    exact ⟨.single (.ack ha), forall_mem_nil _, fun o ho => .inl ho⟩
  | unref i =>
    obtain ⟨rfl, rfl⟩ := h
    exact unref_steps i s hdue
  | resume i write =>
    obtain ⟨rfl, rfl⟩ := h
    exact resume_steps write ha
  | fulfill batches retry =>
    cases batches with
    | nil =>
      obtain ⟨rfl, rfl⟩ := h
      cases retry with
      | true => exact ⟨.refl, by simp [Action.Ok], fun o ho => .inl ho⟩
      | false => exact ⟨.refl, forall_mem_nil _, fun o ho => .inl ho⟩
    | cons b batches =>
      obtain ⟨rfl, rfl⟩ := h
      exact fulfill_steps ha
  | wind b totalSize =>
    obtain ⟨rfl, rfl⟩ := h
    exact wind_steps ha
  | fdCtxSet fd opErrno =>
    obtain ⟨rfl, rfl⟩ := h
    exact ⟨.refl, forall_mem_nil _, fun o ho => .inl ho⟩
  | fulfillErr fd opErrno =>
    obtain ⟨rfl, rfl⟩ := h
    exact ⟨.single (.error fd opErrno), forall_mem_nil _, fun o ho => .inl ho⟩
  | headDone b totalSize wound =>
    obtain ⟨rfl, rfl⟩ := h
    refine ⟨?_, forall_mem_nil _, fun o ho => .inl ho⟩
    have hmoves := wbHeadDone_moves conf (t := t.hold s.winds s.syncs) hdue ha.2.1 ha.2.2
    rw [Refs.hold_hold, append_nil, Refs.hold_congr (count_append_comm _ _) fun _ => rfl] at hmoves
    exact hmoves

end

variable {conf : Conf}

/-- All references that are not those of the lists. -/
def refs (w : Workers Action Shared) : Refs where
  winds i := w.load (fun a => a.winds.count i) + w.state.winds.count i
  others i := w.load (fun a => a.others.count i) + w.state.syncs.count i
  due := 0

/-- What the threads have to do can be done, and the server has what could be wound. -/
structure Running (w : Workers Action Shared) : Prop where
  actions : ∀ as ∈ w.todo, ∀ a ∈ as, a.Ok w.state.inode
  outstanding : ∀ o ∈ w.state.outstanding, (Action.wind o.1 o.2).Ok w.state.inode

variable {w : Workers Action Shared} {k : Nat}

/-- A step of a thread. -/
lemma step_moves (thread : Nat) (env : Env) (h : Running w) :
    Running (w.step (exec conf env) thread) ∧ ReflTransGen (Move conf) (w.state.inode, refs w)
        ((w.step (exec conf env) thread).state.inode, refs (w.step (exec conf env) thread)) := by
  rcases Workers.step_cases (exec conf env) thread w with
    ⟨-, hsame⟩ | ⟨a, more, s, ⟨as, has, ha⟩, hexec, hs, rest, hload⟩
  · rw [hsame]
    exact ⟨h, .refl⟩
  let t : Refs :=
    ⟨fun i => rest fun a => a.winds.count i, fun i => rest fun a => a.others.count i, 0⟩
  have hsteps := exec_steps (t := t) hexec (h.actions as has a ha) rfl
  have hbefore := before_of_moves hsteps.moves
  refine ⟨⟨Workers.step_forall (Q := fun (s : Shared) (a : Action) => a.Ok s.inode) _ h.actions
    fun b more' s' hb hok => ?_, fun o ho => ?_⟩, ?_⟩
  · have hsteps' := exec_steps (t := t) hb hok rfl
    exact ⟨fun c hc => hc.mono (before_of_moves hsteps'.moves), hsteps'.more⟩
  · rw [hs] at ho ⊢
    rcases hsteps.outstanding o ho with ho | ho
    · exact (h.outstanding o ho).mono hbefore
    · exact ho
  · have hbegin : refs w = t.hold (a.winds ++ w.state.winds) (a.others ++ w.state.syncs) := by
      simp [refs, Refs.hold, t, (hload _).1, add_assoc]
    have hend : refs (w.step (exec conf env) thread) = t.hold (more.flatMap Action.winds ++ s.winds)
          (more.flatMap Action.others ++ s.syncs) := by
      simp [refs, Refs.hold, t, (hload _).2, add_assoc, hs,
        count_flatMap, Function.comp_def]
    rw [hs, hbegin, hend]
    exact hsteps.moves

/-- Taking out one entry leaves the others. -/
lemma count_eraseIdx_flatMap {α : Type} {l : List α} {x : α} (hk : l[k]? = some x)
    (f : α → List Nat) (i : Nat) :
    (l.flatMap f).count i = ((l.eraseIdx k).flatMap f).count i + (f x).count i := by
  obtain ⟨hlt, rfl⟩ := List.getElem?_eq_some_iff.mp hk
  rw [← ((getElem_cons_eraseIdx_perm hlt).flatMap_right f).count_eq i, flatMap_cons,
    count_append, add_comm]

/-- A new thread, when the server has answered a batch. -/
lemma reply_moves {b : Batch} {totalSize : Nat} (h : Running w)
    (hk : w.state.outstanding[k]? = some (b, totalSize)) {failed : List Action}
    (hfailed : failed = [] ∨ ∃ fd e, failed = failing fd e) :
    let w' : Workers Action Shared :=
      ⟨w.todo ++ [failed ++ [.headDone b totalSize true, .process]],
        { w.state with outstanding := w.state.outstanding.eraseIdx k }⟩
    Running w' ∧ ReflTransGen (Move conf) (w.state.inode, refs w) (w'.state.inode, refs w') := by
  intro w'
  have hb := h.outstanding _ (mem_of_getElem? hk)
  refine ⟨⟨fun as has a ha => ?_, fun o ho => ?_⟩, ?_⟩
  · rcases mem_append.mp has with has | has
    · exact h.actions as has a ha
    obtain rfl := mem_singleton.mp has
    have hdone : (Action.headDone b totalSize true).Ok w.state.inode :=
      ⟨hb.1, le_of_eq hb.2, fun _ => hb.2⟩
    rcases hfailed with rfl | ⟨fd, e, rfl⟩
    · simp only [nil_append, mem_cons, not_mem_nil, or_false] at ha
      rcases ha with rfl | rfl
      · exact hdone
      · trivial
    simp only [failing, cons_append, nil_append, mem_cons, not_mem_nil, or_false] at ha
    rcases ha with rfl | rfl | rfl | rfl
    · trivial
    · trivial
    · exact hdone
    · trivial
  · exact h.outstanding o (eraseIdx_subset ho)
  · have hsum : ∀ f : Action → List Nat, f .process = [] → (∀ fd e, f (.fdCtxSet fd e) = []) →
        (∀ fd e, f (.fulfillErr fd e) = []) → ∀ i,
        ((failed ++ [Action.headDone b totalSize true, .process]).map fun a => (f a).count i).sum =
          (f (.headDone b totalSize true)).count i := by
      intro f hprocess hset herr i
      rcases hfailed with rfl | ⟨fd, e, rfl⟩ <;> simp [failing, hprocess, hset, herr]
    have hrefs : refs w' = refs w := by
      refine Refs.ext (funext fun i => ?_) (funext fun i => ?_) rfl
      · have hcount : w.state.winds.count i = w'.state.winds.count i + b.members.count i :=
          count_eraseIdx_flatMap hk (fun o => o.1.members) i
        simp only [w', refs, Workers.load_push]
        rw [hsum Action.winds rfl (fun _ _ => rfl) fun _ _ => rfl, hcount, add_assoc]
        exact congrArg _ (add_comm ..)
      · simp only [w', refs, Workers.load_push]
        rw [hsum Action.others rfl (fun _ _ => rfl) fun _ _ => rfl]
        rfl
    exact hrefs ▸ .refl

/-- A new thread, when the server has answered a synchronous write. -/
lemma replySync_moves {i : Nat} (h : Running w) (hk : w.state.syncs[k]? = some i) :
    let w' : Workers Action Shared :=
      ⟨w.todo ++ [[.unref i, .process, .unwind i]], { w.state with
          syncs := w.state.syncs.eraseIdx k
          inode := { w.state.inode with
            answered := update w.state.inode.answered i true } }⟩
    Running w' ∧ ReflTransGen (Move conf) (w.state.inode, refs w) (w'.state.inode, refs w') := by
  intro w'
  have hmove := @Move.settle conf w.state.inode (refs w)
    (update w.state.inode.answered i true) w.state.inode.dropped (fun j hj => by
      rw [update_apply]
      split
      · rfl
      · exact hj) fun _ hj => hj
  have hbefore := hmove.before
  refine ⟨⟨fun as has a ha => ?_, fun o ho => (h.outstanding o ho).mono hbefore⟩, ?_⟩
  · rcases mem_append.mp has with has | has
    · exact (h.actions as has a ha).mono hbefore
    obtain rfl := mem_singleton.mp has
    simp only [mem_cons, not_mem_nil, or_false] at ha
    rcases ha with rfl | rfl | rfl
    · trivial
    · trivial
    · exact .inr (update_self ..)
  · have hrefs : refs w' = refs w := by
      have hcount := count_eraseIdx_flatMap hk fun i => [i]
      simp only [flatMap_singleton'] at hcount
      have hothers : ∀ j, ([Action.unref i, .process, .unwind i].map
          fun a => a.others.count j).sum = [i].count j := fun j => by simp [Action.others]
      refine Refs.ext (funext fun j => ?_) (funext fun j => ?_) rfl
      · simp only [w', refs, Workers.load_push]
        rfl
      · simp only [w', refs, Workers.load_push, hothers, hcount]
        omega
    rw [hrefs]
    exact .single hmove

/-- Every event is a number of moves. -/
lemma wbStep_moves (conf : Conf) (e : Event) (h : Running w) :
    Running (wbStep conf e w) ∧ ReflTransGen (Move conf) (w.state.inode, refs w)
      ((wbStep conf e w).state.inode, refs (wbStep conf e w)) := by
  cases e with
  | call stub =>
    refine ⟨⟨fun as has a ha => ?_, h.outstanding⟩, ?_⟩
    · rcases mem_append.mp has with has | has
      · exact h.actions as has a ha
      · obtain rfl := mem_singleton.mp has
        obtain rfl := mem_singleton.mp ha
        trivial
    · have hrefs : refs (wbStep conf (.call stub) w) = refs w := by
        simp only [wbStep, refs, Workers.load_push]
        rfl
      rw [hrefs]
      exact .refl
  | step thread env => exact step_moves thread env h
  | reply k opRet opErrno =>
    unfold wbStep
    dsimp only
    split
    · exact ⟨h, .refl⟩
    · next b totalSize hk =>
      cases replyErr opRet opErrno totalSize with
      | some e => exact reply_moves h hk (.inr ⟨_, _, rfl⟩)
      | none => exact reply_moves h hk (.inl rfl)
  | replySync k =>
    unfold wbStep
    dsimp only
    split
    · exact ⟨h, .refl⟩
    · next i hk => exact replySync_moves h hk
  | setSize size =>
    have hmove := @Move.resize conf w.state.inode (refs w) size
    exact ⟨⟨fun as has a ha => (h.actions as has a ha).mono hmove.before,
      fun o ho => (h.outstanding o ho).mono hmove.before⟩, .single hmove⟩

lemma newInode_running (conf : Conf) : Running (newInode conf) :=
  ⟨forall_mem_nil _, forall_mem_nil _⟩

lemma run_running (conf : Conf) (es : List Event) :
    Running (runAll (wbStep conf) es (newInode conf)) :=
  runAll_always (wbStep conf) Running (fun e _ h => (wbStep_moves conf e h).1) es
    (newInode_running conf)

/-- What every move keeps holds from one moment of a run to all later ones. -/
lemma run_keeps (I : Inode × Refs → Prop) (hmove : ∀ x y, Move conf x y → I x → I y)
    (es : List Event) (hw : Running w) (h : I (w.state.inode, refs w)) :
    I ((runAll (wbStep conf) es w).state.inode, refs (runAll (wbStep conf) es w)) := by
  have hmoves : ∀ x y, ReflTransGen (Move conf) x y → I x → I y := by
    intro x y hxy hx
    induction hxy with
    | refl => exact hx
    | tail _ hm ih => exact hmove _ _ hm ih
  refine (runAll_always (wbStep conf)
    (fun w => Running w ∧ I (w.state.inode, refs w)) (fun e w hw => ?_) es ⟨hw, h⟩).2
  obtain ⟨hrun, hsteps⟩ := wbStep_moves conf e hw.1
  exact ⟨hrun, hmoves _ _ hsteps hw.2⟩

end TagItGluster.Wb
