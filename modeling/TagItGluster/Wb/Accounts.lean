import Mathlib.Algebra.BigOperators.Intervals
import TagItGluster.Wb.Steps

/-!
# Sizes in the window and in transit

Each request has as many references as there are lists, threads and batches that hold one. With
that, the window is what has been acknowledged and is not done. What is in transit are the batches
that have been wound and are not done, less those that could not be wound: these are taken off, too.
-/

namespace TagItGluster.Wb

open Base List

/-- The references of a request are accounted for: one for each of the lists `todo` and
`temptation`, and those elsewhere. -/
structure Request.Counted (r : Request) (winds others : Nat) : Prop where
  refs : r.refcount = r.todo.toNat + (decide (r.lie = some .temptation)).toNat + winds + others
  winds : winds + (r.tempted && r.todo).toNat = (r.tempted && !r.fulfilled).toNat
  all : r.all = decide (0 < r.refcount)

/-- What a request has in the window: what is to be taken off when it is done, less what is to be
added when it is acknowledged. -/
def Request.debt (r : Request) : Int :=
  (if r.tempted && !r.fulfilled then (r.writeSize : Int) else 0) -
    if r.lie = some .temptation then (r.origSize : Int) else 0

namespace Request.Counted

variable {r : Request} {winds others : Nat}

private lemma not_listed (h : r.Counted winds others) (hle : r.refcount ≤ others) :
    r.todo = false ∧ r.lie ≠ some .temptation := by
  have hrefs := h.refs
  constructor
  · cases htodo : r.todo with
    | false => rfl
    | true => rw [htodo] at hrefs; simp at hrefs; omega
  · intro hlie
    rw [hlie] at hrefs
    simp at hrefs
    omega

private lemma debt_eq_zero (h : r.Counted winds others) (hzero : r.refcount = 0) : r.debt = 0 := by
  obtain ⟨htodo, hlie⟩ := h.not_listed (by omega)
  obtain ⟨hrefs, hwinds, -⟩ := h
  have hflag : (r.tempted && !r.fulfilled) = false := by
    cases hflag : r.tempted && !r.fulfilled with
    | false => rfl
    | true => rw [hflag, htodo] at hwinds; simp at hwinds; omega
  simp [debt, hflag, hlie]

private lemma unref (h : r.Counted winds (others + 1)) :
    r.unref.Counted winds others ∧ r.unref.debt = r.debt := by
  have hlast := h.not_listed
  obtain ⟨hrefs, hwinds, hall⟩ := h
  unfold Request.unref
  split_ifs with hzero hone
  · omega
  · obtain ⟨htodo, hlie⟩ := hlast (by omega)
    refine ⟨⟨?_, ?_, rfl⟩, ?_⟩
    · simp
      omega
    · simpa [htodo] using hwinds
    · simp [Request.debt, hlie]
  · refine ⟨⟨?_, hwinds, ?_⟩, rfl⟩
    · dsimp only
      omega
    · dsimp only
      rw [hall]
      exact decide_eq_decide.mpr (by omega)

private lemma fulfill (h : r.Counted (winds + 1) others) :
    r.fulfill.Counted winds others ∧ r.fulfill.debt = r.debt - r.writeSize := by
  obtain ⟨hrefs, hwinds, hall⟩ := h
  -- The reference for the wind is as good as any other from here on.
  have htempted : (r.tempted && !r.fulfilled) := by
    cases hflag : r.tempted && !r.fulfilled with
    | true => rfl
    | false => rw [hflag] at hwinds; simp at hwinds
  have hone : winds = 0 ∧ (r.tempted && r.todo) = false := by
    rw [htempted] at hwinds
    cases htodo : r.tempted && r.todo with
    | true => rw [htodo] at hwinds; simp at hwinds
    | false => rw [htodo] at hwinds; simp at hwinds; exact ⟨hwinds, rfl⟩
  have hcounted : ({ r with fulfilled := true } : Request).Counted winds (others + 1) := by
    refine ⟨?_, ?_, hall⟩
    · dsimp only
      omega
    · simp [hone]
  obtain ⟨hcounted, hdebt⟩ := hcounted.unref
  refine ⟨hcounted, hdebt.trans ?_⟩
  simp [Request.debt, htempted]

end Request.Counted

/-- The accounts of an inode. The window is right as long as all that was given up had been
loaded. -/
structure Inode.Accounts (s : Inode) (t : Refs) : Prop where
  fresh : ∀ i, s.count ≤ i → s.req i = Request.zero
  each : ∀ i, (s.req i).Counted (t.winds i) (t.others i)
  window : s.unloaded = 0 → s.windowCurrent = ∑ i ∈ Finset.range s.count, (s.req i).debt + t.due
  emptied : s.unloaded = 0 → ∀ size ∈ s.emptied, size = 0

/-- A sum in which one request is replaced. -/
lemma sum_debt_update {n i : Nat} (hi : i < n) (req : Nat → Request) (r : Request) :
    ∑ j ∈ Finset.range n, (Function.update req i r j).debt =
      ∑ j ∈ Finset.range n, (req j).debt + (r.debt - (req i).debt) := by
  have hmem : i ∈ Finset.range n := Finset.mem_range.mpr hi
  have hrest : ∑ j ∈ (Finset.range n).erase i, (Function.update req i r j).debt =
      ∑ j ∈ (Finset.range n).erase i, (req j).debt := by
    refine Finset.sum_congr rfl fun j hj => ?_
    rw [Function.update_of_ne (Finset.ne_of_mem_erase hj)]
  rw [← Finset.add_sum_erase _ _ hmem, ← Finset.add_sum_erase _ (fun j => (req j).debt) hmem,
    Function.update_self]
  omega

namespace Inode.Accounts

variable {s s' : Inode} {t t' : Refs} {i : Nat}

private lemma lt_of_refs (h : s.Accounts t) (hi : 0 < t.winds i + t.others i) : i < s.count := by
  by_contra hle
  have hrefs := (h.each i).refs
  rw [h.fresh i (Nat.le_of_not_lt hle)] at hrefs
  simp [Request.zero] at hrefs
  omega

/-- One request is changed. -/
lemma update (h : s.Accounts t) {r : Request} (hi : i < s.count) (hcount : s'.count = s.count)
    (hreq : s'.req = Function.update s.req i r) (hunloaded : s'.unloaded = s.unloaded)
    (hemptied : s'.emptied = s.emptied) (hr : r.Counted (t'.winds i) (t'.others i))
    (hothers : ∀ j, j ≠ i → t'.winds j = t.winds j ∧ t'.others j = t.others j)
    (hwindow : s'.windowCurrent - t'.due = s.windowCurrent - t.due + (r.debt - (s.req i).debt)) :
    s'.Accounts t' := by
  refine ⟨fun j hj => ?_, fun j => ?_, fun hzero => ?_, fun hzero => ?_⟩
  · have hne : j ≠ i := by omega
    rw [hreq, Function.update_of_ne hne]
    exact h.fresh j (hcount ▸ hj)
  · rw [hreq, Function.update_apply]
    split
    · next heq => rwa [heq]
    · next hne =>
      rw [(hothers j hne).1, (hothers j hne).2]
      exact h.each j
  · have hsum := h.window (hunloaded ▸ hzero)
    rw [hreq, hcount, sum_debt_update hi]
    omega
  · rw [hemptied]
    exact h.emptied (hunloaded ▸ hzero)

/-- If the list of all requests is empty, nothing is in the window. -/
lemma sum_debt_of_allEmpty (h : s.Accounts t) (hempty : s.allEmpty) :
    ∑ i ∈ Finset.range s.count, (s.req i).debt = 0 := by
  refine Finset.sum_eq_zero fun i hi => ?_
  have hall : (s.req i).all = false := by
    simpa using all_eq_true.mp hempty i (mem_range.mpr (Finset.mem_range.mp hi))
  have hzero : (s.req i).refcount = 0 := by
    have hflag := (h.each i).all
    rw [hall] at hflag
    simpa using hflag
  exact (h.each i).debt_eq_zero hzero

/-- A request is put back, and the accounts may be reset. -/
lemma unref (h : (s.set i (s.req i).unref).Accounts t) (hdue : t.due = 0 ∨ ∃ j, 0 < t.winds j) :
    (wbRequestUnref i s).Accounts t := by
  cases hlast : decide ((s.req i).refcount = 1) && (s.set i (s.req i).unref).allEmpty with
  | false =>
    have heq : wbRequestUnref i s = s.set i (s.req i).unref := by
      simp only [wbRequestUnref, hlast]
      rfl
    rw [heq]
    exact h
  | true =>
    have hempty := (Bool.and_eq_true_iff.mp hlast).2
    have hsum := h.sum_debt_of_allEmpty hempty
    have hdue : t.due = 0 := by
      -- A request that is to be wound is in the list of all requests.
      refine hdue.resolve_right ?_
      rintro ⟨j, hj⟩
      have hlt := h.lt_of_refs (Nat.lt_of_lt_of_le hj (Nat.le_add_right ..))
      have hall := all_eq_true.mp hempty j (mem_range.mpr hlt)
      rw [(h.each j).all, (h.each j).refs] at hall
      simp at hall
      omega
    have hwindow : s.unloaded = 0 → s.windowCurrent = 0 := fun hzero => by
      have := h.window hzero
      rw [hsum, hdue] at this
      exact this
    refine ⟨h.fresh, h.each, fun hzero => ?_, fun hzero => ?_⟩
    · simp only [wbRequestUnref, hlast]
      rw [hdue]
      exact (Int.add_zero _).symm ▸ hsum.symm
    simp only [wbRequestUnref, hlast]
    intro size hsize
    rcases mem_append.mp hsize with hsize | hsize
    · exact h.emptied hzero size hsize
    · rw [mem_singleton.mp hsize]
      exact hwindow hzero

end Inode.Accounts

variable {r : Request} {winds others : Nat}

private lemma Request.New.counted (hr : r.New) (gen : Nat) :
    (r.enqueue gen).Counted 0 0 ∧ (r.enqueue gen).debt = 0 := by
  cases htempted : r.tempted with
  | true =>
    refine ⟨⟨?_, ?_, ?_⟩, ?_⟩ <;>
      simp [Request.enqueue, Request.debt, htempted, hr.fulfilled, hr.orig]
  | false =>
    refine ⟨⟨?_, ?_, ?_⟩, ?_⟩ <;> simp [Request.enqueue, Request.debt, htempted]

section

variable (h : r.Counted winds others)
include h

lemma Request.Counted.fulfilled (htodo : r.todo ∧ r.tempted) : winds = 0 ∧ r.fulfilled = false := by
  have hwinds := h.winds
  rw [htodo.1, htodo.2] at hwinds
  cases hfulfilled : r.fulfilled with
  | true => rw [hfulfilled] at hwinds; simp at hwinds
  | false => rw [hfulfilled] at hwinds; simp at hwinds; exact ⟨hwinds, rfl⟩

/-- The reference of `todo` goes to the thread that winds the request. -/
lemma Request.Counted.pick (htodo : r.todo) :
    (r.tempted → r.pick.Counted (winds + 1) others) ∧ (r.tempted = false →
        r.pick.Counted winds (others + if r.fop = .write then 2 else 1)) := by
  obtain ⟨hrefs, hwinds, hall⟩ := h
  have hpos : 0 < r.refcount := by
    rw [hrefs, htodo]
    simp
  have hall' : r.pick.all = decide (0 < r.pick.refcount) := by
    rw [show r.pick.all = r.all from rfl, hall]
    exact decide_eq_decide.mpr ⟨fun h => Nat.lt_of_lt_of_le h (Nat.le_add_right ..), fun _ => hpos⟩
  rw [htodo] at hrefs hwinds
  refine ⟨fun htempted => ⟨?_, ?_, hall'⟩, fun htempted => ⟨?_, ?_, hall'⟩⟩
  · simp [Request.pick, htempted] at hrefs ⊢
    omega
  · simpa [Request.pick, htempted] using hwinds
  · simp only [Request.pick, htempted] at hrefs ⊢
    simp at hrefs ⊢
    split_ifs <;> omega
  · simpa [Request.pick, htempted] using hwinds

/-- The reference of `temptation` goes to the thread that unwinds the request. -/
lemma Request.Counted.unwind (hlie : r.lie = some .temptation) :
    r.unwind.Counted winds (others + 1) ∧ r.unwind.debt = r.debt + r.origSize := by
  obtain ⟨hrefs, hwinds, hall⟩ := h
  unfold Request.unwind
  split
  · refine ⟨⟨?_, hwinds, hall⟩, ?_⟩
    · simp [hlie] at hrefs ⊢
      omega
    · simp [Request.debt, hlie]
  · refine ⟨⟨?_, hwinds, hall⟩, ?_⟩
    · simp [hlie] at hrefs ⊢
      omega
    · simp [Request.debt, hlie]

end

lemma Move.accounts {conf : Conf} {s s' : Inode} {t t' : Refs}
    (hmove : Move conf (s, t) (s', t')) (h : s.Accounts t) : s'.Accounts t' := by
  cases hmove with
  | resize | wind | settle | ack => exact ⟨h.fresh, h.each, h.window, h.emptied⟩
  | @enqueue _ _ r hr =>
    have hnone : t.winds s.count = 0 ∧ t.others s.count = 0 := by
      have hrefs := (h.each s.count).refs
      rw [h.fresh s.count (le_refl _)] at hrefs
      simp [Request.zero] at hrefs
      omega
    obtain ⟨hcounted, hdebt⟩ := hr.counted s.gen
    refine ⟨fun j hj => ?_, fun j => ?_, fun hzero => ?_, h.emptied⟩
    · have hlt : s.count < j := hj
      rw [wbEnqueueCommon_req, Function.update_of_ne (ne_of_gt hlt)]
      exact h.fresh j (le_of_lt hlt)
    · rw [wbEnqueueCommon_req, Function.update_apply]
      split
      · next heq =>
        rw [heq, hnone.1, hnone.2]
        exact hcounted
      · exact h.each j
    · have hsum : ∑ j ∈ Finset.range s.count, ((wbEnqueueCommon r s).req j).debt =
          ∑ j ∈ Finset.range s.count, (s.req j).debt := by
        refine Finset.sum_congr rfl fun j hj => ?_
        rw [wbEnqueueCommon_req, Function.update_of_ne (ne_of_lt (Finset.mem_range.mp hj))]
      show s.windowCurrent = ∑ j ∈ Finset.range (s.count + 1), _ + t.due
      rw [Finset.sum_range_succ, hsum, wbEnqueueCommon_req, Function.update_self, hdebt, add_zero]
      exact h.window hzero
  | @go _ _ i hi =>
    exact h.update hi rfl rfl rfl rfl ⟨(h.each i).refs, (h.each i).winds, (h.each i).all⟩
      (fun _ _ => ⟨rfl, rfl⟩) (by simp [Request.debt, Inode.setGo, Inode.set])
  | @collapse _ _ holder req hlt hreq hholder htodo hoffset =>
    have hne : req ≠ holder := ne_of_gt hlt
    obtain ⟨-, hfulfilled⟩ := (h.each holder).fulfilled hholder
    obtain ⟨hwinds, hfulfilled'⟩ := (h.each req).fulfilled htodo
    -- The holder has more in the window, and the other write is left to be fulfilled.
    have hholding : (s.set holder ((s.req holder).collapse (s.req req).writeSize)).Accounts
        (t.owe (-(s.req req).writeSize)) := by
      refine h.update (lt_trans hlt hreq) rfl rfl rfl rfl
        ⟨(h.each holder).refs, (h.each holder).winds, (h.each holder).all⟩
        (fun _ _ => ⟨rfl, rfl⟩) ?_
      simp [Request.debt, Request.collapse, Refs.owe, Inode.set, hholder.2, hfulfilled]
      omega
    have hold : (s.set holder ((s.req holder).collapse (s.req req).writeSize)).req req =
        s.req req := Function.update_of_ne hne ..
    refine hholding.update hreq rfl rfl rfl rfl ⟨?_, ?_, (h.each req).all⟩ (fun j hj => ?_) ?_
    · have hrefs := (h.each req).refs
      rw [htodo.1] at hrefs
      simp [Refs.hold, Refs.owe] at hrefs ⊢
      omega
    · simp [Refs.hold, Refs.owe, hwinds, htodo.2, hfulfilled']
    · simp [Refs.hold, Refs.owe, Ne.symm hj]
    · rw [hold]
      simp [Request.debt, Refs.hold, Refs.owe, Inode.set, wbCollapseSmallWrites]
  | @pick _ _ i hi htodo hliability hwip =>
    obtain ⟨htempted, hsync⟩ := (h.each i).pick htodo
    have hwindow : s.windowCurrent - t.due =
        s.windowCurrent - t.due + ((s.req i).debt - (s.req i).debt) := by
      omega
    split
    · next hflag =>
      refine h.update hi rfl rfl rfl rfl ?_ (fun j hj => ?_) hwindow
      · simpa [Refs.hold] using htempted hflag
      · simp [Refs.hold, Ne.symm hj]
    next hflag =>
    refine h.update hi rfl rfl rfl rfl ?_ (fun j hj => ?_) hwindow
    · have hcount : (if (s.req i).fop = .write then [i, i] else [i]).count i =
          if (s.req i).fop = .write then 2 else 1 := by
        split <;> simp
      simpa [Refs.hold, hcount] using hsync (Bool.eq_false_iff.mpr hflag)
    · refine ⟨rfl, ?_⟩
      simp only [Refs.hold]
      split <;> simp [Ne.symm hj]
  | @unwind _ _ i hi hlie =>
    obtain ⟨hcounted, hdebt⟩ := (h.each i).unwind hlie
    refine h.update hi rfl rfl rfl rfl ?_ (fun j hj => ?_) ?_
    · simpa [Refs.hold] using hcounted
    · simp [Refs.hold, Ne.symm hj]
    · simp only [Inode.unwind, Refs.hold]
      omega
  | @fulfill _ t i totalSize hdue hsettled =>
    have heach : (s.req i).Counted (t.winds i + 1) (t.others i) := by
      simpa [Refs.hold] using h.each i
    obtain ⟨hcounted, hdebt⟩ := heach.fulfill
    refine Inode.Accounts.unref (h.update ?_ rfl ?_ rfl rfl hcounted (fun j hj => ?_) ?_) hdue
    · refine h.lt_of_refs ?_
      simp [Refs.hold]
    · simp [Inode.set, Request.fulfill]
    · simp [Refs.hold, Refs.owe, Ne.symm hj]
    · simp only [Inode.set, Refs.owe, Refs.hold]
      omega
  | @unref _ _ i hdue =>
    have heach : (s.req i).Counted (t'.winds i) (t'.others i + 1) := by
      simpa [Refs.hold] using h.each i
    obtain ⟨hcounted, hdebt⟩ := heach.unref
    refine Inode.Accounts.unref (h.update ?_ rfl rfl rfl rfl hcounted (fun j hj => ?_) ?_)
      (.inl hdue)
    · refine h.lt_of_refs ?_
      simp [Refs.hold]
    · simp [Refs.hold, Ne.symm hj]
    · simp only [Inode.set, Refs.hold]
      omega
  | unload size =>
    refine ⟨h.fresh, h.each, fun hzero => ?_,
      fun hzero => h.emptied (Nat.eq_zero_of_add_eq_zero_right hzero)⟩
    have hzero : s.unloaded + size = 0 := hzero
    have hwindow := h.window (by omega)
    simp only [Refs.owe]
    omega
  | error fd opErrno =>
    refine ⟨fun i hi => ?_, fun i => ?_, fun hzero => ?_, h.emptied⟩
    · have hzero := h.fresh i hi
      unfold wbFulfillErr
      dsimp only
      split
      · next hall =>
        rw [hzero] at hall
        cases hall.1
      · exact hzero
    · unfold wbFulfillErr
      dsimp only
      split <;> exact ⟨(h.each i).refs, (h.each i).winds, (h.each i).all⟩
    · have hdebt : ∀ i, ((wbFulfillErr fd opErrno s).req i).debt = (s.req i).debt := by
        intro i
        unfold wbFulfillErr
        dsimp only
        split <;> rfl
      simp only [hdebt]
      exact h.window hzero

lemma newInode_accounts (conf : Conf) :
    (newInode conf).state.inode.Accounts (refs (newInode conf)) :=
  ⟨fun _ _ => rfl, fun _ => ⟨rfl, rfl, rfl⟩, fun _ => rfl, fun _ => forall_mem_nil _⟩

private lemma run_accounts (conf : Conf) (es : List Event) :
    (runAll (wbStep conf) es (newInode conf)).state.inode.Accounts
      (refs (runAll (wbStep conf) es (newInode conf))) :=
  run_keeps (fun x => x.1.Accounts x.2) (fun _ _ hmove h => hmove.accounts h) es
    (newInode_running conf) (newInode_accounts conf)

section

variable {conf : Conf}

/-- What is in transit and what has not been loaded stays. -/
def Inode.Stays (s s' : Inode) : Prop := s'.transit = s.transit ∧ s'.unloaded = s.unloaded

/-- A pass does not change what is in transit or has not been loaded. -/
lemma wbProcessQueue_transit (conf : Conf) (noBuffer : Nat → Bool) (s : Inode) :
    s.Stays (wbProcessQueue conf noBuffer s).inode := by
  have hunwind : ∀ i (p : Pass), s.Stays p.inode → s.Stays (pickUnwind i p).inode := by
    intro i p hp
    unfold pickUnwind
    dsimp only
    split <;> exact hp
  have hwind : ∀ i (p : Pass), s.Stays p.inode → s.Stays (pickWind conf i p).inode := by
    intro i p hp
    unfold pickWind
    dsimp only
    split_ifs <;> exact hp
  have hpreprocess : ∀ i (p : Inode × Option Nat), s.Stays p.1 →
      s.Stays (preprocessWind conf noBuffer i p).1 := by
    intro i p hp
    unfold preprocessWind
    dsimp only
    split
    · exact hp
    split
    · exact hp
    split_ifs
    · exact hp
    · exact hp
    · exact hp
    · exact hp
    · exact ⟨(sub_zero _).trans hp.1, hp.2⟩
  have hstart : s.Stays (wbPreprocessWinds conf noBuffer s) := by
    have hloop := runAll_always (preprocessWind conf noBuffer) (fun p => s.Stays p.1) hpreprocess
      (List.range s.count) (s := (s, none)) ⟨rfl, rfl⟩
    unfold wbPreprocessWinds
    split
    · next heq =>
      rw [heq] at hloop
      split <;> exact hloop
    · next heq =>
      rw [heq] at hloop
      exact hloop
  exact runAll_always pickUnwind (s.Stays ·.inode) hunwind _
    (runAll_always (pickWind conf) (s.Stays ·.inode) hwind _ hstart)

private lemma wbHeadDone_transit (b : Batch) (totalSize : Nat) (s : Inode) :
    (wbHeadDone b totalSize s).transit = s.transit - totalSize ∧
      (wbHeadDone b totalSize s).unloaded = s.unloaded := by
  have hloop := runAll_always (wbFulfillRequest 0) s.Stays
    (fun _ _ h => ⟨(sub_zero _).trans h.1, h.2⟩) b.winds ⟨rfl, rfl⟩
  exact ⟨congrArg (· - (totalSize : Int)) hloop.1, hloop.2⟩

/-- The size of a batch that the server has answered and that is not done. -/
def Action.answering : Action → Nat
  | .headDone _ totalSize true => totalSize
  | _ => 0

/-- The size of all batches that have been wound and are not done: those that the server has not
answered, and those for which a thread has the answer. -/
def inTransit (w : Workers Action Shared) : Nat :=
  (w.state.outstanding.map Prod.snd).sum + w.load Action.answering

/-- What is in transit, counting what could not be wound, and what the server and the thread have
of it. -/
def Shared.surplus (s : Shared) : Int :=
  s.inode.transit + s.failures.sum - (s.outstanding.map Prod.snd).sum

private lemma actions_answering (p : Pass) : ((p.actions conf).map Action.answering).sum = 0 := by
  refine sum_eq_zero fun n hn => ?_
  obtain ⟨a, ha, rfl⟩ := mem_map.mp hn
  simp only [Pass.actions, mem_append, mem_flatMap, mem_cons, not_mem_nil, or_false] at ha
  rcases ha with (⟨i, -, rfl | rfl⟩ | ⟨i, -, rfl | rfl⟩) | rfl <;> rfl

private lemma wbFulfillHead_answering (env : Env) (b : Batch) (s : Shared) :
    ((wbFulfillHead env b s).1.map Action.answering).sum = 0 := by
  unfold wbFulfillHead
  dsimp only
  split
  · rfl
  · split_ifs <;> rfl

/-- No step changes the difference, but for what the thread has of it. -/
lemma exec_surplus {env : Env} {a : Action} {s s' : Shared} {more : List Action}
    (h : exec conf env a s = some (more, s')) :
    s'.surplus - (more.map Action.answering).sum = s.surplus - a.answering ∧
      ((s.failures = [] → s.inode.unloaded = 0) → s'.failures = [] → s'.inode.unloaded = 0) := by
  cases a with
  | call stub =>
    simp only [exec, Option.some.injEq] at h
    obtain ⟨rfl, rfl⟩ := h
    split_ifs <;> exact ⟨rfl, id⟩
  | range stub =>
    obtain ⟨rfl, rfl⟩ := h
    unfold wbEnqueueRange
    cases stub.fop <;> exact ⟨rfl, id⟩
  | enqueue r =>
    obtain ⟨rfl, rfl⟩ := h
    exact ⟨rfl, id⟩
  | process =>
    obtain ⟨rfl, rfl⟩ := h
    obtain ⟨htransit, hunloaded⟩ := wbProcessQueue_transit conf env.noBuffer s.inode
    rw [actions_answering]
    unfold Shared.surplus
    rw [htransit, hunloaded]
    exact ⟨rfl, id⟩
  | fulfill batches retry =>
    cases batches with
    | nil =>
      obtain ⟨rfl, rfl⟩ := h
      cases retry <;> exact ⟨rfl, id⟩
    | cons b batches =>
      obtain ⟨rfl, rfl⟩ := h
      rw [map_append, sum_append, wbFulfillHead_answering]
      exact ⟨rfl, id⟩
  | wind b totalSize =>
    obtain ⟨rfl, rfl⟩ := h
    refine ⟨?_, id⟩
    simp only [Shared.surplus, Action.answering, map_append, map_cons, map_nil,
      sum_append, sum_cons, sum_nil]
    omega
  | headDone b totalSize wound =>
    obtain ⟨rfl, rfl⟩ := h
    obtain ⟨htransit, hunloaded⟩ :=
      wbHeadDone_transit b totalSize (s.inode.settle b totalSize wound)
    cases wound with
    | true =>
      refine ⟨?_, ?_⟩
      · unfold Shared.surplus
        rw [htransit]
        simp only [Action.answering, Inode.settle, Inode.answer, map_nil, sum_nil, if_true]
        omega
      · rw [hunloaded]
        exact id
    | false =>
      refine ⟨?_, ?_⟩
      · unfold Shared.surplus
        rw [htransit]
        simp only [Action.answering, Inode.settle, Inode.drop, map_nil, sum_append,
          sum_cons, Bool.false_eq_true, if_false]
        omega
      · simp
  | _ =>
    obtain ⟨rfl, rfl⟩ := h
    exact ⟨rfl, id⟩

/-- What is in transit in a run. -/
structure TransitOk (w : Workers Action Shared) : Prop where
  transit : w.state.surplus = w.load Action.answering
  loaded : w.state.failures = [] → w.state.inode.unloaded = 0

private lemma wbStep_transit (conf : Conf) (e : Event) {w : Workers Action Shared} (h : TransitOk w)
    : TransitOk (wbStep conf e w) := by
  cases e with
  | call stub =>
    refine ⟨?_, h.loaded⟩
    rw [wbStep, Workers.load_push]
    exact h.transit
  | step thread env =>
    rcases Workers.step_cases (exec conf env) thread w with
      ⟨-, hsame⟩ | ⟨a, more, s, -, hexec, hs, rest, hload⟩
    · rw [wbStep, hsame]
      exact h
    obtain ⟨hsurplus, hloaded⟩ := exec_surplus hexec
    obtain ⟨hbefore, hafter⟩ := hload Action.answering
    have htransit := h.transit
    refine ⟨?_, ?_⟩
    · rw [wbStep, hs]
      omega
    · rw [wbStep, hs]
      exact hloaded h.loaded
  | reply k opRet opErrno =>
    unfold wbStep
    dsimp only
    split
    · exact h
    next b totalSize hk =>
    -- The batch goes from the server to the thread.
    have hout : (w.state.outstanding.map Prod.snd).sum =
        ((w.state.outstanding.eraseIdx k).map Prod.snd).sum + totalSize := by
      obtain ⟨hlt, hb⟩ := List.getElem?_eq_some_iff.mp hk
      rw [← ((getElem_cons_eraseIdx_perm hlt).map Prod.snd).sum_eq, hb, map_cons,
        sum_cons, Nat.add_comm]
    have htransit := h.transit
    refine ⟨?_, h.loaded⟩
    rw [Workers.load_push, map_append, sum_append]
    unfold Shared.surplus at htransit ⊢
    split
    · simp only [failing, Action.answering, map_cons, map_nil, sum_cons, sum_nil]
      omega
    · simp only [Action.answering, map_cons, map_nil, sum_cons, sum_nil]
      omega
  | replySync k =>
    unfold wbStep
    dsimp only
    split
    · exact h
    · refine ⟨?_, h.loaded⟩
      rw [Workers.load_push]
      exact h.transit
  | setSize size => exact ⟨h.transit, h.loaded⟩

private lemma run_transit (conf : Conf) (es : List Event) :
    TransitOk (runAll (wbStep conf) es (newInode conf)) :=
  runAll_always (wbStep conf) TransitOk (fun e _ h => wbStep_transit conf e h) es
    ⟨rfl, fun _ => rfl⟩

end

/-- In every run in which no batch has failed to be wound, what is in transit are the batches that
have been wound and are not done, and the window was empty whenever there was no request left. -/
theorem transit_and_window_exact (conf : Conf) (es : List Event)
    (hfailures : (runAll (wbStep conf) es (newInode conf)).state.failures = []) :
    let w := runAll (wbStep conf) es (newInode conf)
    w.state.inode.transit = inTransit w ∧ 0 ≤ w.state.inode.transit ∧
      (w.state.outstanding = [] → w.Idle → w.state.inode.transit = 0) ∧
      ∀ size ∈ w.state.inode.emptied, size = 0 := by
  intro w
  have hlaw : TransitOk w := run_transit conf es
  have htransit : w.state.inode.transit = inTransit w := by
    have hsurplus := hlaw.transit
    rw [Shared.surplus, hfailures] at hsurplus
    simp only [inTransit, sum_nil] at hsurplus ⊢
    omega
  refine ⟨htransit, ?_, fun hnone hidle => ?_,
    (run_accounts conf es).emptied (hlaw.loaded hfailures)⟩
  · omega
  · rw [htransit, inTransit, hnone, hidle.load_eq_zero]
    rfl

/-- A write that has been answered, and one that is in transit. -/
theorem transit_and_window_exact_two :
    let w := runAll (wbStep ⟨131072, 1048576, true, false, true, 131072⟩)
      (callOn .write 0 10 false :: steps 0 8 ++ .reply 0 10 0 :: steps 1 3 ++
        callOn .write 20 10 false :: steps 2 8)
      (newInode ⟨131072, 1048576, true, false, true, 131072⟩)
    w.state.failures = [] ∧ inTransit w = 10 ∧ w.state.inode.emptied = [0] ∧
      w.state.inode.transit = inTransit w ∧ 0 ≤ w.state.inode.transit ∧
      (w.state.outstanding = [] → w.Idle → w.state.inode.transit = 0) ∧
      ∀ size ∈ w.state.inode.emptied, size = 0 :=
  ⟨by decide, by decide, by decide, transit_and_window_exact _ _ (by decide)⟩

/-- A write waits while another is in transit, and then the server answers that one with an error.
The `fd` has the error, so the batch with the second write is done without being wound. -/
theorem transit_negative :
    let w := runAll (wbStep ⟨131072, 524288, true, false, true, 131072⟩)
      (callOn .write 0 524289 false :: steps 0 9 ++ callOn .write 600000 10 false :: steps 1 8 ++
        .reply 0 (-1) 5 :: steps 2 9)
      (newInode ⟨131072, 524288, true, false, true, 131072⟩)
    w.state.inode.transit = -10 ∧ inTransit w = 0 := by
  decide

end TagItGluster.Wb
