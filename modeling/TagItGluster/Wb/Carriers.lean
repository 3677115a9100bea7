import TagItGluster.Wb.Accounts
import TagItGluster.Wb.Wip

/-!
# What carries the data of a write

A write that is collapsed is wound with the data of another one. The request that carries the data
of a write covers it, and is older or the write itself. Generations grow with the order in which
requests have been enqueued, and above those of the writes that have been acknowledged.
-/

namespace TagItGluster.Wb

open List Function Bool

/-- What the parts of a request have to do with each other. -/
structure Request.Sound (r : Request) : Prop where
  write : r.tempted = true → r.fop = .write
  lie : r.lie ≠ none → r.tempted = true
  lied : r.lied = true → r.tempted = true ∧ (r.fulfilled = false → r.lie = some .liability)
  fulfilled : r.fulfilled = true → r.tempted = true
  range : r.fop = .write → r.off ≤ r.offset ∧ r.off + r.size = r.offset + r.writeSize

namespace Request.Sound

variable {r : Request}

lemma zero : Request.zero.Sound :=
  ⟨fun _ => rfl, fun h => absurd rfl h, nofun, nofun, fun _ => ⟨le_refl _, rfl⟩⟩

private lemma enqueue (hr : r.New) (gen : Nat) : (r.enqueue gen).Sound := by
  refine ⟨hr.tempted, fun hlie => ?_, fun hlied => ?_, fun hfulfilled => ?_, hr.range⟩
  · by_contra htempted
    exact hlie (if_neg htempted)
  · exact absurd (hr.lied.symm.trans hlied) (by decide)
  · exact absurd (hr.fulfilled.symm.trans hfulfilled) (by decide)

private lemma collapse (h : r.Sound) (writeSize : Nat) : (r.collapse writeSize).Sound := by
  refine ⟨h.write, h.lie, h.lied, h.fulfilled, fun hwrite => ?_⟩
  obtain ⟨hoff, hend⟩ := h.range hwrite
  exact ⟨hoff, by simp only [Request.collapse]; omega⟩

private lemma unwind (h : r.Sound) (hlie : r.lie = some .temptation) : r.unwind.Sound := by
  have htempted : r.tempted := h.lie (hlie ▸ nofun)
  unfold Request.unwind
  split
  · next hfulfilled =>
    refine ⟨h.write, fun _ => htempted, fun _ => ⟨htempted, fun hnot => ?_⟩, h.fulfilled, h.range⟩
    exact absurd (hfulfilled.symm.trans hnot) (by decide)
  · exact ⟨h.write, fun _ => htempted, fun _ => ⟨htempted, fun _ => rfl⟩, h.fulfilled, h.range⟩

/-- A request loses its last reference only when it is not a write that is to be done. -/
lemma unref (h : r.Sound)
    (hlast : r.refcount = 1 → r.tempted → r.fulfilled) : r.unref.Sound := by
  unfold Request.unref
  split_ifs with hzero hone
  · exact h
  · refine ⟨h.write, fun hlie => absurd rfl hlie, fun hlied => ⟨(h.lied hlied).1, fun hnot => ?_⟩,
      h.fulfilled, h.range⟩
    exact absurd ((hlast hone (h.lied hlied).1).symm.trans hnot) (by decide)
  · exact ⟨h.write, h.lie, h.lied, h.fulfilled, h.range⟩

end Request.Sound

variable {r : Request} {winds others : Nat}

private lemma Request.Counted.last (h : r.Counted winds (others + 1)) (hone : r.refcount = 1) :
    r.todo = false ∧ (r.tempted → r.fulfilled) := by
  obtain ⟨hrefs, hwinds, -⟩ := h
  have htodo : r.todo = false := by
    cases htodo : r.todo with
    | false => rfl
    | true => rw [htodo] at hrefs; simp at hrefs; omega
  refine ⟨htodo, fun htempted => ?_⟩
  cases hfulfilled : r.fulfilled with
  | true => rfl
  | false => rw [htempted, hfulfilled] at hwinds; simp at hwinds; omega

lemma Request.Counted.all_of_tempted (h : r.Counted winds others) (htempted : r.tempted)
    (hfulfilled : r.fulfilled = false) : r.all = true := by
  obtain ⟨hrefs, hwinds, hall⟩ := h
  rw [htempted, hfulfilled] at hwinds
  rw [hall, decide_eq_true_eq]
  simp at hwinds
  omega

private lemma Request.Counted.of_winds (h : r.Counted (winds + 1) others) :
    r.tempted ∧ r.todo = false := by
  have hwinds := h.winds
  cases htempted : r.tempted with
  | false => rw [htempted] at hwinds; simp at hwinds
  | true =>
    refine ⟨rfl, ?_⟩
    cases htodo : r.todo with
    | false => rfl
    | true =>
      rw [htodo] at hwinds
      cases hfulfilled : r.fulfilled <;> rw [hfulfilled] at hwinds <;> simp at hwinds

lemma Move.sound {conf : Conf} {s s' : Inode} {t t' : Refs} (hmove : Move conf (s, t) (s', t'))
    (haccounts : s.Accounts t) (h : ∀ i, (s.req i).Sound) : ∀ i, (s'.req i).Sound := by
  have hupdate : ∀ {req : Nat → Request} (i : Nat) {r : Request}, (∀ i, (req i).Sound) → r.Sound →
      ∀ j, (update req i r j).Sound := fun i r h hr =>
    (forall_update_iff _ (p := fun _ (r : Request) => r.Sound)).mpr ⟨hr, fun j _ => h j⟩
  cases hmove with
  | enqueue hr => exact hupdate _ h (.enqueue hr _)
  | @go _ _ i hi | @pick _ _ i hi htodo hliability hwip =>
    exact hupdate i h ⟨(h i).write, (h i).lie, (h i).lied, (h i).fulfilled, (h i).range⟩
  | @collapse _ _ holder req hlt hreq hholder htodo hoffset =>
    refine hupdate req (hupdate holder h ((h holder).collapse _)) ?_
    exact ⟨(h req).write, (h req).lie, (h req).lied, (h req).fulfilled, (h req).range⟩
  | @unwind _ _ i hi hlie => exact hupdate i h ((h i).unwind hlie)
  | @fulfill _ t i totalSize hdue hsettled =>
    have heach : (s.req i).Counted (t.winds i + 1) (t.others i) := by
      simpa [Refs.hold] using haccounts.each i
    rw [wbFulfillRequest_req]
    refine hupdate i h (Request.Sound.unref ?_ fun _ _ => rfl)
    exact ⟨(h i).write, (h i).lie, fun hlied => ⟨((h i).lied hlied).1, fun hnot => by cases hnot⟩,
      fun _ => heach.of_winds.1, (h i).range⟩
  | @unref _ _ i hdue =>
    have heach : (s.req i).Counted (t'.winds i) (t'.others i + 1) := by
      simpa [Refs.hold] using haccounts.each i
    exact hupdate i h ((h i).unref fun hone => (heach.last hone).2)
  | error fd opErrno =>
    intro i
    unfold wbFulfillErr
    dsimp only
    split
    · exact ⟨(h i).write, (h i).lie, (h i).lied, (h i).fulfilled, (h i).range⟩
    · exact h i
  | _ => exact h

/-- What no move changes, unless it collapses. -/
def Request.fixed (r : Request) : Request :=
  { r with
    all := false, todo := false, lie := none, wip := false, opRet := 0, opErrno := 0,
    refcount := 0, lied := false, fulfilled := false, go := false }

/-- The data of the write has been answered or given up. -/
def Inode.Settled (s : Inode) (w : Nat) : Prop := s.answered w = true ∨ s.dropped w = true

/-- What a move can do, unless it collapses. -/
structure Inode.Plain (conf : Conf) (s s' : Inode) : Prop where
  count : s.count ≤ s'.count
  carrier : s'.carrier = s.carrier
  hasty : s'.hasty = s.hasty
  settled : ∀ w, s.Settled w → s'.Settled w
  fixed : ∀ i < s.count, (s'.req i).fixed = (s.req i).fixed
  new : ∀ i, s.count ≤ i → i < s'.count → ∃ r : Request, r.New ∧ s'.req i = r.enqueue s.gen
  gen : s.gen ≤ s'.gen ∨ ∀ i < s'.count, (s'.req i).all = false
  all : ∀ i < s.count, (s'.req i).all = true → (s.req i).all = true
  -- What has been acknowledged is older than what comes next.
  lied : ∀ i < s.count, (s.req i).lied = true → (s'.req i).lied = true
  lies : ∀ i < s.count, (s'.req i).lied = true → (s.req i).lied = true ∨ s.gen < s'.gen
  -- A request is fulfilled when everything that it carries is settled.
  fulfilled : ∀ i < s.count, (s'.req i).fulfilled = true → (s.req i).fulfilled = true ∨
    ∀ w, s.carrier w = i → s.Settled w
  -- A request is taken out of `todo` when it can be wound.
  todo : ∀ i < s.count, (s'.req i).todo = true → (s.req i).todo = true
  picked : ∀ i < s.count, (s.req i).todo = true → (s'.req i).todo = false →
    wbLiabilityHasConflict conf s i = false
  acked : ∀ w, s'.acked w = true → s.acked w = true ∨ s.Promised w
  wound : ∀ w, s'.wound w = true → s.wound w = true ∨ s.Picked [s.carrier w]

section

variable {conf : Conf} {s s' : Inode} {t t' : Refs}

lemma Inode.Plain.field (hplain : s.Plain conf s') {α : Type} (f : Request → α) {i : Nat}
    (hi : i < s.count) (hf : ∀ r, f r.fixed = f r) : f (s'.req i) = f (s.req i) := by
  rw [← hf, hplain.fixed i hi, hf]

/-- The requests stay as they are, but for what they return and whether they may go. -/
lemma Inode.Plain.of_same (hcount : s'.count = s.count) (hcarrier : s'.carrier = s.carrier)
    (hhasty : s'.hasty = s.hasty) (hgen : s'.gen = s.gen)
    (hreq : ∀ i, ∃ opRet opErrno go,
      s'.req i = { s.req i with opRet := opRet, opErrno := opErrno, go := go })
    (hsettled : ∀ w, s.Settled w → s'.Settled w)
    (hacked : ∀ w, s'.acked w → s.acked w ∨ s.Promised w)
    (hwound : ∀ w, s'.wound w → s.wound w ∨ s.Picked [s.carrier w]) :
    s.Plain conf s' := by
  have hfield : ∀ {α : Type} (f : Request → α) (i : Nat),
      (∀ r opRet opErrno go, f { r with opRet := opRet, opErrno := opErrno, go := go } = f r) →
      f (s'.req i) = f (s.req i) := by
    intro α f i hf
    obtain ⟨opRet, opErrno, go, heq⟩ := hreq i
    rw [heq, hf]
  refine ⟨le_of_eq hcount.symm, hcarrier, hhasty, hsettled, fun i _ => ?_, fun i hi hlt => ?_,
    .inl (le_of_eq hgen.symm), fun i _ => ?_, fun i _ => ?_, fun i _ => ?_, fun i _ => ?_,
    fun i _ => ?_, fun i _ htodo hnot => ?_, hacked, hwound⟩
  · exact hfield Request.fixed i fun _ _ _ _ => rfl
  · omega
  · exact (hfield Request.all i fun _ _ _ _ => rfl).symm ▸ id
  · exact (hfield Request.lied i fun _ _ _ _ => rfl).symm ▸ id
  · exact (hfield Request.lied i fun _ _ _ _ => rfl).symm ▸ .inl
  · exact (hfield Request.fulfilled i fun _ _ _ _ => rfl).symm ▸ .inl
  · exact (hfield Request.todo i fun _ _ _ _ => rfl).symm ▸ id
  · rw [hfield Request.todo i fun _ _ _ _ => rfl, htodo] at hnot
    cases hnot

/-- One request is changed. -/
lemma Inode.Plain.of_update {i : Nat} {r : Request} (hcount : s'.count = s.count)
    (hcarrier : s'.carrier = s.carrier) (hhasty : s'.hasty = s.hasty)
    (hanswered : s'.answered = s.answered) (hdropped : s'.dropped = s.dropped)
    (hacked : s'.acked = s.acked) (hwound : s'.wound = s.wound)
    (hgen : s.gen ≤ s'.gen ∨ ∀ i < s'.count, (s'.req i).all = false)
    (hreq : s'.req = update s.req i r) (hfixed : r.fixed = (s.req i).fixed)
    (hall : r.all → (s.req i).all)
    (hlied : (s.req i).lied → r.lied)
    (hlies : r.lied → (s.req i).lied ∨ s.gen < s'.gen)
    (hfulfilled : r.fulfilled → (s.req i).fulfilled ∨ ∀ w, s.carrier w = i → s.Settled w)
    (htodo : r.todo → (s.req i).todo)
    (hpicked : (s.req i).todo → r.todo = false →
      wbLiabilityHasConflict conf s i = false) : s.Plain conf s' := by
  have heach : ∀ (P : Nat → Request → Prop), (∀ j, P j (s.req j)) → P i r → ∀ j, P j (s'.req j) :=
    fun P hs hr => hreq ▸ (forall_update_iff _ (p := P)).mpr ⟨hr, fun j _ => hs j⟩
  refine ⟨le_of_eq hcount.symm, hcarrier, hhasty, fun w hw => ?_,
    fun j _ => heach (fun j r => r.fixed = (s.req j).fixed) (fun _ => rfl) hfixed j,
    fun j hj hlt => ?_, hgen,
    fun j _ => heach (fun j r => r.all = true → (s.req j).all = true) (fun _ => id) hall j,
    fun j _ => heach (fun j r => (s.req j).lied = true → r.lied = true) (fun _ => id) hlied j,
    fun j _ => heach (fun j r => r.lied = true → (s.req j).lied = true ∨ s.gen < s'.gen)
      (fun _ => .inl) hlies j,
    fun j _ => heach (fun j r => r.fulfilled = true → (s.req j).fulfilled = true ∨
      ∀ w, s.carrier w = j → s.Settled w) (fun _ => .inl) hfulfilled j,
    fun j _ => heach (fun j r => r.todo = true → (s.req j).todo = true) (fun _ => id) htodo j,
    fun j _ => heach (fun j r => (s.req j).todo = true → r.todo = false →
      wbLiabilityHasConflict conf s j = false)
      (fun _ htodo hnot => absurd (htodo.symm.trans hnot) (by decide)) hpicked j,
    fun w hw => .inl (hacked ▸ hw), fun w hw => .inl (hwound ▸ hw)⟩
  · rwa [Inode.Settled, hanswered, hdropped]
  · omega

/-- A request is taken out of all lists with its last reference, and then the generation may
start again. -/
lemma wbRequestUnref_gen (i : Nat) (s : Inode) : s.gen ≤ (wbRequestUnref i s).gen ∨
    ∀ j < (wbRequestUnref i s).count, ((wbRequestUnref i s).req j).all = false := by
  unfold wbRequestUnref
  dsimp only
  split
  · next hlast =>
    refine .inr fun j hj => ?_
    simpa using all_eq_true.mp (and_eq_true_iff.mp hlast).2 j (mem_range.mpr hj)
  · exact .inl (le_refl _)

private lemma unref_lists {r : Request} (htodo : r.refcount = 1 → r.todo = false) :
    (r.unref.all → r.all) ∧ r.unref.todo = r.todo ∧ r.unref.fixed = r.fixed := by
  unfold Request.unref
  split_ifs with hzero hone
  · exact ⟨id, rfl, rfl⟩
  · exact ⟨nofun, (htodo hone).symm, rfl⟩
  · exact ⟨id, rfl, rfl⟩

/-- What a collapse is. -/
structure Inode.Collapses (s s' : Inode) (holder req : Nat) : Prop where
  lt : holder < req
  count : req < s.count
  holding : (s.req holder).todo = true ∧ (s.req holder).tempted = true
  held : (s.req req).todo = true ∧ (s.req req).tempted = true
  offset : (s.req req).offset = (s.req holder).offset + (s.req holder).writeSize
  eq : s' = wbCollapseSmallWrites holder req s

/-- Every move is plain, or a collapse. -/
lemma Move.plain_or_collapses (hmove : Move conf (s, t) (s', t')) (h : s.Accounts t) :
    s.Plain conf s' ∨ ∃ holder req, s.Collapses s' holder req := by
  have hkeep : ∀ i, ∃ opRet opErrno go,
      s.req i = { s.req i with opRet := opRet, opErrno := opErrno, go := go } :=
    fun i => ⟨_, _, _, rfl⟩
  cases hmove with
  | resize | unload =>
    exact .inl (.of_same rfl rfl rfl rfl hkeep (fun _ => id) (fun _ => .inl) fun _ => .inl)
  | @enqueue _ _ r hr =>
    have hold : ∀ i < s.count, (wbEnqueueCommon r s).req i = s.req i := fun i hi =>
      update_of_ne (ne_of_lt hi) ..
    refine .inl ⟨Nat.le_succ _, rfl, rfl, fun _ => id, fun i hi => by rw [hold i hi],
      fun i hi hlt => ?_, .inl (le_refl _), fun i hi => by rw [hold i hi]; exact id,
      fun i hi => by rw [hold i hi]; exact id, fun i hi => by rw [hold i hi]; exact .inl,
      fun i hi => by rw [hold i hi]; exact .inl, fun i hi => by rw [hold i hi]; exact id,
      fun i hi htodo hnot => ?_, fun _ => .inl, fun _ => .inl⟩
    · obtain rfl : i = s.count := le_antisymm (Nat.le_of_lt_succ hlt) hi
      exact ⟨r, hr, update_self ..⟩
    · rw [hold i hi, htodo] at hnot
      cases hnot
  | @go _ _ i hi =>
    refine .inl (.of_same rfl rfl rfl rfl (fun j => ?_) (fun _ => id) (fun _ => .inl) fun _ => .inl)
    rw [Inode.setGo, Inode.set_req, update_apply]
    split
    · next heq => exact heq ▸ ⟨_, _, _, rfl⟩
    · exact ⟨_, _, _, rfl⟩
  | collapse hlt hreq hholder htodo hoffset =>
    exact .inr ⟨_, _, hlt, hreq, hholder, htodo, hoffset, rfl⟩
  | pick hi htodo hliability hwip =>
    exact .inl (.of_update rfl rfl rfl rfl rfl rfl rfl (.inl (le_refl _)) rfl rfl id id .inl
      .inl (fun htodo => by cases htodo) fun _ _ => hliability)
  | @unwind _ _ i hi hlie =>
    refine .inl (.of_update rfl rfl rfl rfl rfl rfl rfl ?_ rfl ?_ ?_ ?_ ?_ ?_ ?_ ?_)
    · refine .inl ?_
      simp only [Inode.unwind]
      split <;> omega
    all_goals unfold Request.unwind
    · split <;> rfl
    · split <;> exact id
    · split
      · exact id
      · exact fun _ => rfl
    · simp only [Inode.unwind]
      split
      · exact .inl
      · exact fun _ => .inr (Nat.lt_succ_self _)
    · split <;> exact .inl
    · split <;> exact id
    · split <;> exact fun htodo hnot => absurd (htodo.symm.trans hnot) (by decide)
  | @fulfill _ t i totalSize hdue hsettled =>
    have heach : (s.req i).Counted (t.winds i + 1) (t.others i) := by
      simpa [Refs.hold] using h.each i
    obtain ⟨hall, htodo, hfixed⟩ :=
      unref_lists (r := { s.req i with fulfilled := true }) fun _ => heach.of_winds.2
    obtain ⟨hlied, -⟩ := unref_flags { s.req i with fulfilled := true }
    have hgen := wbRequestUnref_gen i { s.set i { s.req i with fulfilled := true } with
      windowCurrent := s.windowCurrent - totalSize
      transit := s.transit - totalSize }
    refine .inl (.of_update rfl rfl rfl rfl rfl rfl rfl hgen
      (wbFulfillRequest_req ..) hfixed hall hlied.trans
      (fun h => .inl (hlied.symm.trans h)) (fun _ => .inr hsettled) ?_ ?_)
    · exact fun hnot => htodo.symm.trans hnot
    · intro hyes
      rw [heach.of_winds.2] at hyes
      cases hyes
  | @unref _ _ i hdue =>
    have heach : (s.req i).Counted (t'.winds i) (t'.others i + 1) := by
      simpa [Refs.hold] using h.each i
    obtain ⟨hall, htodo, hfixed⟩ := unref_lists fun hone => (heach.last hone).1
    obtain ⟨hlied, hfulfilled⟩ := unref_flags (s.req i)
    refine .inl (.of_update rfl rfl rfl rfl rfl rfl rfl
      (wbRequestUnref_gen ..) rfl hfixed hall (hlied ▸ id) (hlied ▸ .inl) (hfulfilled ▸ .inl)
      (htodo ▸ id) fun hyes hnot => ?_)
    rw [htodo, hyes] at hnot
    cases hnot
  | @wind _ _ is transit his =>
    refine .inl (.of_same rfl rfl rfl rfl hkeep (fun _ => id) (fun _ => .inl) fun w hw => ?_)
    rcases or_eq_true_iff.mp hw with hw | hw
    · exact .inl hw
    · refine .inr fun i hi => his i ?_
      rw [mem_singleton.mp hi]
      exact of_decide_eq_true hw
  | settle answered dropped ha hd =>
    exact .inl (.of_same rfl rfl rfl rfl hkeep (fun w => Or.imp (ha w) (hd w)) (fun _ => .inl)
      fun _ => .inl)
  | @ack _ _ i hi =>
    refine .inl (.of_same rfl rfl rfl rfl hkeep (fun _ => id) (fun w hw => ?_) fun _ => .inl)
    have hw : update s.acked i true w := hw
    rw [update_apply] at hw
    split at hw
    · next heq => exact .inr (heq ▸ hi)
    · exact .inl hw
  | error fd opErrno =>
    refine .inl (.of_same rfl rfl rfl rfl (fun j => ?_) (fun _ => id) (fun _ => .inl) fun _ => .inl)
    unfold wbFulfillErr
    dsimp only
    split <;> exact ⟨_, _, _, rfl⟩

end

/-- What a collapse does not change. -/
def Request.kept (r : Request) : Request :=
  { r with todo := false, count := 0, iobref := false, writeSize := 0, size := 0 }

namespace Inode.Collapses

variable {s s' : Inode} {holder req : Nat} (h : s.Collapses s' holder req)
include h

lemma kept (i : Nat) : (s'.req i).kept = (s.req i).kept := by
  rw [h.eq, wbCollapseSmallWrites, Inode.set_req, update_apply]
  split
  · next heq => rw [heq]; rfl
  · rw [Inode.set_req, update_apply]
    split
    · next heq => rw [heq]; rfl
    · rfl

lemma field {α : Type} (f : Request → α) (i : Nat) (hf : ∀ r, f r.kept = f r) :
    f (s'.req i) = f (s.req i) := by
  rw [← hf, h.kept i, hf]

lemma todo {i : Nat} (hi : i ≠ req) : (s'.req i).todo = (s.req i).todo := by
  rw [h.eq, wbCollapseSmallWrites, Inode.set_req, update_of_ne hi, Inode.set_req, update_apply]
  split
  · next heq => rw [heq]; rfl
  · rfl

private lemma writeSize_holder :
    (s'.req holder).writeSize = (s.req holder).writeSize + (s.req req).writeSize := by
  rw [h.eq, wbCollapseSmallWrites, Inode.set_req, update_of_ne (ne_of_lt h.lt),
    Inode.set_req, update_self, Request.collapse]

private lemma writeSize_le (i : Nat) : (s.req i).writeSize ≤ (s'.req i).writeSize := by
  by_cases hi : i = holder
  · rw [hi, h.writeSize_holder]
    exact Nat.le_add_right ..
  · rw [h.eq, wbCollapseSmallWrites, Inode.set_req, update_apply]
    split
    · next heq => rw [heq]
    · rw [Inode.set_req, update_of_ne hi]

lemma size {i : Nat} (hi : i ≠ holder) : (s'.req i).size = (s.req i).size := by
  rw [h.eq, wbCollapseSmallWrites, Inode.set_req, update_apply]
  split
  · next heq => rw [heq]
  · rw [Inode.set_req, update_of_ne hi]

lemma carrier (w : Nat) :
    s'.carrier w = if s.carrier w = req then holder else s.carrier w := by
  rw [h.eq]
  rfl

end Inode.Collapses

/-- Which requests carry what, and in which order they are. -/
structure Inode.Ordered (s : Inode) : Prop where
  fresh : ∀ w, s.count ≤ w → s.carrier w = w
  lt : ∀ w < s.count, s.carrier w < s.count
  sync : ∀ w < s.count, (s.req w).tempted = false → s.carrier w = w
  tempted : ∀ w < s.count, (s.req w).tempted = true → (s.req (s.carrier w)).tempted = true
  covers : ∀ w < s.count, (s.req (s.carrier w)).offset ≤ (s.req w).offset ∧
    (s.req w).offset + (s.req w).origSize ≤
      (s.req (s.carrier w)).offset + (s.req (s.carrier w)).writeSize
  gen : ∀ i < s.count, (s.req i).all = true →
    (s.req i).gen ≤ s.gen ∧ ((s.req i).lied = true → (s.req i).gen < s.gen)
  mono : ∀ i j, i < j → j < s.count → (s.req i).all = true → (s.req j).all = true →
    (s.req i).gen ≤ (s.req j).gen
  wound : ∀ w, s.wound w = true → w < s.count ∧ (s.req (s.carrier w)).todo = false

variable {conf : Conf} {s s' : Inode} {t t' : Refs}

private lemma Inode.Plain.ordered (hplain : s.Plain conf s') (h : s.Ordered) : s'.Ordered := by
  have hcount := hplain.count
  refine ⟨fun w hw => ?_, fun w hw => ?_, fun w hw => ?_, fun w hw => ?_, fun w hw => ?_,
    fun i hi hall => ?_, fun i j hij hj halli hallj => ?_, fun w hw => ?_⟩
  · rw [hplain.carrier]
    exact h.fresh w (le_trans hcount hw)
  · rw [hplain.carrier]
    rcases lt_or_ge w s.count with hold | hnew
    · exact lt_of_lt_of_le (h.lt w hold) hcount
    · rwa [h.fresh w hnew]
  · rw [hplain.carrier]
    rcases lt_or_ge w s.count with hold | hnew
    · rw [hplain.field Request.tempted hold fun _ => rfl]
      exact h.sync w hold
    · exact fun _ => h.fresh w hnew
  · rw [hplain.carrier]
    rcases lt_or_ge w s.count with hold | hnew
    · rw [hplain.field Request.tempted hold fun _ => rfl,
        hplain.field Request.tempted (h.lt w hold) fun _ => rfl]
      exact h.tempted w hold
    · rw [h.fresh w hnew]
      exact id
  · rw [hplain.carrier]
    rcases lt_or_ge w s.count with hold | hnew
    · rw [hplain.field Request.offset hold fun _ => rfl,
        hplain.field Request.origSize hold fun _ => rfl,
        hplain.field Request.offset (h.lt w hold) fun _ => rfl,
        hplain.field Request.writeSize (h.lt w hold) fun _ => rfl]
      exact h.covers w hold
    · obtain ⟨r, hr, heq⟩ := hplain.new w hnew hw
      rw [h.fresh w hnew, heq]
      exact ⟨le_refl _, le_of_eq (congrArg _ hr.orig)⟩
  · have hgen := hplain.gen.resolve_right fun hnone =>
      absurd ((hnone i hi).symm.trans hall) (by decide)
    rcases lt_or_ge i s.count with hold | hnew
    · rw [hplain.field Request.gen hold fun _ => rfl]
      obtain ⟨hle, hlt⟩ := h.gen i hold (hplain.all i hold hall)
      refine ⟨le_trans hle hgen, fun hlied => ?_⟩
      rcases hplain.lies i hold hlied with hlied | hless
      · exact lt_of_lt_of_le (hlt hlied) hgen
      · exact lt_of_le_of_lt hle hless
    · obtain ⟨r, hr, heq⟩ := hplain.new i hnew hi
      rw [heq]
      exact ⟨hgen, fun hlied => absurd (hr.lied.symm.trans hlied) (by decide)⟩
  · rcases lt_or_ge i s.count with holdi | hnewi
    · rw [hplain.field Request.gen holdi fun _ => rfl]
      have halli := hplain.all i holdi halli
      rcases lt_or_ge j s.count with holdj | hnewj
      · rw [hplain.field Request.gen holdj fun _ => rfl]
        exact h.mono i j hij holdj halli (hplain.all j holdj hallj)
      · obtain ⟨r, -, heq⟩ := hplain.new j hnewj hj
        rw [heq]
        exact (h.gen i holdi halli).1
    · obtain ⟨r, -, heqi⟩ := hplain.new i hnewi (lt_trans hij hj)
      obtain ⟨r', -, heqj⟩ := hplain.new j (le_trans hnewi (le_of_lt hij)) hj
      rw [heqi, heqj]
      exact le_refl _
  · have hstays : ∀ i < s.count, (s.req i).todo = false → (s'.req i).todo = false :=
      fun i hi hnot => eq_false_iff.mpr fun htodo =>
        absurd (hnot.symm.trans (hplain.todo i hi htodo)) (by decide)
    rw [hplain.carrier]
    rcases hplain.wound w hw with hw | hpicked
    · obtain ⟨hlt, hnot⟩ := h.wound w hw
      exact ⟨lt_of_lt_of_le hlt hcount, hstays _ (h.lt w hlt) hnot⟩
    · obtain ⟨hlt, hnot⟩ := hpicked _ mem_cons_self
      refine ⟨lt_of_lt_of_le ?_ hcount, hstays _ hlt hnot⟩
      by_contra hnew
      rw [h.fresh w (Nat.le_of_not_lt hnew)] at hlt
      exact hnew hlt

private lemma Inode.Collapses.ordered {holder req : Nat} (hc : s.Collapses s' holder req)
    (h : s.Ordered) : s'.Ordered := by
  have hcount : s'.count = s.count := by rw [hc.eq]; rfl
  have hgen : s'.gen = s.gen := by rw [hc.eq]; rfl
  have hholder : holder < s.count := lt_trans hc.lt hc.count
  refine ⟨fun w hw => ?_, fun w hw => ?_, fun w hw htempted => ?_, fun w hw htempted => ?_,
    fun w hw => ?_, fun i hi => ?_, fun i j hij hj => ?_, fun w hw => ?_⟩
  · rw [hcount] at hw
    have hne : w ≠ req := ne_of_gt (lt_of_lt_of_le hc.count hw)
    rw [hc.carrier, h.fresh w hw, if_neg hne]
  · rw [hcount] at hw ⊢
    rw [hc.carrier]
    split
    · exact hholder
    · exact h.lt w hw
  · rw [hcount] at hw
    rw [hc.field Request.tempted w fun _ => rfl] at htempted
    rw [hc.carrier, h.sync w hw htempted, if_neg]
    intro heq
    rw [heq, hc.held.2] at htempted
    cases htempted
  · rw [hcount] at hw
    rw [hc.field Request.tempted w fun _ => rfl] at htempted
    rw [hc.carrier, hc.field Request.tempted _ fun _ => rfl]
    split
    · exact hc.holding.2
    · exact h.tempted w hw htempted
  · rw [hcount] at hw
    obtain ⟨hle, hend⟩ := h.covers w hw
    rw [hc.carrier, hc.field Request.offset w fun _ => rfl,
      hc.field Request.origSize w fun _ => rfl]
    split
    · next heq =>
      rw [heq] at hle hend
      have hoffset := hc.offset
      rw [hc.field Request.offset holder fun _ => rfl, hc.writeSize_holder]
      exact ⟨by omega, by omega⟩
    · rw [hc.field Request.offset _ fun _ => rfl]
      have hsize := hc.writeSize_le (s.carrier w)
      exact ⟨hle, by omega⟩
  · rw [hcount] at hi
    rw [hc.field Request.all i fun _ => rfl, hc.field Request.gen i fun _ => rfl,
      hc.field Request.lied i fun _ => rfl, hgen]
    exact h.gen i hi
  · rw [hcount] at hj
    rw [hc.field Request.all i fun _ => rfl, hc.field Request.all j fun _ => rfl,
      hc.field Request.gen i fun _ => rfl, hc.field Request.gen j fun _ => rfl]
    exact h.mono i j hij hj
  · have hw : s.wound w := by
      rw [hc.eq] at hw
      exact hw
    obtain ⟨hlt, hnot⟩ := h.wound w hw
    refine ⟨hcount ▸ hlt, ?_⟩
    rw [hc.carrier]
    split
    · next heq =>
      rw [heq, hc.held.1] at hnot
      cases hnot
    · next hne =>
      rw [hc.todo hne]
      exact hnot

lemma Move.ordered (hmove : Move conf (s, t) (s', t')) (haccounts : s.Accounts t)
    (h : s.Ordered) : s'.Ordered := by
  rcases hmove.plain_or_collapses haccounts with hplain | ⟨holder, req, hc⟩
  · exact hplain.ordered h
  · exact hc.ordered h

end TagItGluster.Wb
