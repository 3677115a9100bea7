import TagItGluster.Wb.Carriers

/-!
# Acknowledged writes come first

Once a write has been acknowledged, the request that carries its data is in the list `liability`
until the data has been answered or given up. What is enqueued after that has a higher generation,
and waits in `todo` if it overlaps. A request may also be carried by an older one, though: if that
one has not been acknowledged itself, or is not younger than what it has to wait for, the order is
lost.
-/

namespace TagItGluster.Wb

open Base List Bool

/-- The byte is in the range of a call: among those that a write is for, or in the range that other
calls are ordered by. -/
def Request.Touches (r : Request) (b : Nat) : Prop :=
  if r.fop = .write then r.offset ≤ b ∧ b < r.offset + r.origSize else r.InRange b

instance (r : Request) (b : Nat) : Decidable (r.Touches b) :=
  inferInstanceAs (Decidable
    (if r.fop = .write then r.offset ≤ b ∧ b < r.offset + r.origSize else r.InRange b))

/-- The request has been acknowledged, and is not done. -/
def Inode.Liable (s : Inode) (i : Nat) : Prop :=
  (s.req i).lied = true ∧ (s.req i).fulfilled = false

/-- The data of a write that has been acknowledged or collapsed is carried by a request that has
been acknowledged. -/
def Inode.Careful (s : Inode) : Prop :=
  ∀ w < s.count, (s.req w).tempted = true → s.Settled w ∨ s.Liable (s.carrier w) ∨
    s.carrier w = w ∧ (s.req w).lied = false ∧ (s.req w).fulfilled = false

/-- As long as the data of `w` is neither answered nor given up, all requests from `n` on that
overlap it wait, with a higher generation than what carries the data of `w`. -/
def Inode.Behind (s : Inode) (n w : Nat) : Prop :=
  s.Settled w ∨ w < s.count ∧ s.Liable (s.carrier w) ∧ ∀ r, n ≤ r → r < s.count →
    (∃ b, (s.req w).Touches b ∧ (s.req r).Touches b) →
      (s.req (s.carrier r)).todo = true ∧ (s.req (s.carrier w)).gen < (s.req (s.carrier r)).gen

section

variable {conf : Conf} {s s' : Inode} {t : Refs}

/-- What is acknowledged stays so until everything that it carries is settled. -/
lemma Inode.Plain.liable (hplain : s.Plain conf s') {i w : Nat} (hi : i < s.count)
    (hw : s.carrier w = i) (h : s.Liable i) : s'.Settled w ∨ s'.Liable i := by
  cases hfulfilled : (s'.req i).fulfilled with
  | false => exact .inr ⟨hplain.lied i hi h.1, hfulfilled⟩
  | true =>
    rcases hplain.fulfilled i hi hfulfilled with hbefore | hsettled
    · exact absurd (h.2.symm.trans hbefore) (by decide)
    · exact .inl (hplain.settled w (hsettled w hw))

private lemma Inode.Plain.careful (hplain : s.Plain conf s') (hordered : s.Ordered) (h : s.Careful)
    : s'.Careful := by
  intro w hw htempted
  rw [hplain.carrier]
  rcases lt_or_ge w s.count with hold | hnew
  · have hbefore : (s.req w).tempted :=
      (hplain.field Request.tempted hold fun _ => rfl).symm.trans htempted
    rcases h w hold hbefore with hsettled | hliable | ⟨hself, hlied, hfulfilled⟩
    · exact .inl (hplain.settled w hsettled)
    · exact (hplain.liable (hordered.lt w hold) rfl hliable).imp_right .inl
    rw [hself]
    cases hful : (s'.req w).fulfilled with
    | true =>
      rcases hplain.fulfilled w hold hful with hyes | hsettled
      · exact absurd (hfulfilled.symm.trans hyes) (by decide)
      · exact .inl (hplain.settled w (hsettled w hself))
    | false =>
      cases hlie : (s'.req w).lied with
      | true => exact .inr (.inl ⟨hlie, hful⟩)
      | false => exact .inr (.inr ⟨rfl, rfl, rfl⟩)
  · obtain ⟨r, hr, heq⟩ := hplain.new w hnew hw
    refine .inr (.inr ⟨hordered.fresh w hnew, ?_, ?_⟩)
    · rw [heq]
      exact hr.lied
    · rw [heq]
      exact hr.fulfilled

namespace Inode.Collapses

variable {holder req : Nat} (hc : s.Collapses s' holder req)
include hc

private lemma settled {w : Nat} (h : s.Settled w) : s'.Settled w := by
  rw [hc.eq]
  exact h

private lemma liable_iff (i : Nat) : s'.Liable i ↔ s.Liable i := by
  unfold Inode.Liable
  rw [hc.field Request.lied i fun _ => rfl, hc.field Request.fulfilled i fun _ => rfl]

/-- A collapse that keeps the order is into a write that has been acknowledged. -/
lemma keepsOrder (hhasty : s'.hasty = false) :
    s.hasty = false ∧ s.keepsOrder holder req = true := by
  rw [hc.eq] at hhasty
  simpa [wbCollapseSmallWrites] using hhasty

private lemma liable_holder (haccounts : s.Accounts t) (hhasty : s'.hasty = false) :
    s.Liable holder := by
  have hkeeps := (hc.keepsOrder hhasty).2
  rw [Inode.keepsOrder, and_eq_true] at hkeeps
  exact ⟨hkeeps.1, ((haccounts.each holder).fulfilled hc.holding).2⟩

private lemma careful (haccounts : s.Accounts t) (hhasty : s'.hasty = false) (h : s.Careful) :
    s'.Careful := by
  intro w hw htempted
  have hw : w < s.count := by rw [hc.eq] at hw; exact hw
  have htempted : (s.req w).tempted :=
    (hc.field Request.tempted w fun _ => rfl).symm.trans htempted
  rw [hc.carrier]
  split
  · exact .inr (.inl ((hc.liable_iff holder).mpr (hc.liable_holder haccounts hhasty)))
  · rcases h w hw htempted with hsettled | hliable | ⟨hself, hlied, hfulfilled⟩
    · exact .inl (hc.settled hsettled)
    · exact .inr (.inl ((hc.liable_iff _).mpr hliable))
    · exact .inr (.inr ⟨hself, (hc.field Request.lied w fun _ => rfl).trans hlied,
        (hc.field Request.fulfilled w fun _ => rfl).trans hfulfilled⟩)

end Inode.Collapses

end

section

variable {conf : Conf} {s s' : Inode} {t : Refs}

/-- What a request touches is in the range of what carries it. -/
lemma Inode.Ordered.inRange_carrier (h : s.Ordered) (hsound : ∀ i, (s.req i).Sound) {r b : Nat}
    (hr : r < s.count) (hb : (s.req r).Touches b) : (s.req (s.carrier r)).InRange b := by
  -- Only writes are carried by others.
  have hcarried : (s.req r).fop = .write → (s.req (s.carrier r)).InRange b := by
    intro hwrite
    rw [Request.Touches, if_pos hwrite] at hb
    have hcarrier : (s.req (s.carrier r)).fop = .write := by
      cases htempted : (s.req r).tempted with
      | true => exact (hsound _).write (h.tempted r hr htempted)
      | false => rw [h.sync r hr htempted]; exact hwrite
    obtain ⟨hle, hend⟩ := h.covers r hr
    obtain ⟨hoff, hsize⟩ := (hsound (s.carrier r)).range hcarrier
    exact ⟨by omega, by omega⟩
  by_cases hwrite : (s.req r).fop = .write
  · exact hcarried hwrite
  · have htempted : (s.req r).tempted = false :=
      eq_false_iff.mpr fun htempted => hwrite ((hsound r).write htempted)
    rw [Request.Touches, if_neg hwrite] at hb
    rw [h.sync r hr htempted]
    exact hb

/-- The data of a write is part of that of a write that carries it. -/
lemma Inode.Ordered.data_carrier (h : s.Ordered) (hsound : ∀ i, (s.req i).Sound) {w b : Nat}
    (hw : w < s.count) (htempted : (s.req (s.carrier w)).tempted)
    (hb : (s.req w).Touches b) : (s.req (s.carrier w)).offset ≤ b ∧
      b < (s.req (s.carrier w)).offset + (s.req (s.carrier w)).writeSize := by
  have hwrite : (s.req w).fop = .write := by
    refine (hsound w).write (not_eq_false _ ▸ fun hnot => ?_)
    rw [h.sync w hw hnot, hnot] at htempted
    cases htempted
  rw [Request.Touches, if_pos hwrite] at hb
  obtain ⟨hle, hend⟩ := h.covers w hw
  exact ⟨by omega, by omega⟩

private lemma Inode.Ordered.overlap (h : s.Ordered) (hsound : ∀ i, (s.req i).Sound) {w r : Nat}
    (hw : w < s.count) (hr : r < s.count)
    (hmeet : ∃ b, (s.req w).Touches b ∧ (s.req r).Touches b) :
    wbRequestsOverlap (s.req (s.carrier w)) (s.req (s.carrier r)) = true := by
  obtain ⟨b, hbw, hbr⟩ := hmeet
  exact wbRequestsOverlap_iff.mpr
    ⟨b, h.inRange_carrier hsound hw hbw, h.inRange_carrier hsound hr hbr⟩

/-- A request that overlaps one that is acknowledged and older is not picked. -/
lemma liability_conflict {c k : Nat} (hsound : ∀ i, (s.req i).Sound) (hc : c < s.count)
    (hliable : s.Liable c) (hgen : (s.req c).gen < (s.req k).gen)
    (hoverlap : wbRequestsOverlap (s.req c) (s.req k)) :
    wbLiabilityHasConflict conf s k = true := by
  have hlie : (s.req c).lie = some .liability := ((hsound c).lied hliable.1).2 hliable.2
  have hne : c ≠ k := fun heq => lt_irrefl _ (heq ▸ hgen)
  refine any_eq_true.mpr ⟨c, mem_range.mpr hc, ?_⟩
  simp [wbRequestsConflict, hlie, hne, hgen, hoverlap]

private lemma Inode.Plain.touches (hplain : s.Plain conf s') {i b : Nat} (hi : i < s.count)
    (hb : (s'.req i).Touches b) : (s.req i).Touches b := by
  rwa [Request.Touches, Request.InRange, hplain.field Request.fop hi fun _ => rfl,
    hplain.field Request.offset hi fun _ => rfl, hplain.field Request.origSize hi fun _ => rfl,
    hplain.field Request.off hi fun _ => rfl, hplain.field Request.size hi fun _ => rfl] at hb

private lemma Inode.Plain.behind (hplain : s.Plain conf s') (haccounts : s.Accounts t)
    (hordered : s.Ordered) (hsound : ∀ i, (s.req i).Sound) {n w : Nat} (h : s.Behind n w) :
    s'.Behind n w := by
  rcases h with hsettled | ⟨hw, hliable, hwait⟩
  · exact .inl (hplain.settled w hsettled)
  have hc : s.carrier w < s.count := hordered.lt w hw
  rcases hplain.liable hc rfl hliable with hsettled | hliable'
  · exact .inl hsettled
  have hfixed : ∀ i < s.count, (s'.req i).gen = (s.req i).gen := fun i hi =>
    hplain.field Request.gen hi fun _ => rfl
  refine .inr ⟨lt_of_lt_of_le hw hplain.count, hplain.carrier ▸ hliable', fun r hn hr hmeet => ?_⟩
  rw [hplain.carrier, hfixed _ hc]
  rcases lt_or_ge r s.count with hold | hnew
  · obtain ⟨b, hbw, hbr⟩ := hmeet
    have hmeet : ∃ b, (s.req w).Touches b ∧ (s.req r).Touches b :=
      ⟨b, hplain.touches hw hbw, hplain.touches hold hbr⟩
    obtain ⟨htodo, hgen⟩ := hwait r hn hold hmeet
    have hk : s.carrier r < s.count := hordered.lt r hold
    refine ⟨?_, (hfixed _ hk).symm ▸ hgen⟩
    by_contra hnot
    have hfree := hplain.picked _ hk htodo (eq_false_iff.mpr hnot)
    rw [liability_conflict hsound hc hliable hgen (hordered.overlap hsound hw hold hmeet)] at hfree
    cases hfree
  · -- A new request has the generation of now, and what is acknowledged is older.
    obtain ⟨r', -, heq⟩ := hplain.new r hnew hr
    have hall := (haccounts.each (s.carrier w)).all_of_tempted ((hsound _).lied hliable.1).1
      hliable.2
    rw [hordered.fresh r hnew, heq]
    exact ⟨rfl, (hordered.gen _ hc hall).2 hliable.1⟩

private lemma Inode.Collapses.touches {holder req : Nat} (hc : s.Collapses s' holder req)
    (hsound : ∀ i, (s.req i).Sound) {i b : Nat} (hb : (s'.req i).Touches b) :
    (s.req i).Touches b := by
  rw [Request.Touches, Request.InRange, hc.field Request.fop i fun _ => rfl,
    hc.field Request.offset i fun _ => rfl, hc.field Request.origSize i fun _ => rfl,
    hc.field Request.off i fun _ => rfl] at hb
  rw [Request.Touches, Request.InRange]
  split at hb
  · next hwrite => rwa [if_pos hwrite]
  · next hwrite =>
    have hi : i ≠ holder := fun heq => hwrite (heq ▸ (hsound holder).write hc.holding.2)
    rw [if_neg hwrite, ← hc.size hi]
    exact hb

private lemma Inode.Collapses.behind {holder req : Nat} (hc : s.Collapses s' holder req)
    (haccounts : s.Accounts t) (hordered : s.Ordered) (hsound : ∀ i, (s.req i).Sound) {n w : Nat}
    (hhasty : s'.hasty = false) (h : s.Behind n w) : s'.Behind n w := by
  rcases h with hsettled | ⟨hw, hliable, hwait⟩
  · exact .inl (hc.settled hsettled)
  have hgen : ∀ i, (s'.req i).gen = (s.req i).gen := fun i =>
    hc.field Request.gen i fun _ => rfl
  -- The holder is not younger than what it takes in.
  have hall : ∀ {i}, (s.req i).todo ∧ (s.req i).tempted → (s.req i).all :=
    fun {i} hi => (haccounts.each i).all_of_tempted hi.2 ((haccounts.each i).fulfilled hi).2
  have hmono : (s.req holder).gen ≤ (s.req req).gen :=
    hordered.mono holder req hc.lt hc.count (hall hc.holding) (hall hc.held)
  have hcount : s'.count = s.count := by rw [hc.eq]; rfl
  refine .inr ⟨hcount ▸ hw, ?_, fun r hn hr hmeet => ?_⟩
  · rw [hc.carrier, hc.liable_iff]
    split
    · exact hc.liable_holder haccounts hhasty
    · exact hliable
  rw [hcount] at hr
  have hmeet : ∃ b, (s.req w).Touches b ∧ (s.req r).Touches b :=
    hmeet.imp fun b hb => ⟨hc.touches hsound hb.1, hc.touches hsound hb.2⟩
  obtain ⟨htodo, hless⟩ := hwait r hn hr hmeet
  rw [hc.carrier, hc.carrier, hgen, hgen]
  by_cases hcw : s.carrier w = req
  · -- The holder takes in what carries `w`, so it is not what carries `r`.
    have hk : s.carrier r ≠ req := fun heq => by
      rw [hcw, heq] at hless
      exact lt_irrefl _ hless
    rw [if_pos hcw, if_neg hk, hc.todo hk]
    rw [hcw] at hless
    exact ⟨htodo, lt_of_le_of_lt hmono hless⟩
  · rw [if_neg hcw]
    by_cases hk : s.carrier r = req
    · -- The holder takes in what carries `r`.
      have hoverlap := hordered.overlap hsound hw hr hmeet
      rw [hk] at hoverlap
      rw [if_pos hk, hc.todo (ne_of_lt hc.lt)]
      refine ⟨hc.holding.1, ?_⟩
      by_cases hself : s.carrier w = holder
      · -- The data of the holder ends where that of the other write starts.
        obtain ⟨b, hbw, hbr⟩ := hmeet
        have hdata := (hordered.data_carrier hsound hw (hself ▸ hc.holding.2) hbw).2
        have hdata' := (hordered.data_carrier hsound hr (hk ▸ hc.held.2) hbr).1
        have hoffset := hc.offset
        rw [hself] at hdata
        rw [hk] at hdata'
        omega
      · have hkeeps := (hc.keepsOrder hhasty).2
        rw [Inode.keepsOrder, and_eq_true, all_eq_true] at hkeeps
        have hlie := ((hsound _).lied hliable.1).2 hliable.2
        simpa [hlie, hself, hoverlap] using hkeeps.2 _ (mem_range.mpr (hordered.lt w hw))
    · rw [if_neg hk, hc.todo hk]
      exact ⟨htodo, hless⟩

end

/-- What holds of the order in every run. -/
structure Inode.Kept (s : Inode) (t : Refs) : Prop where
  accounts : s.Accounts t
  sound : ∀ i, (s.req i).Sound
  ordered : s.Ordered
  acked : ∀ w, s.acked w = true → s.Promised w
  careful : s.hasty = false → s.Careful

section

variable {conf : Conf} {s s' : Inode} {t t' : Refs}

private lemma Move.kept (hmove : Move conf (s, t) (s', t')) (h : s.Kept t) : s'.Kept t' := by
  refine ⟨hmove.accounts h.accounts, hmove.sound h.accounts h.sound,
    hmove.ordered h.accounts h.ordered, fun w hw => ?_, fun hhasty => ?_⟩
  · refine Inode.Promised.mono hmove.before ?_
    rcases hmove.plain_or_collapses h.accounts with hplain | ⟨holder, req, hc⟩
    · exact (hplain.acked w hw).elim (h.acked w) id
    · rw [hc.eq] at hw
      exact h.acked w hw
  · rcases hmove.plain_or_collapses h.accounts with hplain | ⟨holder, req, hc⟩
    · exact hplain.careful h.ordered (h.careful (hplain.hasty ▸ hhasty))
    · exact hc.careful h.accounts hhasty (h.careful (hc.keepsOrder hhasty).1)

private lemma newInode_kept (conf : Conf) :
    (newInode conf).state.inode.Kept (refs (newInode conf)) where
  accounts := newInode_accounts conf
  sound _ := .zero
  ordered := ⟨fun _ _ => rfl, nofun, nofun, nofun, nofun, nofun, nofun, nofun⟩
  acked := nofun
  careful _ := nofun

private lemma Move.behind (hmove : Move conf (s, t) (s', t')) (h : s.Kept t) {n w : Nat}
    (hbehind : s.hasty = false → s.Behind n w) (hhasty : s'.hasty = false) : s'.Behind n w := by
  rcases hmove.plain_or_collapses h.accounts with hplain | ⟨holder, req, hc⟩
  · exact hplain.behind h.accounts h.ordered h.sound (hbehind (hplain.hasty ▸ hhasty))
  · exact hc.behind h.accounts h.ordered h.sound hhasty (hbehind (hc.keepsOrder hhasty).1)

/-- When a write has been acknowledged, there is nothing that would have to wait. -/
lemma Inode.Kept.behind (h : s.Kept t) {w : Nat} (hw : s.acked w)
    (hhasty : s.hasty = false) : s.Behind s.count w := by
  rcases h.acked w hw with ⟨hlt, hdone⟩ | hanswered
  · have htempted : (s.req w).tempted :=
      hdone.elim (fun hlied => ((h.sound w).lied hlied).1) (h.sound w).fulfilled
    rcases h.careful hhasty w hlt htempted with hsettled | hliable | ⟨-, hlied, hfulfilled⟩
    · exact .inl hsettled
    · exact .inr ⟨hlt, hliable, fun r hle hr => absurd hr (Nat.not_lt.mpr hle)⟩
    · rw [hlied, hfulfilled] at hdone
      cases hdone with
      | inl hlied => cases hlied
      | inr hfulfilled => cases hfulfilled
  · exact .inl (.inl hanswered)

end

/-- In every run in which all collapses have kept the order: a request that is enqueued after a
write has been acknowledged, and overlaps it, has been wound only if what was wound with the data of
the write has been answered, or could not be wound. -/
theorem overlapping_wound_after_answer (conf : Conf) (es₁ es₂ : List Event) (w r : Nat) :
    let s₁ := (runAll (wbStep conf) es₁ (newInode conf)).state.inode
    let s₂ := (runAll (wbStep conf) (es₁ ++ es₂) (newInode conf)).state.inode
    s₁.acked w = true → s₁.count ≤ r → (∃ b, (s₂.req w).Touches b ∧ (s₂.req r).Touches b) →
      s₂.hasty = false → s₂.dropped w = false → s₂.wound r = true → s₂.answered w = true := by
  intro s₁ s₂ hacked hlater hoverlap hhasty hdropped hwound
  have hkept : s₁.Kept (refs (runAll (wbStep conf) es₁ (newInode conf))) :=
    @run_keeps conf _ (fun x => x.1.Kept x.2) (fun _ _ hmove h => hmove.kept h) es₁
      (newInode_running conf) (newInode_kept conf)
  -- From the acknowledgement on, what comes later and overlaps is behind.
  have hrun := @run_keeps conf _
    (fun x => x.1.Kept x.2 ∧ (x.1.hasty = false → x.1.Behind s₁.count w))
    (fun _ _ hmove h => ⟨hmove.kept h.1, hmove.behind h.1 h.2⟩) es₂ (run_running conf es₁)
    ⟨hkept, hkept.behind hacked⟩
  rw [← runAll_append] at hrun
  obtain ⟨hkept₂, hbehind⟩ := hrun
  rcases hbehind hhasty with hsettled | ⟨-, -, hwait⟩
  · exact hsettled.resolve_right (eq_false_iff.mp hdropped)
  · obtain ⟨hlt, hpicked⟩ := hkept₂.ordered.wound r hwound
    have htodo := (hwait r hlater hlt hoverlap).1
    exact absurd (hpicked.symm.trans htodo) (by decide)

/-- A read of what has been written waits until the server has answered. -/
theorem overlapping_wound_after_answer_read :
    let conf : Conf := ⟨131072, 1048576, true, false, true, 131072⟩
    let es₁ := callOn .write 0 4 false :: steps 0 5
    let es₂ := steps 0 4 ++ callOn .read 2 4 false :: steps 1 5 ++ .reply 0 4 0 :: steps 2 3
    let s₁ := (runAll (wbStep conf) es₁ (newInode conf)).state.inode
    let s₂ := (runAll (wbStep conf) (es₁ ++ es₂) (newInode conf)).state.inode
    s₁.acked 0 = true ∧ s₁.count = 1 ∧ s₂.wound 1 = true ∧ s₂.answered 0 = true :=
  ⟨by decide, by decide, by decide,
    overlapping_wound_after_answer _ (callOn .write 0 4 false :: steps 0 5)
      (steps 0 4 ++ callOn .read 2 4 false :: steps 1 5 ++ .reply 0 4 0 :: steps 2 3) 0 1
      (by decide) (by decide) ⟨2, by decide, by decide⟩ (by decide) (by decide) (by decide)⟩

/-- A write is in transit, and a second one waits without being acknowledged, as the window is full.
A third one is collapsed into the second and so acknowledged. A read of it is wound at once. -/
theorem read_wound_before_answer :
    let conf : Conf := ⟨131072, 524288, true, false, true, 131072⟩
    let es₁ := .setSize 600000 :: callOn .write 90 524289 false :: steps 0 9 ++
      callOn .write 0 4 false :: steps 1 6 ++ callOn .write 4 4 false :: steps 2 7
    let es₂ := callOn .read 4 4 false :: steps 3 5
    let s₁ := (runAll (wbStep conf) es₁ (newInode conf)).state.inode
    let s₂ := (runAll (wbStep conf) (es₁ ++ es₂) (newInode conf)).state.inode
    s₁.acked 2 = true ∧ s₁.count ≤ 3 ∧ (∃ b, (s₂.req 2).Touches b ∧ (s₂.req 3).Touches b) ∧
      s₂.wound 3 = true ∧ s₂.answered 2 = false ∧ s₂.dropped 2 = false :=
  ⟨by decide, by decide, ⟨4, by decide, by decide⟩, by decide, by decide, by decide⟩

end TagItGluster.Wb
