import TagItGluster.Afr.Moves

/-!
# What the shared dirty mark covers

A transaction that marks the bricks is counted on disk if nothing has failed, and one that inherits
the mark is counted too; each takes one count away when it is done, not always its own. A
transaction that has failed is not counted but takes a count away all the same. So there are never
more counts than transactions that have put them there, and the marks that are left are at least
one for each transaction that goes on, less one for each count of an inherited mark.
-/

namespace TagItGluster.Afr

open Base List Function Bool

section

variable {n : Nat}

/-- The transaction has a mark, its own or another's, and has not given it up. -/
def Txn.live (x : Txn n) : Bool := (x.loc.dirtied || x.loc.inherited) && !x.loc.uninheritDone

/-- The transaction is to take a mark away. -/
def Txn.spends (x : Txn n) : Bool :=
  (x.loc.dirtied || x.loc.inherited) && x.loc.uninheritDone && !x.loc.uninheritValue

/-- The transaction has been counted and has not given that up. -/
def Txn.holds (x : Txn n) : Bool := (x.counted || x.loc.inherited) && !x.loc.uninheritDone

/-- The transaction has a mark on a brick, its own or another's, and has not given it up. -/
def Txn.liveOn (i : Fin n) (x : Txn n) : Bool :=
  (x.loc.dirtied && x.marked i || x.loc.inherited) && !x.loc.uninheritDone

/-- The transaction is to take a mark away that is still on a brick. -/
def Txn.owesOn (i : Fin n) (x : Txn n) : Bool := x.spends && x.loc.preOp i && !x.undirtied i

/-- The mark of the transaction is not on a brick although it has been given up. -/
def Txn.lacksOn (i : Fin n) (x : Txn n) : Bool :=
  x.loc.dirtied && x.loc.uninheritDone && x.loc.preOp i && !x.marked i

variable {x y : Txn n} {ctx ctx' : FdCtx n}

private lemma Txn.Ok.shares (hx : x.Ok) : x.loc.dirtied = false ∧ x.loc.inherited = false ∨
      x.loc.dirtied ∧ x.loc.inherited = false ∨
      x.loc.dirtied = false ∧ x.loc.inherited ∧ x.loc.preOp = fun _ => true := by
  cases hinherited : x.loc.inherited with
  | true =>
    obtain ⟨hdirtied, hall⟩ := hx.heir hinherited
    exact .inr (.inr ⟨hdirtied, rfl, hall⟩)
  | false => cases x.loc.dirtied <;> simp

variable (h : Moves ctx x ctx' y)
include h

/-- What a move does to the marks that are sent: one that is given up is left to another
transaction, is to be taken away, or was inherited and is no more. -/
lemma Moves.sent (hctx : ctx.Ok) (hx : x.Ok) :
    y.loc.dirtied.toNat + ctx'.inherited + (x.live.toNat + x.spends.toNat + x.orphaned.toNat) =
      x.loc.dirtied.toNat + ctx.inherited +
        (y.live.toNat + y.spends.toNat + y.orphaned.toNat) := by
  cases h with
  | mark | perform | undirty | count => rfl
  | answer l phase hlike hphase | post l undirties hphase hlike hvalue hret =>
    simp [Txn.live, Txn.spends, hlike.dirtied, hlike.inherited, hlike.uninheritDone,
      hlike.uninheritValue]
  | giveUp hphase =>
    have hdone := hx.early.mp (.inr (.inr hphase))
    have horphaned : x.orphaned = false := by
      by_contra h
      exact absurd (hdone.symm.trans (hx.orphaned (not_eq_false _ ▸ h))) nofun
    simp only [Txn.live, Txn.spends, Txn.findsNone, Local.given, hdone, horphaned]
    rcases hx.shares with ⟨hd, hi⟩ | hshare
    · rw [uninheritLocked_alone hctx hx hd hi]
      simp [hd, hi]
    rcases uninheritLocked_cases hctx x.loc hx.used with
      ⟨hinh, hdisk, -, heq⟩ | ⟨done, hinh, hdisk, -, heq, -⟩ | ⟨hmiss, heq⟩
    all_goals rw [heq]
    · rcases hshare with ⟨hd, hi⟩ | ⟨hd, hi, -⟩ <;> simp [hd, hi, ne_of_gt hdisk] <;> omega
    · rcases hshare with ⟨hd, hi⟩ | ⟨hd, hi, -⟩ <;> simp [ne_of_gt hdisk, hinh]
    · rcases hshare with ⟨hd, hi⟩ | ⟨hd, hi, hall⟩
      · simp [hi]
      · -- The bricks are those of the mark, so there is none on disk.
        simp [hd, hmiss.resolve_right (not_not.mpr hall)]

/-- There are no more counts than transactions that hold one. -/
lemma Moves.held (hctx : ctx.Ok) (hx : x.Ok) :
    ctx'.onDisk + ctx'.inherited = 0 ∨ ctx'.onDisk + ctx'.inherited + x.holds.toNat ≤
        ctx.onDisk + ctx.inherited + y.holds.toNat := by
  cases h with
  | mark | perform | undirty => exact .inr (Nat.le_refl _)
  | answer l phase hlike hphase | post l undirties hphase hlike hvalue hret =>
    refine .inr (Nat.le_of_eq ?_)
    simp [Txn.holds, hlike.inherited, hlike.uninheritDone]
  | count hinherited hdirtied hall hcounted hphase =>
    have hdone : x.loc.uninheritDone = false :=
      hx.early.mp (.inr (hphase.imp And.left id))
    refine .inr ?_
    simp [Txn.holds, hinherited, hcounted, hdone]
    omega
  | giveUp hphase =>
    have hdone := hx.early.mp (.inr (.inr hphase))
    have hle : x.holds.toNat ≤ 1 := Bool.toNat_le _
    rcases uninheritLocked_cases hctx x.loc hx.used with
      ⟨hinh, hdisk, -, heq⟩ | ⟨done, hinh, hdisk, -, heq, -⟩ | ⟨hmiss, heq⟩ <;> rw [heq]
    · exact .inr (by dsimp only; omega)
    · exact .inr (by dsimp only; omega)
    rcases hmiss with hdisk | hmiss
    · exact .inl (by rw [hdisk, (hctx.none hdisk).1])
    refine .inr ?_
    have hholds : x.holds = false := by
      by_contra h
      rw [Bool.not_eq_false, Txn.holds, hdone, Bool.not_false, Bool.and_true] at h
      rcases Bool.or_eq_true_iff.mp h with h | h
      · exact hmiss (hx.counted h).2.1
      · exact hmiss (hx.heir h).2
    rw [hholds]
    exact Nat.le_add_right _ _

/-- What a move does to the marks on a brick. -/
lemma Moves.onBrick (hctx : ctx.Ok) (hx : x.Ok) (i : Fin n) :
    (x.marked i).toNat + ctx.inherited + (x.lacksOn i).toNat +
        ((y.undirtied i).toNat + (y.liveOn i).toNat + (y.owesOn i).toNat) ≤
      (y.marked i).toNat + ctx'.inherited + (y.lacksOn i).toNat +
        ((x.undirtied i).toNat + (x.liveOn i).toNat + (x.owesOn i).toNat) := by
  cases h with
  | perform | count => exact le_refl _
  | answer l phase hlike hphase | post l undirties hphase hlike hvalue hret =>
    refine le_of_eq ?_
    simp [Txn.lacksOn, Txn.liveOn, Txn.owesOn, Txn.spends, hlike.dirtied, hlike.inherited,
      hlike.uninheritDone, hlike.uninheritValue, hlike.preOp]
  | mark j hdirtied hpre hmarked =>
    simp only [Txn.lacksOn, Txn.liveOn, Txn.owesOn, Txn.spends]
    by_cases hij : i = j
    · subst hij
      rw [hmarked, hdirtied, hpre]
      have hinherited : x.loc.inherited = false := by
        by_contra h
        exact absurd (hdirtied.symm.trans (hx.heir (not_eq_false _ ▸ h)).1) (by decide)
      cases x.loc.uninheritDone <;> simp [hinherited]
      all_goals omega
    · rw [update_of_ne hij]
  | undirty j hundirties hpre hundirtied =>
    by_cases hij : i = j
    · subst hij
      obtain ⟨hposted, hvalue⟩ := hx.undirties hundirties
      have hdone := hx.done_iff.mpr (.inr hposted)
      have hshare : (x.loc.dirtied || x.loc.inherited) := by
        by_contra h
        obtain ⟨hd, hi⟩ := or_eq_false_iff.mp (not_eq_true _ ▸ h)
        exact absurd (hvalue.symm.trans (hx.spent hdone hd hi)) (by decide)
      simp only [Txn.lacksOn, Txn.liveOn, Txn.owesOn, Txn.spends, hshare, hdone, hvalue, hpre,
        hundirtied, update_self, Bool.and_true, Bool.not_true, Bool.not_false,
        Bool.and_false]
      omega
    · simp only [Txn.lacksOn, Txn.liveOn, Txn.owesOn, Txn.spends]
      rw [update_of_ne hij]
  | giveUp hphase =>
    have hdone := hx.early.mp (.inr (.inr hphase))
    have hundirtied : x.undirtied i = false := by
      by_contra h
      have hposted := (hx.undirties (hx.undirtied i (not_eq_false _ ▸ h)).1).1
      rw [hphase] at hposted
      cases hposted
    have hpre : x.marked i → x.loc.preOp i := fun h => (hx.marked i h).2
    simp only [Txn.lacksOn, Txn.liveOn, Txn.owesOn, Txn.spends, Local.given, hdone, hundirtied]
    rcases hx.shares with ⟨hd, hi⟩ | hshare
    · rw [uninheritLocked_alone hctx hx hd hi]
      simp [hd]
    rcases uninheritLocked_cases hctx x.loc hx.used with
      ⟨hinh, hdisk, hall, heq⟩ | ⟨done, hinh, hdisk, hall, heq, -⟩ | ⟨hmiss, heq⟩
    all_goals
      rw [heq]
      generalize x.marked i = m at hpre ⊢
      rcases hshare with ⟨hd, hi⟩ | ⟨hd, hi, hall'⟩
    · cases m <;> simp [hd, hall]
      all_goals omega
    · cases m <;> simp [hi]
      all_goals omega
    · cases m <;> simp [hd, hall, hinh]
    · cases m <;> simp [hd, hall, hinh]
    · cases m with
      | true => simp [hd, hpre rfl]
      | false => cases x.loc.preOp i <;> simp [hd]
    · cases m <;> simp [hd]

end

variable {priv : Private}

/-- The marks and counts of an `fd`, by the transactions on it. -/
structure Fd.Laws {n : Nat} (fd : Fd n) : Prop where
  sent : fd.txns.countP (fun x => x.loc.dirtied) + fd.ctx.inherited =
    fd.txns.countP Txn.live + fd.txns.countP Txn.spends + fd.txns.countP Txn.orphaned
  held : fd.ctx.onDisk + fd.ctx.inherited ≤ fd.txns.countP Txn.holds
  onBrick : ∀ i, fd.txns.countP (fun x => x.undirtied i) + fd.txns.countP (Txn.liveOn i) +
      fd.txns.countP (Txn.owesOn i) ≤
    fd.txns.countP (fun x => x.marked i) + fd.ctx.inherited + fd.txns.countP (Txn.lacksOn i)

/-- A move keeps the laws. -/
lemma Moves.laws {n : Nat} {fd : Fd n} {t : Nat} {x y : Txn n} {ctx : FdCtx n} (hok : fd.Ok)
    (hlaws : fd.Laws) (hx : fd.txns[t]? = some x) (h : Moves fd.ctx x ctx y) :
    Fd.Laws ⟨ctx, fd.txns.set t y⟩ := by
  have hxok := hok.txns x (mem_of_getElem? hx)
  have hset := fun p => countP_set_add p hx y
  refine ⟨?_, ?_, fun i => ?_⟩
  · have hmove := h.sent hok.ctx hxok
    have hlaw := hlaws.sent
    have hdirtied := hset fun x => x.loc.dirtied
    have hlive := hset Txn.live
    have hspends := hset Txn.spends
    have horphaned := hset Txn.orphaned
    dsimp only at hdirtied ⊢
    omega
  · have hmove := h.held hok.ctx hxok
    have hlaw := hlaws.held
    have hholds := hset Txn.holds
    dsimp only
    omega
  · have hmove := h.onBrick hok.ctx hxok i
    have hlaw := hlaws.onBrick i
    have hmarked := hset fun x => x.marked i
    have hlacks := hset (Txn.lacksOn i)
    have hundirtied := hset fun x => x.undirtied i
    have hlive := hset (Txn.liveOn i)
    have howes := hset (Txn.owesOn i)
    dsimp only at hmarked hundirtied ⊢
    omega

/-- A transaction that starts keeps the laws. -/
lemma start_laws {fd : Fd priv.childCount} {lockedNodes : Subvols priv.childCount}
    {preOpCompat : Bool} {ctx : FdCtx priv.childCount} {l : Local priv.childCount} (hok : fd.Ok)
    (hlaws : fd.Laws)
    (h : afrChangelogPreOp priv lockedNodes preOpCompat fd.ctx = some (ctx, l)) :
    Fd.Laws ⟨ctx, fd.txns ++ [Txn.new l]⟩ := by
  obtain ⟨hdone, -, -, hcases⟩ := preOp_cases hok.ctx h
  obtain ⟨hsent, hheld, hbrick⟩ := hlaws
  refine ⟨?_, ?_, fun i => ?_⟩
  all_goals
    rcases hcases with ⟨-, rfl, hinherited, hdirtied, -⟩ | ⟨rfl, hinherited, -⟩
  · simp [Txn.new, Txn.live, Txn.spends, hdone, hinherited, hdirtied]
    omega
  · cases hdirtied : l.dirtied <;> simp [Txn.new, Txn.live, Txn.spends, hdone, hinherited] <;> omega
  · simp [Txn.new, Txn.holds, hdone, hinherited]
    omega
  · simp [Txn.holds]
    omega
  · have := hbrick i
    simp [Txn.new, Txn.liveOn, Txn.owesOn, Txn.spends, hdone, hinherited]
    omega
  · have := hbrick i
    simp [Txn.new, Txn.liveOn, Txn.owesOn, Txn.spends, hdone, hinherited]
    omega

/-- The laws hold at all times. -/
lemma run_laws (priv : Private) (es : List (FdEvent priv.childCount)) :
    (runAll (fdStep priv) es (newFd priv.childCount)).Ok ∧
      (runAll (fdStep priv) es (newFd priv.childCount)).Laws :=
  runAll_always (fdStep priv) (fun fd => fd.Ok ∧ fd.Laws)
    (fdStep_inv (fun _ _ _ _ _ hok hlaws hx h => h.laws hok hlaws hx)
      fun _ _ _ _ _ hok hlaws h => start_laws hok hlaws h) es
    ⟨newFd_ok _, rfl, le_refl 0, fun _ => le_refl 0⟩

/-- The bricks have answered what the mark of the transaction was sent with, the pre-op or the
write. -/
def Txn.markAnswered {n : Nat} (x : Txn n) : Prop :=
  x.phase ≠ .marking ∧ (x.phase = .operating → x.loc.preOpCompat = true)

instance {n : Nat} (x : Txn n) : Decidable x.markAnswered :=
  inferInstanceAs (Decidable (_ ∧ _))

/-- A transaction that has written and has not posted has a mark, or is to take one away. -/
lemma liveOn_or_owesOn {n : Nat} {x : Txn n} {i : Fin n} (hx : x.Ok)
    (hmarked : x.markAnswered → x.loc.dirtied → x.loc.preOp i → x.marked i)
    (hposted : x.phase ≠ .posted) (hperformed : x.performed i)
    (hshare : x.loc.dirtied ∨ x.loc.inherited)
    (hwaiting : x.phase = .waiting → x.loc.uninheritValue = false) :
    x.liveOn i ∨ x.owesOn i = true := by
  obtain ⟨hpre, hmarking, hmark⟩ := hx.performed i hperformed
  cases hdone : x.loc.uninheritDone with
  | false =>
    refine .inl ?_
    rcases hshare with hdirtied | hinherited
    · have hm : x.marked i := by
        cases hcompat : x.loc.preOpCompat with
        | true => exact hmarked ⟨hmarking, fun _ => hcompat⟩ hdirtied hpre
        | false => exact hmark hcompat hdirtied
      simp [Txn.liveOn, hdone, hdirtied, hm]
    · simp [Txn.liveOn, hdone, hinherited]
  | true =>
    refine .inr ?_
    have hundirtied : x.undirtied i = false := by
      by_contra h
      exact hposted (hx.undirties (hx.undirtied i (not_eq_false _ ▸ h)).1).1
    have hphase := (hx.done_iff.mp hdone).resolve_right hposted
    have hor : (x.loc.dirtied || x.loc.inherited) := or_eq_true_iff.mpr hshare
    simp [Txn.owesOn, Txn.spends, hdone, hundirtied, hwaiting hphase, hpre, hor]

/-- If the marks that were sent to a brick have been applied there when they have been answered,
then a transaction that has written to the brick, with a mark of its own or an inherited one,
and has not sent its post-op finds the brick marked, unless it waits after it has left its share
to another transaction. -/
theorem dirty_mark_covers (priv : Private) (es : List (FdEvent priv.childCount))
    (i : Fin priv.childCount)
    (hmarks : ∀ z ∈ (runAll (fdStep priv) es (newFd _)).txns, z.markAnswered →
      z.loc.dirtied = true → z.loc.preOp i = true → z.marked i = true) :
    ∀ x ∈ (runAll (fdStep priv) es (newFd _)).txns, x.phase ≠ .posted → x.performed i = true →
      (x.loc.dirtied = true ∨ x.loc.inherited = true) →
      (x.phase = .waiting → x.loc.uninheritValue = false) →
      0 < (runAll (fdStep priv) es (newFd _)).dirtyOn i := by
  obtain ⟨hok, hlaws⟩ := run_laws priv es
  generalize runAll (fdStep priv) es (newFd _) = fd at hmarks hok hlaws ⊢
  intro x hx hposted hperformed hshare hwaiting
  have hlaw := hlaws.onBrick i
  have hheld := hlaws.held
  have hlacks : fd.txns.countP (Txn.lacksOn i) = 0 := by
    refine countP_eq_zero.mpr fun z hz hlack => ?_
    simp only [Txn.lacksOn, Bool.and_eq_true, Bool.not_eq_true'] at hlack
    obtain ⟨⟨⟨hdirtied, hdone⟩, hpre⟩, hnot⟩ := hlack
    have hanswered : z.markAnswered := by
      rcases (hok.txns z hz).done_iff.mp hdone with h | h <;> simp [Txn.markAnswered, h]
    exact absurd ((hmarks z hz hanswered hdirtied hpre).symm.trans hnot) nofun
  have hholds : fd.txns.countP Txn.holds ≤ fd.txns.countP (Txn.liveOn i) := by
    refine countP_mono_left fun z hz hhold => ?_
    simp only [Txn.holds, Txn.liveOn, Bool.and_eq_true, Bool.or_eq_true] at hhold ⊢
    refine ⟨hhold.1.imp_left fun hcounted => ?_, hhold.2⟩
    obtain ⟨hdirtied, hall, hphase⟩ := (hok.txns z hz).counted hcounted
    exact ⟨hdirtied, hmarks z hz hphase hdirtied (by rw [hall])⟩
  have hsome : 0 < fd.txns.countP (Txn.liveOn i) + fd.txns.countP (Txn.owesOn i) := by
    rcases liveOn_or_owesOn (hok.txns x hx) (hmarks x hx) hposted hperformed hshare hwaiting with
      h | h
    · exact Nat.add_pos_left (countP_pos_iff.mpr ⟨x, hx, h⟩) _
    · exact Nat.add_pos_right _ (countP_pos_iff.mpr ⟨x, hx, h⟩)
  -- With a mark on disk one more transaction goes on than inherited marks are counted.
  have hdisk : fd.ctx.inherited = 0 ∨ 0 < fd.ctx.onDisk := by
    by_cases hzero : fd.ctx.onDisk = 0
    · exact .inl (hok.ctx.none hzero).1
    · exact .inr (Nat.pos_of_ne_zero hzero)
  unfold Fd.dirtyOn
  omega

/-- Two bricks without a quorum. -/
def twoBricks : Private := ⟨2, by decide, 0⟩

/-- An event of a transaction on each of the first `k` bricks. -/
def onFirst (k t : Nat) (e : Fin 2 → TxnEvent 2) : List (FdEvent 2) :=
  ((List.finRange 2).take k).map fun i => .on t (e i)

/-- A transaction up to the answers of the bricks: it starts, both bricks mark the file and answer,
and then both write and answer. -/
def writes (t : Nat) : List (FdEvent 2) :=
  [.start (fun _ => true) true] ++ onFirst 2 t .mark ++ [.on t (.marksDone fun _ => false)] ++
    onFirst 2 t .perform ++ [.on t (.resume fun _ => ⟨10, 0⟩)]

/-- The second brick does not answer. -/
def firstOnly : Fin 2 → Reply
  | 0 => ⟨10, 0⟩
  | 1 => ⟨-1, enotconn⟩

theorem dirty_mark_covers_two_bricks :
    0 < (runAll (fdStep twoBricks) (writes 0) (newFd 2)).dirtyOn (0 : Fin 2) :=
  dirty_mark_covers twoBricks (writes 0) (0 : Fin 2) (by decide) _ (mem_singleton.mpr rfl)
    (by decide) (by decide) (by decide) (by decide)

/-- The second transaction inherits the mark of the first one and fails on the second brick. It
gives up the share it has and waits for the `fsync`. The first transaction then takes the only mark
away. -/
def waitsUnmarked : List (FdEvent 2) :=
  writes 0 ++ [.start (fun _ => true) true] ++ onFirst 1 1 .perform ++
    [.on 1 (.resume firstOnly), .on 1 .postOpSafe, .on 0 .postOpSafe,
      .on 0 (.postOpNow fun _ => false)] ++ onFirst 2 0 .undirty

theorem dirty_mark_gone : ∃ x ∈ (runAll (fdStep twoBricks) waitsUnmarked (newFd 2)).txns,
      x.phase ≠ .posted ∧ x.performed (0 : Fin 2) = true ∧ x.loc.inherited = true ∧
        (∀ z ∈ (runAll (fdStep twoBricks) waitsUnmarked (newFd 2)).txns, z.markAnswered →
          z.loc.dirtied = true → z.loc.preOp (0 : Fin 2) = true → z.marked (0 : Fin 2) = true) ∧
        (runAll (fdStep twoBricks) waitsUnmarked (newFd 2)).dirtyOn (0 : Fin 2) = 0 := by
  decide

/-- When all transactions have sent their post-ops and none has failed altogether, both counters are
zero, and what was sent adds up to the number of transactions that had inherited a mark and
found none on disk when they gave it up. -/
theorem dirty_mark_balance (priv : Private) (es : List (FdEvent priv.childCount))
    (hall : ∀ x ∈ (runAll (fdStep priv) es (newFd _)).txns, x.phase = .posted ∧ 0 ≤ x.loc.opRet) :
    (runAll (fdStep priv) es (newFd _)).ctx.inherited = 0 ∧
      (runAll (fdStep priv) es (newFd _)).ctx.onDisk = 0 ∧
      (runAll (fdStep priv) es (newFd _)).dirtySent =
        (runAll (fdStep priv) es (newFd _)).txns.countP Txn.orphaned ∧
      ((runAll (fdStep priv) es (newFd _)).dirtySent = 0 ↔
        ∀ x ∈ (runAll (fdStep priv) es (newFd _)).txns, x.orphaned = false) := by
  obtain ⟨hok, hlaws⟩ := run_laws priv es
  generalize runAll (fdStep priv) es (newFd _) = fd at hall hok hlaws ⊢
  have hdone : ∀ x ∈ fd.txns, x.loc.uninheritDone :=
    fun x hx => (hok.txns x hx).done_iff.mpr (.inr (hall x hx).1)
  have hholds : fd.txns.countP Txn.holds = 0 :=
    countP_eq_zero.mpr fun x hx h => by simp [Txn.holds, hdone x hx] at h
  have hlive : fd.txns.countP Txn.live = 0 :=
    countP_eq_zero.mpr fun x hx h => by simp [Txn.live, hdone x hx] at h
  have hspends : fd.txns.countP Txn.spends = fd.txns.countP fun x => x.undirties := by
    refine countP_congr fun x hx => ?_
    obtain ⟨hposted, hret⟩ := hall x hx
    rw [(hok.txns x hx).posted hposted hret, Txn.spends, hdone x hx]
    rcases (hok.txns x hx).shares with ⟨hd, hi⟩ | ⟨hd, hi⟩ | ⟨hd, hi, -⟩
    · simp [(hok.txns x hx).spent (hdone x hx) hd hi]
    · simp [hd]
    · simp [hi]
  have hheld := hlaws.held
  have hsent : fd.dirtySent = fd.txns.countP Txn.orphaned := by
    have hlaw := hlaws.sent
    unfold Fd.dirtySent
    omega
  refine ⟨by omega, by omega, hsent, ?_⟩
  rw [hsent, Int.natCast_eq_zero]
  simp [not_eq_true]

theorem dirty_mark_balance_alone :
    (runAll (fdStep twoBricks) (writes 0 ++ [.on 0 (.postOpNow fun _ => false)])
      (newFd 2)).dirtySent = 0 := by
  obtain ⟨-, -, -, hzero⟩ :=
    dirty_mark_balance twoBricks (writes 0 ++ [.on 0 (.postOpNow fun _ => false)]) (by decide)
  exact hzero.mpr (by decide)

/-- The first two transactions mark the bricks, and the second one is counted on disk. The third one
inherits. The mark of the first one has failed on the second brick, but it takes what the third one
has counted. The second one takes its own mark away, and the third one finds none. -/
def staysDirty : List (FdEvent 2) :=
  [.start (fun _ => true) true] ++ writes 1 ++ [.start (fun _ => true) true] ++
    onFirst 1 0 .mark ++ [.on 0 (.marksDone (·.val = 1))] ++ onFirst 1 0 .perform ++
    [.on 0 (.resume firstOnly), .on 0 .postOpSafe, .on 0 (.postOpNow fun _ => false),
      .on 1 (.postOpNow fun _ => false)] ++ onFirst 2 2 .perform ++
    [.on 2 (.resume fun _ => ⟨10, 0⟩), .on 2 (.postOpNow fun _ => false)]

theorem dirty_mark_stays : (runAll (fdStep twoBricks) staysDirty (newFd 2)).txns.length = 3 ∧
      (∀ x ∈ (runAll (fdStep twoBricks) staysDirty (newFd 2)).txns,
        x.phase = .posted ∧ 0 ≤ x.loc.opRet) ∧
      (runAll (fdStep twoBricks) staysDirty (newFd 2)).dirtySent = 1 := by
  decide

end TagItGluster.Afr
