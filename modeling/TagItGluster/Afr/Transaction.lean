import Mathlib.Data.Fintype.Pi

/-!
# Write transactions on replicas

A write is a transaction: the pre-op marks the file dirty on the bricks that are locked, the write
is sent to them, and the post-op takes the mark away and blames the bricks that have failed.
Transactions on one `fd` share a mark: one that finds it on disk inherits it and leaves it to
others. A transaction that has not succeeded on a quorum of the bricks blames nobody. Line numbers:
`xlators/cluster/afr/src/afr-transaction.c`.
-/

namespace TagItGluster.Afr

/-- `AFR_QUORUM_AUTO`. -/
def afrQuorumAuto : Nat := 2147483647

/-- A flag for each brick. -/
abbrev Subvols (n : Nat) := Fin n → Bool

/-- The `afr_private_t` of a volume. -/
structure Private where
  childCount : Nat
  childCount_pos : 0 < childCount
  quorumCount : Nat

/-- The state of a transaction in `afr_local_t`. -/
structure Local (n : Nat) where
  preOp : Subvols n
  failedSubvols : Subvols n
  dirtied : Bool
  inherited : Bool
  noUninherit : Bool
  uninheritDone : Bool
  uninheritValue : Bool
  preOpCompat : Bool
  opRet : Int
deriving DecidableEq

/-- The `afr_fd_ctx_t` of an `fd`, for data transactions. -/
structure FdCtx (n : Nat) where
  preOpDone : Subvols n
  inherited : Nat
  onDisk : Nat
deriving DecidableEq

/-- The changelog that a post-op adds to what the bricks have. -/
structure Xattr (n : Nat) where
  dirty : Int
  pending : Fin n → Int

section

variable {n : Nat}

/-- `AFR_COUNT` (afr.h:54). -/
def afrCount (array : Subvols n) : Nat := (Finset.univ.filter fun i => array i = true).card

/-- `afr_has_quorum` (563). -/
def afrHasQuorum (priv : Private) (subvols : Subvols priv.childCount) : Bool :=
  if priv.quorumCount = afrQuorumAuto ∧ priv.childCount % 2 = 0 ∧
      afrCount subvols = priv.childCount / 2 then
    subvols ⟨0, priv.childCount_pos⟩
  else
    (if priv.quorumCount = afrQuorumAuto then priv.childCount / 2 + 1 else priv.quorumCount) ≤
      afrCount subvols

/-- `afr_txn_nothing_failed` (492). -/
def afrTxnNothingFailed (l : Local n) : Bool :=
  n ≤ afrCount l.preOp && decide (∀ i, l.failedSubvols i = false)

/-- `afr_has_fop_cbk_quorum` (611). -/
def afrHasFopCbkQuorum (priv : Private) (l : Local priv.childCount) : Bool :=
  afrHasQuorum priv fun i => l.preOp i && !l.failedSubvols i

/-- `afr_handle_quorum` (629). -/
def afrHandleQuorum (priv : Private) (l : Local priv.childCount) : Local priv.childCount :=
  if priv.quorumCount = 0 then l
  else if l.opRet = -1 then l
  else if afrHasFopCbkQuorum priv l then l
  else { l with failedSubvols := fun i => l.failedSubvols i || l.preOp i, opRet := -1 }

end

section

variable {n : Nat}

/-- `afr_changelog_pre_op_inherit` (850). -/
def afrChangelogPreOpInherit (ctx : FdCtx n) (l : Local n) : Bool × FdCtx n × Local n :=
  if ctx.onDisk = 0 then (false, ctx, l)
  else if l.preOp ≠ ctx.preOpDone then (false, ctx, l)
  else (true, { ctx with inherited := ctx.inherited + 1 }, { l with inherited := true })

/-- `afr_changelog_pre_op_update` (907). -/
def afrChangelogPreOpUpdate (ctx : FdCtx n) (l : Local n) : Bool × FdCtx n × Local n :=
  if l.inherited then (false, ctx, l)
  else if !l.dirtied then (false, ctx, l)
  else if !afrTxnNothingFailed l then (false, ctx, l)
  else if ctx.onDisk = 0 then
    (true, { ctx with preOpDone := l.preOp, onDisk := ctx.onDisk + 1 }, l)
  else if ctx.preOpDone ≠ l.preOp then (false, ctx, { l with noUninherit := true })
  else (true, { ctx with onDisk := ctx.onDisk + 1 }, l)

/-- The locked section of `afr_changelog_pre_op_uninherit`. -/
def uninheritLocked (ctx : FdCtx n) (l : Local n) : Bool × FdCtx n :=
  if l.preOp ≠ ctx.preOpDone then (!l.dirtied, ctx)
  else
    let r :=
      if ctx.inherited ≠ 0 then (true, { ctx with inherited := ctx.inherited - 1 })
      else if ctx.onDisk ≠ 0 then (false, { ctx with onDisk := ctx.onDisk - 1 })
      else (false, ctx)
    (r.1, if r.2.inherited = 0 ∧ r.2.onDisk = 0 then { r.2 with preOpDone := fun _ => false }
      else r.2)

/-- `afr_changelog_pre_op_uninherit` (775), which gives its first answer again when called again. -/
def afrChangelogPreOpUninherit (ctx : FdCtx n) (l : Local n) : Bool × FdCtx n × Local n :=
  if l.noUninherit then (false, ctx, l)
  else if l.uninheritDone then (l.uninheritValue, ctx, l)
  else
    let r := uninheritLocked ctx l
    (r.1, r.2, { l with uninheritDone := true, uninheritValue := r.1 })

/-- `afr_changelog_post_op_now` (698): the changelog that is sent to the bricks of the pre-op, if
any. -/
def afrChangelogPostOpNow (priv : Private) (ctx : FdCtx priv.childCount)
    (l : Local priv.childCount) :
    Option (Xattr priv.childCount) × FdCtx priv.childCount × Local priv.childCount :=
  let l := afrHandleQuorum priv l
  let r := afrChangelogPreOpUninherit ctx l
  if r.2.2.opRet < 0 then (none, r.2)
  else if afrTxnNothingFailed l && r.1 then (none, r.2)
  else
    (some { dirty := if r.1 then 0 else -1
            pending := fun i => if r.2.2.failedSubvols i then 1 else 0 }, r.2)

/-- `afr_changelog_pre_op` (1090), up to what it sends to the bricks: the transaction, unless too
few bricks are locked. -/
def afrChangelogPreOp (priv : Private) (lockedNodes : Subvols priv.childCount)
    (preOpCompat : Bool) (ctx : FdCtx priv.childCount) :
    Option (FdCtx priv.childCount × Local priv.childCount) :=
  let l : Local priv.childCount :=
    { preOp := lockedNodes, failedSubvols := fun i => !lockedNodes i, dirtied := false,
      inherited := false, noUninherit := false, uninheritDone := false, uninheritValue := false,
      preOpCompat := preOpCompat, opRet := 0 }
  if afrCount l.preOp = 0 then none
  else if priv.quorumCount ≠ 0 ∧ afrHasQuorum priv lockedNodes = false then none
  else
    let r := afrChangelogPreOpInherit ctx l
    if r.1 then some r.2
    else some (ctx, { l with dirtied := 1 < afrCount l.preOp })

end

variable {priv : Private}

private lemma afrHasQuorum_auto (hauto : priv.quorumCount = afrQuorumAuto)
    {s : Subvols priv.childCount} (h : afrHasQuorum priv s) :
    priv.childCount = 2 * afrCount s ∧ s ⟨0, priv.childCount_pos⟩ ∨
      priv.childCount < 2 * afrCount s := by
  unfold afrHasQuorum at h
  split at h
  · next hhalf => exact .inl ⟨by omega, h⟩
  · next hhalf =>
    have hmost := of_decide_eq_true h
    exact .inr (by omega)

/-- Two sets of bricks with more than all bricks together have one in common. -/
lemma exists_common {n : Nat} {s t : Subvols n} (h : n < afrCount s + afrCount t) :
    ∃ i, s i ∧ t i = true := by
  have hcard : (Finset.univ : Finset (Fin n)).card < afrCount s + afrCount t := by
    rwa [Finset.card_fin]
  obtain ⟨i, hi⟩ := Finset.inter_nonempty_of_card_lt_card_add_card (Finset.filter_subset _ _)
    (Finset.filter_subset _ _) hcard
  simp only [Finset.mem_inter, Finset.mem_filter, Finset.mem_univ, true_and] at hi
  exact ⟨i, hi⟩

private lemma quorums_meet (hauto : priv.quorumCount = afrQuorumAuto)
    {s t : Subvols priv.childCount} (hs : afrHasQuorum priv s)
    (ht : afrHasQuorum priv t) : ∃ i, s i ∧ t i = true := by
  rcases afrHasQuorum_auto hauto hs with ⟨hcs, hs⟩ | hcs
  · rcases afrHasQuorum_auto hauto ht with ⟨hct, ht⟩ | hct
    · exact ⟨_, hs, ht⟩
    · exact exists_common (by omega)
  · rcases afrHasQuorum_auto hauto ht with ⟨hct, ht⟩ | hct <;> exact exists_common (by omega)

/-- Uninheriting does not change which bricks have failed. -/
lemma uninherit_frame {n : Nat} (ctx : FdCtx n) (l : Local n) :
    (afrChangelogPreOpUninherit ctx l).2.2.failedSubvols = l.failedSubvols ∧
      (afrChangelogPreOpUninherit ctx l).2.2.opRet = l.opRet := by
  unfold afrChangelogPreOpUninherit
  split
  · exact ⟨rfl, rfl⟩
  · split <;> exact ⟨rfl, rfl⟩

/-- A transaction whose post-op blames bricks has succeeded on a quorum of them, and these it does
not blame. -/
lemma postOpNow_quorum (hauto : priv.quorumCount = afrQuorumAuto) {ctx : FdCtx priv.childCount}
    {l : Local priv.childCount} {x : Xattr priv.childCount}
    (h : (afrChangelogPostOpNow priv ctx l).1 = some x) :
    ∃ s, afrHasQuorum priv s ∧ ∀ i, s i → x.pending i = 0 := by
  obtain ⟨hfailed, hret⟩ := uninherit_frame ctx (afrHandleQuorum priv l)
  simp only [afrChangelogPostOpNow] at h
  split at h
  · cases h
  next hok =>
  split at h
  · cases h
  obtain rfl := Option.some.inj h
  rw [hret] at hok
  simp only [hfailed]
  unfold afrHandleQuorum at hok ⊢
  rw [if_neg (hauto ▸ by decide)] at hok ⊢
  split at hok
  · next hfop => exact absurd hfop (by omega)
  next hfop =>
  rw [if_neg hfop]
  split at hok
  · next hquorum =>
    refine ⟨_, hquorum, fun i hi => ?_⟩
    rw [if_pos hquorum]
    have hsuccess : l.failedSubvols i = false :=
      (Bool.not_eq_true' _).mp (Bool.and_eq_true_iff.mp hi).2
    rw [hsuccess]
    rfl
  · exact absurd (show -1 < 0 by decide) hok

/-- With auto quorum, no two sets of bricks with a quorum are disjoint, and whatever two
transactions have come to, there is a brick that neither of their post-ops blames. -/
theorem neither_blames (priv : Private) (hauto : priv.quorumCount = afrQuorumAuto) :
    (∀ s t, afrHasQuorum priv s = true → afrHasQuorum priv t = true →
        ∃ i, s i = true ∧ t i = true) ∧
      ∀ ctx₁ l₁ x₁ ctx₂ l₂ x₂, (afrChangelogPostOpNow priv ctx₁ l₁).1 = some x₁ →
        (afrChangelogPostOpNow priv ctx₂ l₂).1 = some x₂ →
        ∃ i, x₁.pending i = 0 ∧ x₂.pending i = 0 := by
  refine ⟨fun s t hs ht => quorums_meet hauto hs ht, ?_⟩
  intro ctx₁ l₁ x₁ ctx₂ l₂ x₂ h₁ h₂
  obtain ⟨s, hs, hs₀⟩ := postOpNow_quorum hauto h₁
  obtain ⟨t, ht, ht₀⟩ := postOpNow_quorum hauto h₂
  obtain ⟨i, hi, hi'⟩ := quorums_meet hauto hs ht
  exact ⟨i, hs₀ i hi, ht₀ i hi'⟩

/-- Three bricks with auto quorum. -/
def threeBricks : Private := ⟨3, by decide, afrQuorumAuto⟩

/-- A write of ten bytes that has failed on a brick. -/
def failedOn (b : Fin 3) : Local 3 where
  preOp _ := true
  failedSubvols i := i == b
  dirtied := true
  inherited := false
  noUninherit := false
  uninheritDone := false
  uninheritValue := false
  preOpCompat := true
  opRet := 10

/-- What the post-op of such a write adds. -/
def blames (b : Fin 3) : Xattr 3 := ⟨-1, fun i => if i == b then 1 else 0⟩

theorem neither_blames_three_bricks :
    ∃ i : Fin 3, (blames 0).pending i = 0 ∧ (blames 1).pending i = 0 :=
  (neither_blames threeBricks rfl).2 ⟨fun _ => true, 0, 1⟩ (failedOn 0) (blames 0)
    ⟨fun _ => true, 0, 1⟩ (failedOn 1) (blames 1) rfl rfl

end TagItGluster.Afr
