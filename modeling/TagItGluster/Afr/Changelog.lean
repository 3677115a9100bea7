import Mathlib.Algebra.Ring.Int.Defs
import Mathlib.Data.Fintype.List
import TagItGluster.Afr.Transaction
import TagItGluster.Base.Workers

/-!
# Transactions that share a dirty mark

Any number of write transactions on one `fd`, each of which goes through its pre-op, the write and
its post-op. The bricks apply what they are sent in their own time, or not at all; a brick that has
answered without an error has applied it. What the transactions share is changed in the locked
sections of `fd->lock`, which are the steps here, together with what is sent to the bricks. Line
numbers: `xlators/cluster/afr/src/afr-transaction.c`.
-/

namespace TagItGluster.Afr

/-- The answer of a brick to a write. -/
structure Reply where
  opRet : Int
  opErrno : Int

/-- `ENOTCONN`. -/
def enotconn : Int := 107

section

variable {n : Nat}

/-- `op_ret` of `__afr_inode_write_finalize` (afr-inode-write.c:44): the best answer. -/
def afrInodeWriteFinalize (replies : Fin n → Reply) (l : Local n) : Int :=
  (List.finRange n).foldl (fun best i =>
    if l.preOp i ∧ 0 ≤ (replies i).opRet ∧ best < (replies i).opRet then (replies i).opRet
    else best) (-1)

/-- What the callbacks of a write have recorded when all bricks have answered: an answer that is
an error or, by `afr_writev_handle_short_writes` (afr-inode-write.c:215), less than the best one is
a failure. -/
def afrWritevDone (replies : Fin n → Reply) (l : Local n) : Local n :=
  let opRet := afrInodeWriteFinalize replies l
  { l with
    opRet := opRet
    failedSubvols := fun i => l.failedSubvols i ||
      (l.preOp i && decide ((replies i).opRet < 0 ∨ (replies i).opRet < opRet)) }

/-- Whether all answers are the same error, and one that says that nothing has been done. -/
def matchingErrors (replies : Fin n → Reply) (l : Local n) : Bool :=
  ((List.finRange n).foldl (fun (opErrno : Option Int) i =>
    opErrno.bind fun e =>
      if !l.preOp i then some e
      else if (replies i).opRet ≠ -1 then none
      else if (replies i).opErrno = enotconn then none
      else if e = 0 then some (replies i).opErrno
      else if e ≠ (replies i).opErrno then none
      else some e) (some 0)).isSome

/-- `afr_handle_symmetric_errors` (516), with `__mark_all_success` (130). -/
def afrHandleSymmetricErrors (replies : Fin n → Reply) (l : Local n) : Local n :=
  if matchingErrors replies l then { l with failedSubvols := fun _ => false } else l

end

/-- How far a transaction is: the pre-op has been sent, the write has been sent, all bricks have
answered, it has uninherited and may wait for an `fsync`, or its post-op has been sent. -/
inductive Phase where
  | marking
  | operating
  | answered
  | waiting
  | posted
deriving DecidableEq

/-- A transaction, and what the bricks have done for it. Whether it has been counted on disk, has
given up an inherited mark with none on disk, and has sent a post-op that takes a mark away, is
only recorded. -/
structure Txn (n : Nat) where
  loc : Local n
  phase : Phase
  counted : Bool
  orphaned : Bool
  undirties : Bool
  marked : Subvols n
  performed : Subvols n
  undirtied : Subvols n

/-- An `fd` with the transactions on it. -/
structure Fd (n : Nat) where
  ctx : FdCtx n
  txns : List (Txn n)

/-- What happens to a transaction. -/
inductive TxnEvent (n : Nat) where
  | mark (i : Fin n)
  | marksDone (failed : Subvols n)
  | perform (i : Fin n)
  | resume (replies : Fin n → Reply)
  | postOpSafe
  | postOpNow (fsyncFailed : Subvols n)
  | undirty (i : Fin n)

/-- What happens on an `fd`. -/
inductive FdEvent (n : Nat) where
  | start (lockedNodes : Subvols n) (preOpCompat : Bool)
  | on (t : Nat) (e : TxnEvent n)

section

variable (priv : Private)

/-- The bricks that are in `s` and in the pre-op have failed too. -/
def Local.failOn {n : Nat} (s : Subvols n) (l : Local n) : Local n :=
  { l with failedSubvols := fun i => l.failedSubvols i || (l.preOp i && s i) }

/-- `afr_changelog_pre_op_update` (907) for a transaction. -/
def Txn.update {n : Nat} (ctx : FdCtx n) (x : Txn n) : FdCtx n × Txn n :=
  let r := afrChangelogPreOpUpdate ctx x.loc
  (r.2.1, { x with loc := r.2.2, counted := x.counted || r.1 })

/-- Whether uninheriting takes no mark of the `fd` although one was inherited. -/
def Txn.findsNone {n : Nat} (ctx : FdCtx n) (x : Txn n) : Bool :=
  x.loc.inherited && !x.loc.uninheritDone && decide (ctx.onDisk = 0)

/-- What an event does to a transaction, if it can happen. -/
def Txn.act : TxnEvent priv.childCount → FdCtx priv.childCount → Txn priv.childCount →
    Option (FdCtx priv.childCount × Txn priv.childCount)
  -- A brick adds one to its dirty count, for the pre-op or along with the write.
  | .mark i, ctx, x =>
    if x.loc.dirtied ∧ x.loc.preOp i ∧ x.marked i = false then
      some (ctx, { x with marked := Function.update x.marked i true })
    else none
  -- All bricks have answered the pre-op, and `afr_transaction_perform_fop` sends the write.
  | .marksDone failed, ctx, x =>
    if x.phase = .marking ∧ ∀ i, x.loc.preOp i → failed i = false → x.loc.dirtied → x.marked i then
      let r := { x with loc := x.loc.failOn failed }.update ctx
      some (r.1, { r.2 with phase := .operating })
    else none
  -- A brick writes. A mark that comes with the write is there before.
  | .perform i, ctx, x =>
    if x.phase ≠ .marking ∧ x.loc.preOp i ∧ x.performed i = false ∧
        (x.loc.preOpCompat = false → x.loc.dirtied → x.marked i) then
      some (ctx, { x with performed := Function.update x.performed i true })
    else none
  -- All bricks have answered the write, and `afr_transaction_resume` follows.
  | .resume replies, ctx, x =>
    if x.phase = .operating ∧ ∀ i, x.loc.preOp i → 0 ≤ (replies i).opRet → x.performed i then
      let l := afrHandleSymmetricErrors replies (afrWritevDone replies x.loc)
      let r := if l.preOpCompat then (ctx, { x with loc := l }) else { x with loc := l }.update ctx
      some (r.1, { r.2 with phase := .answered })
    else none
  -- `afr_changelog_post_op_safe`, up to the `fsync` or to `afr_changelog_post_op_now`.
  | .postOpSafe, ctx, x =>
    if x.phase = .answered then
      let r := afrChangelogPreOpUninherit ctx x.loc
      some (r.2.1, { x with
        loc := r.2.2, phase := .waiting, orphaned := x.orphaned || x.findsNone ctx })
    else none
  -- `afr_changelog_post_op_now`, after the `fsync`, without one, or from a delayed post-op.
  | .postOpNow fsyncFailed, ctx, x =>
    if x.phase = .waiting ∨ x.phase = .answered ∧ afrTxnNothingFailed x.loc then
      let l :=
        if x.phase = .waiting ∧ ¬(x.loc.uninheritValue ∧ afrTxnNothingFailed x.loc) then
          x.loc.failOn fsyncFailed
        else x.loc
      let r := afrChangelogPostOpNow priv ctx l
      some (r.2.1, { x with
        loc := r.2.2, phase := .posted, orphaned := x.orphaned || x.findsNone ctx,
        undirties := r.1.any fun xattr => xattr.dirty = -1 })
    else none
  -- A brick takes one from its dirty count for the post-op.
  | .undirty i, ctx, x =>
    if x.undirties ∧ x.loc.preOp i ∧ x.undirtied i = false then
      some (ctx, { x with undirtied := Function.update x.undirtied i true })
    else none

/-- A transaction after its pre-op, which has been sent to the bricks unless it goes along with the
write or there is nothing to send. -/
def Txn.new {n : Nat} (l : Local n) : Txn n where
  loc := l
  phase :=
    if l.preOpCompat ∧ l.inherited = false ∧ ¬(n ≤ afrCount l.preOp ∧ l.dirtied = false) then
      .marking
    else .operating
  counted := false
  orphaned := false
  undirties := false
  marked _ := false
  performed _ := false
  undirtied _ := false

/-- An event on an `fd`. -/
def fdStep : FdEvent priv.childCount → Fd priv.childCount → Fd priv.childCount
  | .start lockedNodes preOpCompat, fd =>
    match afrChangelogPreOp priv lockedNodes preOpCompat fd.ctx with
    | some (ctx, l) => ⟨ctx, fd.txns ++ [Txn.new l]⟩
    | none => fd
  | .on t e, fd =>
    match fd.txns[t]? with
    | some x =>
      match x.act priv e fd.ctx with
      | some (ctx, y) => ⟨ctx, fd.txns.set t y⟩
      | none => fd
    | none => fd

/-- An `fd` without transactions. -/
def newFd (n : Nat) : Fd n := ⟨⟨fun _ => false, 0, 0⟩, []⟩

end

variable {n : Nat}

/-- The dirty count of a brick. -/
def Fd.dirtyOn (fd : Fd n) (i : Fin n) : Int :=
  (fd.txns.countP (fun x => x.marked i) : Int) - fd.txns.countP (fun x => x.undirtied i)

/-- The sum of what pre-ops and post-ops have sent to change dirty counts. -/
def Fd.dirtySent (fd : Fd n) : Int :=
  (fd.txns.countP (fun x => x.loc.dirtied) : Int) - fd.txns.countP (fun x => x.undirties)

end TagItGluster.Afr
