import TagItGluster.Afr.Changelog

/-!
# What happens to transactions on an `fd`

The events of a transaction are broken down to moves, each of which changes one thing: what a brick
has done, how far the transaction is, or the counters of the `fd`. A mark on disk is one on all
bricks, so a transaction has its own mark, an inherited one, or only one brick.
-/

namespace TagItGluster.Afr

open List Option

section

variable {n : Nat}

/-- What the locked sections look at. -/
structure Local.Like (l l' : Local n) : Prop where
  preOp : l.preOp = l'.preOp
  dirtied : l.dirtied = l'.dirtied
  inherited : l.inherited = l'.inherited
  noUninherit : l.noUninherit = l'.noUninherit
  uninheritDone : l.uninheritDone = l'.uninheritDone
  uninheritValue : l.uninheritValue = l'.uninheritValue
  preOpCompat : l.preOpCompat = l'.preOpCompat

/-- The transaction has been answered by `afr_changelog_pre_op_uninherit`. -/
def Local.given (value : Bool) (l : Local n) : Local n :=
  { l with uninheritDone := true, uninheritValue := value }

/-- The counters and `pre_op_done` of an `fd`: a mark on disk is one on all bricks. -/
structure FdCtx.Ok (ctx : FdCtx n) : Prop where
  none : ctx.onDisk = 0 → ctx.inherited = 0 ∧ ctx.preOpDone = fun _ => false
  some : 0 < ctx.onDisk → (ctx.preOpDone = fun _ => true) ∧ 1 < n

/-- The state of a transaction is one that it can be in. -/
structure Txn.Ok (x : Txn n) : Prop where
  isolated : x.loc.noUninherit = false
  used : 0 < afrCount x.loc.preOp
  alone : x.loc.dirtied = false → x.loc.inherited = false → afrCount x.loc.preOp ≤ 1
  dirtied : x.loc.dirtied = true → 1 < afrCount x.loc.preOp
  heir : x.loc.inherited = true → x.loc.dirtied = false ∧ x.loc.preOp = fun _ => true
  early : x.phase = .marking ∨ x.phase = .operating ∨ x.phase = .answered ↔
    x.loc.uninheritDone = false
  marking : x.phase = .marking → x.loc.preOpCompat = true
  counted : x.counted = true → x.loc.dirtied = true ∧ (x.loc.preOp = fun _ => true) ∧
    x.phase ≠ .marking ∧ (x.phase = .operating → x.loc.preOpCompat = true)
  orphaned : x.orphaned = true → x.loc.uninheritDone = true
  spent : x.loc.uninheritDone = true → x.loc.dirtied = false → x.loc.inherited = false →
    x.loc.uninheritValue = true
  marked : ∀ i, x.marked i = true → x.loc.dirtied = true ∧ x.loc.preOp i = true
  performed : ∀ i, x.performed i = true → x.loc.preOp i = true ∧ x.phase ≠ .marking ∧
    (x.loc.preOpCompat = false → x.loc.dirtied = true → x.marked i = true)
  undirties : x.undirties = true → x.phase = .posted ∧ x.loc.uninheritValue = false
  undirtied : ∀ i, x.undirtied i = true → x.undirties = true ∧ x.loc.preOp i = true
  posted : x.phase = .posted → 0 ≤ x.loc.opRet → x.undirties = !x.loc.uninheritValue

lemma Txn.Ok.done_iff {x : Txn n} (hx : x.Ok) :
    x.loc.uninheritDone ↔ x.phase = .waiting ∨ x.phase = .posted := by
  rw [← not_iff_not, Bool.not_eq_true, ← hx.early]
  cases x.phase <;> simp

/-- What a transaction does, one thing after the other: a brick marks the file or writes, all bricks
have answered, the transaction is counted on disk, it gives up its share in the mark, its post-op
is sent, or a brick takes a mark away. -/
inductive Moves : FdCtx n → Txn n → FdCtx n → Txn n → Prop
  | mark {ctx x} (i : Fin n) (hdirtied : x.loc.dirtied = true) (hpre : x.loc.preOp i = true)
      (hmarked : x.marked i = false) :
      Moves ctx x ctx { x with marked := Function.update x.marked i true }
  | perform {ctx x} (i : Fin n) (hphase : x.phase ≠ .marking) (hpre : x.loc.preOp i = true)
      (hmark : x.loc.preOpCompat = false → x.loc.dirtied = true → x.marked i = true) :
      Moves ctx x ctx { x with performed := Function.update x.performed i true }
  | answer {ctx x} (l : Local n) (phase : Phase) (hlike : l.Like x.loc)
      (hphase : x.phase = .marking ∧ phase = .operating ∨
        x.phase = .operating ∧ phase = .answered) :
      Moves ctx x ctx { x with loc := l, phase := phase }
  | count {ctx x} (hinherited : x.loc.inherited = false) (hdirtied : x.loc.dirtied = true)
      (hall : x.loc.preOp = fun _ => true) (hcounted : x.counted = false)
      (hphase : x.phase = .operating ∧ x.loc.preOpCompat = true ∨ x.phase = .answered) :
      Moves ctx x { ctx with preOpDone := fun _ => true, onDisk := ctx.onDisk + 1 }
        { x with counted := true }
  | giveUp {ctx x} (hphase : x.phase = .answered) :
      Moves ctx x (uninheritLocked ctx x.loc).2 { x with
          loc := x.loc.given (uninheritLocked ctx x.loc).1
          phase := .waiting
          orphaned := x.orphaned || x.findsNone ctx }
  | post {ctx x} (l : Local n) (undirties : Bool) (hphase : x.phase = .waiting)
      (hlike : l.Like x.loc) (hvalue : undirties = true → x.loc.uninheritValue = false)
      (hret : 0 ≤ l.opRet → undirties = !x.loc.uninheritValue) :
      Moves ctx x ctx { x with loc := l, phase := .posted, undirties := undirties }
  | undirty {ctx x} (i : Fin n) (hundirties : x.undirties = true) (hpre : x.loc.preOp i = true)
      (hundirtied : x.undirtied i = false) :
      Moves ctx x ctx { x with undirtied := Function.update x.undirtied i true }

private lemma afrCount_eq (s : Subvols n) : n ≤ afrCount s ↔ s = fun _ => true := by
  constructor
  · intro h
    have hcard : (Finset.univ : Finset (Fin n)).card ≤ afrCount s := by rwa [Finset.card_fin]
    have hfilter := Finset.eq_of_subset_of_card_le (Finset.filter_subset _ _) hcard
    funext i
    have hi := Finset.mem_univ i
    rw [← hfilter, Finset.mem_filter] at hi
    exact hi.2
  · rintro rfl
    simp [afrCount]

private lemma afrCount_all : afrCount (fun _ : Fin n => true) = n := by
  simp [afrCount]

private lemma nothingFailed_all {l : Local n} (h : afrTxnNothingFailed l) :
    l.preOp = fun _ => true :=
  (afrCount_eq l.preOp).mp (of_decide_eq_true (Bool.and_eq_true_iff.mp h).1)

/-- A transaction is counted on disk if it has marked all bricks and nothing has failed. -/
lemma preOpUpdate_cases {ctx : FdCtx n} (hctx : ctx.Ok) (l : Local n) :
    afrChangelogPreOpUpdate ctx l = (false, ctx, l) ∨
      l.inherited = false ∧ l.dirtied ∧ (l.preOp = fun _ => true) ∧ afrChangelogPreOpUpdate ctx l =
          (true, { ctx with preOpDone := fun _ => true, onDisk := ctx.onDisk + 1 }, l) := by
  unfold afrChangelogPreOpUpdate
  split
  · exact .inl rfl
  next hinherited =>
  split
  · exact .inl rfl
  next hdirtied =>
  split
  · exact .inl rfl
  next hfailed =>
  have hall := nothingFailed_all (by simpa using hfailed)
  refine .inr ⟨by simpa using hinherited, by simpa using hdirtied, hall, ?_⟩
  split
  · rw [hall]
  · next hdisk =>
    obtain ⟨hdone, -⟩ := hctx.some (Nat.pos_of_ne_zero hdisk)
    rw [if_neg (by rw [hdone, hall]; exact fun h => h rfl), ← hdone]

/-- What giving up a share in the mark does to the counters, and the answer. -/
lemma uninheritLocked_cases {ctx : FdCtx n} (hctx : ctx.Ok) (l : Local n)
    (hused : 0 < afrCount l.preOp) :
    0 < ctx.inherited ∧ 0 < ctx.onDisk ∧ (l.preOp = fun _ => true) ∧
        uninheritLocked ctx l = (true, { ctx with inherited := ctx.inherited - 1 }) ∨
      (∃ done, ctx.inherited = 0 ∧ 0 < ctx.onDisk ∧ (l.preOp = fun _ => true) ∧
        uninheritLocked ctx l = (false, ⟨done, 0, ctx.onDisk - 1⟩) ∧
        FdCtx.Ok (⟨done, 0, ctx.onDisk - 1⟩ : FdCtx n)) ∨
      (ctx.onDisk = 0 ∨ l.preOp ≠ fun _ => true) ∧ uninheritLocked ctx l = (!l.dirtied, ctx) := by
  by_cases hdisk : ctx.onDisk = 0
  · obtain ⟨-, hdone⟩ := hctx.none hdisk
    refine .inr (.inr ⟨.inl hdisk, ?_⟩)
    rw [uninheritLocked, if_pos]
    rw [hdone]
    rintro hnone
    rw [hnone] at hused
    simp [afrCount] at hused
  · have hpos := Nat.pos_of_ne_zero hdisk
    obtain ⟨hdone, htwo⟩ := hctx.some hpos
    by_cases hall : l.preOp = fun _ => true
    · rw [uninheritLocked, if_neg (by rw [hall, hdone]; exact fun h => h rfl)]
      by_cases hinh : ctx.inherited = 0
      · refine .inr (.inl ?_)
        simp only [hinh, ne_eq, not_true_eq_false, if_false, hdisk, not_false_eq_true, if_true,
          true_and]
        by_cases hone : ctx.onDisk - 1 = 0
        · refine ⟨fun _ => false, hpos, hall, by rw [if_pos hone], fun _ => ⟨rfl, rfl⟩, ?_⟩
          exact fun h => absurd hone (Nat.ne_of_gt h)
        · refine ⟨ctx.preOpDone, hpos, hall, by rw [if_neg hone], fun h => absurd h hone, ?_⟩
          exact fun _ => ⟨hdone, htwo⟩
      · refine .inl ⟨Nat.pos_of_ne_zero hinh, hpos, hall, ?_⟩
        simp [hinh, hdisk]
    · refine .inr (.inr ⟨.inr hall, ?_⟩)
      rw [uninheritLocked, if_pos (by rw [hdone]; exact hall)]

private lemma Moves.ctx_ok {ctx ctx' : FdCtx n} {x y : Txn n} (h : Moves ctx x ctx' y)
    (hctx : ctx.Ok) (hx : x.Ok) : ctx'.Ok := by
  cases h with
  | mark | perform | answer | post | undirty => exact hctx
  | count hinherited hdirtied hall hcounted hphase =>
    have htwo := hx.dirtied hdirtied
    rw [hall, afrCount_all] at htwo
    exact ⟨fun h => absurd h (Nat.succ_ne_zero _), fun _ => ⟨rfl, htwo⟩⟩
  | giveUp hphase =>
    rcases uninheritLocked_cases hctx x.loc hx.used with
      ⟨hinh, hdisk, -, heq⟩ | ⟨done, -, -, -, heq, hok⟩ | ⟨-, heq⟩ <;> rw [heq]
    · exact ⟨fun h => absurd h (ne_of_gt hdisk), hctx.some⟩
    · exact hok
    · exact hctx

/-- A transaction that has given up its share without having had one says so. -/
lemma uninheritLocked_alone {ctx : FdCtx n} {x : Txn n} (hctx : ctx.Ok) (hx : x.Ok)
    (hdirtied : x.loc.dirtied = false) (hinherited : x.loc.inherited = false) :
    uninheritLocked ctx x.loc = (true, ctx) := by
  have hone := hx.alone hdirtied hinherited
  rcases uninheritLocked_cases hctx x.loc hx.used with
    ⟨-, hdisk, hall, -⟩ | ⟨-, -, hdisk, hall, -⟩ | ⟨-, heq⟩
  · rw [hall, afrCount_all] at hone
    exact absurd (hctx.some hdisk).2 (Nat.not_lt.mpr hone)
  · rw [hall, afrCount_all] at hone
    exact absurd (hctx.some hdisk).2 (Nat.not_lt.mpr hone)
  · rw [heq, hdirtied]
    rfl

private lemma set_or_was {s : Subvols n} {i j : Fin n} (h : Function.update s i true j) :
    j = i ∨ s j = true := by
  by_cases hij : j = i
  · exact .inl hij
  · rw [Function.update_of_ne hij] at h
    exact .inr h

private lemma stays_set {s : Subvols n} {j : Fin n} (i : Fin n) (h : s j) :
    Function.update s i true j = true := by
  by_cases hij : j = i
  · rw [hij]
    exact Function.update_self ..
  · rwa [Function.update_of_ne hij]

private lemma Moves.txn_ok {ctx ctx' : FdCtx n} {x y : Txn n} (h : Moves ctx x ctx' y)
    (hctx : ctx.Ok) (hx : x.Ok) : y.Ok := by
  cases h with
  | mark i hdirtied hpre hmarked =>
    refine { hx with marked := fun j hj => ?_, performed := fun j hj => ?_ }
    · rcases set_or_was hj with rfl | hj
      · exact ⟨hdirtied, hpre⟩
      · exact hx.marked j hj
    · obtain ⟨hpre', hphase, hmark⟩ := hx.performed j hj
      exact ⟨hpre', hphase, fun hcompat hd => stays_set i (hmark hcompat hd)⟩
  | perform i hphase hpre hmark =>
    refine { hx with performed := fun j hj => ?_ }
    rcases set_or_was hj with rfl | hj
    · exact ⟨hpre, hphase, hmark⟩
    · exact hx.performed j hj
  | answer l phase hlike hphase =>
    obtain ⟨hp, hd, hi, hn, hu, hv, hc⟩ := hlike
    have hnew : phase = .operating ∨ phase = .answered := hphase.imp And.right And.right
    have hdone : x.loc.uninheritDone = false :=
      hx.early.mp (hphase.elim (fun h => .inl h.1) fun h => .inr (.inl h.1))
    refine ⟨?_, ?_, ?_, ?_, ?_, ?_, ?_, ?_, ?_, ?_, ?_, ?_, ?_, ?_, ?_⟩ <;>
      simp only [hp, hd, hi, hn, hu, hv, hc]
    · exact hx.isolated
    · exact hx.used
    · exact hx.alone
    · exact hx.dirtied
    · exact hx.heir
    · exact iff_of_true (.inr hnew) hdone
    · rcases hnew with rfl | rfl <;> exact nofun
    · intro hcounted
      obtain ⟨hdirtied, hall, hmarking, hcompat⟩ := hx.counted hcounted
      refine ⟨hdirtied, hall, ?_, ?_⟩
      · rcases hnew with rfl | rfl <;> exact nofun
      · rintro rfl
        rcases hphase with ⟨hold, -⟩ | ⟨-, hnew⟩
        · exact absurd hold hmarking
        · cases hnew
    · exact hx.orphaned
    · exact hx.spent
    · exact hx.marked
    · intro i hi'
      obtain ⟨hpre, -, hmark⟩ := hx.performed i hi'
      refine ⟨hpre, ?_, hmark⟩
      rcases hnew with rfl | rfl <;> exact nofun
    · intro hund
      have hposted := (hx.undirties hund).1
      rw [hposted] at hphase
      rcases hphase with ⟨h, -⟩ | ⟨h, -⟩ <;> cases h
    · exact hx.undirtied
    · rintro rfl
      rcases hnew with h | h <;> cases h
  | count hinherited hdirtied hall hcounted hphase =>
    refine { hx with counted := fun _ => ⟨hdirtied, hall, ?_, ?_⟩ }
    · rcases hphase with ⟨h, -⟩ | h <;> rw [h] <;> exact nofun
    · rcases hphase with ⟨-, h⟩ | h
      · exact fun _ => h
      · rw [h]
        exact nofun
  | giveUp hphase =>
    refine ⟨hx.isolated, hx.used, hx.alone, hx.dirtied, hx.heir, ?_, nofun, ?_, fun _ => rfl, ?_,
      hx.marked, ?_, ?_, hx.undirtied, nofun⟩
    · exact iff_of_false (by simp) nofun
    · intro hcounted
      obtain ⟨hdirtied, hall, -, -⟩ := hx.counted hcounted
      exact ⟨hdirtied, hall, nofun, nofun⟩
    · intro _ hdirtied hinherited
      exact congrArg Prod.fst (uninheritLocked_alone hctx hx hdirtied hinherited)
    · intro i hi
      obtain ⟨hpre, -, hmark⟩ := hx.performed i hi
      exact ⟨hpre, nofun, hmark⟩
    · intro hund
      have hposted := (hx.undirties hund).1
      rw [hphase] at hposted
      cases hposted
  | post l undirties hphase hlike hvalue hret =>
    obtain ⟨hp, hd, hi, hn, hu, hv, hc⟩ := hlike
    have hdone := hx.done_iff.mpr (.inl hphase)
    refine ⟨?_, ?_, ?_, ?_, ?_, ?_, nofun, ?_, ?_, ?_, ?_, ?_, ?_, ?_, ?_⟩ <;>
      simp only [hp, hd, hi, hn, hu, hv, hc]
    · exact hx.isolated
    · exact hx.used
    · exact hx.alone
    · exact hx.dirtied
    · exact hx.heir
    · exact iff_of_false (by simp) (by simp [hdone])
    · intro hcounted
      obtain ⟨hdirtied, hall, -, -⟩ := hx.counted hcounted
      exact ⟨hdirtied, hall, nofun, nofun⟩
    · exact hx.orphaned
    · exact hx.spent
    · exact hx.marked
    · intro i hi'
      obtain ⟨hpre, -, hmark⟩ := hx.performed i hi'
      exact ⟨hpre, nofun, hmark⟩
    · exact fun h => ⟨trivial, hvalue h⟩
    · intro i hi'
      have hposted := (hx.undirties (hx.undirtied i hi').1).1
      rw [hphase] at hposted
      cases hposted
    · exact fun _ => hret
  | undirty i hundirties hpre hundirtied =>
    refine { hx with undirtied := fun j hj => ?_ }
    rcases set_or_was hj with rfl | hj
    · exact ⟨hundirties, hpre⟩
    · exact hx.undirtied j hj

end

section

variable {priv : Private} {ctx ctx' : FdCtx priv.childCount} {x y : Txn priv.childCount}

/-- One move, or two. -/
def Steps {n : Nat} (ctx : FdCtx n) (x : Txn n) (ctx' : FdCtx n) (y : Txn n) : Prop :=
  Moves ctx x ctx' y ∨ ∃ ctx₁ z, Moves ctx x ctx₁ z ∧ Moves ctx₁ z ctx' y

private lemma failOn_like {n : Nat} (s : Subvols n) (l : Local n) : (l.failOn s).Like l :=
  ⟨rfl, rfl, rfl, rfl, rfl, rfl, rfl⟩

private lemma symmetricErrors_like {n : Nat} (replies : Fin n → Reply) (l : Local n) :
    (afrHandleSymmetricErrors replies (afrWritevDone replies l)).Like l := by
  unfold afrHandleSymmetricErrors
  split <;> exact ⟨rfl, rfl, rfl, rfl, rfl, rfl, rfl⟩

/-- When all bricks have answered, the transaction may be counted on disk. -/
lemma answer_update {n : Nat} {ctx : FdCtx n} {x : Txn n} (hctx : ctx.Ok) {l : Local n}
    {phase : Phase} (hlike : l.Like x.loc)
    (hphase : x.phase = .marking ∧ phase = .operating ∨ x.phase = .operating ∧ phase = .answered)
    (hcompat : phase = .operating → l.preOpCompat) (hcounted : x.counted = false) :
    Steps ctx x (({ x with loc := l }.update ctx).1)
      { ({ x with loc := l }.update ctx).2 with phase := phase } := by
  have hanswer : Moves ctx x ctx { x with loc := l, phase := phase } :=
    .answer l phase hlike hphase
  simp only [Txn.update]
  rcases preOpUpdate_cases hctx l with heq | ⟨hinherited, hdirtied, hall, heq⟩ <;> rw [heq]
  · refine .inl ?_
    simp only [Bool.or_false]
    exact hanswer
  refine .inr ⟨ctx, _, hanswer, ?_⟩
  simp only [Bool.or_true]
  refine .count hinherited hdirtied hall hcounted ?_
  rcases hphase with ⟨-, rfl⟩ | ⟨-, rfl⟩
  · exact .inl ⟨rfl, hcompat rfl⟩
  · exact .inr rfl

/-- `afr_changelog_post_op_now` of a transaction that has given up its share: a mark is taken away
if it was not given to another one, and the operation has not failed. -/
lemma postOpNow_cases (ctx : FdCtx priv.childCount) (hdone : x.loc.uninheritDone)
    (hno : x.loc.noUninherit = false) {l : Local priv.childCount} (hlike : l.Like x.loc) :
    ∃ l' xattr, afrChangelogPostOpNow priv ctx l = (xattr, ctx, l') ∧ l'.Like x.loc ∧
      (xattr.any (fun x => x.dirty = -1) = true → x.loc.uninheritValue = false) ∧
      (0 ≤ l'.opRet → xattr.any (fun x => x.dirty = -1) = !x.loc.uninheritValue) := by
  have hlike' : (afrHandleQuorum priv l).Like x.loc := by
    obtain ⟨hp, hd, hi, hn, hu, hv, hc⟩ := hlike
    unfold afrHandleQuorum
    split
    · exact ⟨hp, hd, hi, hn, hu, hv, hc⟩
    · split
      · exact ⟨hp, hd, hi, hn, hu, hv, hc⟩
      · split <;> exact ⟨hp, hd, hi, hn, hu, hv, hc⟩
  simp only [afrChangelogPostOpNow]
  generalize afrHandleQuorum priv l = l' at hlike' ⊢
  have heq : afrChangelogPreOpUninherit ctx l' = (x.loc.uninheritValue, ctx, l') := by
    rw [afrChangelogPreOpUninherit,
      if_neg (by rw [hlike'.noUninherit, hno]; exact Bool.false_ne_true),
      if_pos (hlike'.uninheritDone.trans hdone), hlike'.uninheritValue]
  rw [heq]
  dsimp only
  split
  · next hret =>
    exact ⟨l', none, rfl, hlike', (fun h => by cases h), fun h => absurd hret (Int.not_lt.mpr h)⟩
  split
  · next hret hnothing =>
    rw [(Bool.and_eq_true_iff.mp hnothing).2]
    exact ⟨l', none, rfl, hlike', (fun h => by cases h), fun _ => rfl⟩
  · refine ⟨l', _, rfl, hlike', ?_⟩
    cases x.loc.uninheritValue <;> simp

/-- Giving up the share first makes no difference for `afr_changelog_post_op_now`, which would do
it otherwise. -/
lemma postOpNow_giveUp (hdone : x.loc.uninheritDone = false) (hno : x.loc.noUninherit = false) :
    afrChangelogPostOpNow priv ctx x.loc = afrChangelogPostOpNow priv (uninheritLocked ctx x.loc).2
        (x.loc.given (uninheritLocked ctx x.loc).1) := by
  have hquorum : ∀ v, afrHandleQuorum priv (x.loc.given v) =
      (afrHandleQuorum priv x.loc).given v := by
    intro v
    unfold afrHandleQuorum
    split
    · rfl
    split
    · next hret => rw [if_pos (show x.loc.opRet = -1 from hret)]
    next hret =>
    rw [if_neg (show ¬x.loc.opRet = -1 from hret)]
    split
    · next hq => rw [if_pos (show afrHasFopCbkQuorum priv x.loc = true from hq)]
    · next hq =>
      rw [if_neg (show ¬afrHasFopCbkQuorum priv x.loc = true from hq)]
      rfl
  have hlocked : uninheritLocked ctx (afrHandleQuorum priv x.loc) = uninheritLocked ctx x.loc := by
    unfold afrHandleQuorum
    split
    · rfl
    · split
      · rfl
      · split <;> rfl
  have hflags : (afrHandleQuorum priv x.loc).noUninherit = false ∧
      (afrHandleQuorum priv x.loc).uninheritDone = false := by
    unfold afrHandleQuorum
    split
    · exact ⟨hno, hdone⟩
    · split
      · exact ⟨hno, hdone⟩
      · split <;> exact ⟨hno, hdone⟩
  simp only [afrChangelogPostOpNow]
  rw [hquorum]
  generalize afrHandleQuorum priv x.loc = l at hlocked hflags
  generalize uninheritLocked ctx x.loc = r at hlocked ⊢
  have hfirst : afrChangelogPreOpUninherit ctx l = (r.1, r.2, l.given r.1) := by
    rw [afrChangelogPreOpUninherit, if_neg (by rw [hflags.1]; exact Bool.false_ne_true),
      if_neg (by rw [hflags.2]; exact Bool.false_ne_true), hlocked]
    rfl
  have hagain : afrChangelogPreOpUninherit r.2 (l.given r.1) = (r.1, r.2, l.given r.1) := by
    rw [afrChangelogPreOpUninherit, if_neg (show ¬(l.given r.1).noUninherit = true by
        rw [Local.given, hflags.1]
        exact Bool.false_ne_true)]
    exact if_pos rfl
  rw [hfirst, hagain]
  rfl

/-- What happens to a transaction is one of the moves, or two of them. -/
lemma act_steps (hctx : ctx.Ok) (hx : x.Ok) {e : TxnEvent priv.childCount}
    (h : x.act priv e ctx = some (ctx', y)) : Steps ctx x ctx' y := by
  cases e with
  | mark i =>
    obtain ⟨⟨hdirtied, hpre, hmarked⟩, h⟩ := ite_none_right_eq_some.mp h
    cases h
    exact .inl (.mark i hdirtied hpre hmarked)
  | marksDone failed =>
    obtain ⟨⟨hphase, -⟩, h⟩ := ite_none_right_eq_some.mp h
    cases h
    refine answer_update hctx (failOn_like failed x.loc) (.inl ⟨hphase, rfl⟩)
      (fun _ => hx.marking hphase) ?_
    by_contra hcounted
    exact (hx.counted (Bool.not_eq_false _ ▸ hcounted)).2.2.1 hphase
  | perform i =>
    obtain ⟨⟨hphase, hpre, -, hmark⟩, h⟩ := ite_none_right_eq_some.mp h
    cases h
    exact .inl (.perform i hphase hpre hmark)
  | resume replies =>
    obtain ⟨⟨hphase, -⟩, h⟩ := ite_none_right_eq_some.mp h
    cases h
    have hlike := symmetricErrors_like replies x.loc
    split
    · exact .inl (.answer _ .answered hlike (.inr ⟨hphase, rfl⟩))
    · next hcompat =>
      refine answer_update hctx hlike (.inr ⟨hphase, rfl⟩) nofun ?_
      by_contra hcounted
      rw [hlike.preOpCompat] at hcompat
      exact hcompat ((hx.counted (Bool.not_eq_false _ ▸ hcounted)).2.2.2 hphase)
  | postOpSafe =>
    obtain ⟨hphase, h⟩ := ite_none_right_eq_some.mp h
    have hdone := hx.early.mp (.inr (.inr hphase))
    have heq : afrChangelogPreOpUninherit ctx x.loc = ((uninheritLocked ctx x.loc).1,
        (uninheritLocked ctx x.loc).2, x.loc.given (uninheritLocked ctx x.loc).1) := by
      rw [afrChangelogPreOpUninherit, if_neg (by rw [hx.isolated]; exact nofun),
        if_neg (by rw [hdone]; exact nofun)]
      rfl
    rw [heq] at h
    cases h
    exact .inl (.giveUp hphase)
  | postOpNow fsyncFailed =>
    obtain ⟨hphase, h⟩ := ite_none_right_eq_some.mp h
    cases h
    rcases hphase with hphase | ⟨hphase, -⟩
    · have hdone := hx.done_iff.mpr (.inl hphase)
      have hnone : x.findsNone ctx = false := by simp [Txn.findsNone, hdone]
      have hlike : (if x.phase = .waiting ∧ ¬(x.loc.uninheritValue ∧ afrTxnNothingFailed x.loc)
          then x.loc.failOn fsyncFailed else x.loc).Like x.loc := by
        split
        · exact failOn_like fsyncFailed x.loc
        · exact ⟨rfl, rfl, rfl, rfl, rfl, rfl, rfl⟩
      obtain ⟨l', xattr, heq, hlike', hvalue, hret⟩ := postOpNow_cases ctx hdone hx.isolated hlike
      rw [heq, hnone, Bool.or_false]
      exact .inl (.post l' _ hphase hlike' hvalue hret)
    · have hdone := hx.early.mp (.inr (.inr hphase))
      have hgive : Moves ctx x _ _ := .giveUp hphase
      rw [if_neg (by rw [hphase]; exact fun h => nomatch h.1), postOpNow_giveUp hdone hx.isolated]
      obtain ⟨l', xattr, heq, hlike', hvalue, hret⟩ :=
        postOpNow_cases (uninheritLocked ctx x.loc).2
          (x := { x with loc := x.loc.given (uninheritLocked ctx x.loc).1 }) rfl hx.isolated
          ⟨rfl, rfl, rfl, rfl, rfl, rfl, rfl⟩
      rw [heq]
      exact .inr ⟨_, _, hgive, .post l' _ rfl hlike' hvalue hret⟩
  | undirty i =>
    obtain ⟨⟨hundirties, hpre, hundirtied⟩, h⟩ := ite_none_right_eq_some.mp h
    cases h
    exact .inl (.undirty i hundirties hpre hundirtied)

end

variable {priv : Private}

/-- The counters and the transactions of an `fd` are what they can be. -/
structure Fd.Ok {n : Nat} (fd : Fd n) : Prop where
  ctx : fd.ctx.Ok
  txns : ∀ x ∈ fd.txns, x.Ok

/-- A transaction starts with a mark that it inherits, or sends its own to more than one brick. -/
lemma preOp_cases {lockedNodes : Subvols priv.childCount} {preOpCompat : Bool}
    {ctx ctx' : FdCtx priv.childCount} {l : Local priv.childCount}
    (hctx : ctx.Ok) (h : afrChangelogPreOp priv lockedNodes preOpCompat ctx = some (ctx', l)) :
    l.uninheritDone = false ∧ l.noUninherit = false ∧ 0 < afrCount l.preOp ∧
      (0 < ctx.onDisk ∧ ctx' = { ctx with inherited := ctx.inherited + 1 } ∧
          l.inherited ∧ l.dirtied = false ∧ (l.preOp = fun _ => true) ∨
        ctx' = ctx ∧ l.inherited = false ∧ (l.dirtied ↔ 1 < afrCount l.preOp)) := by
  simp only [afrChangelogPreOp, afrChangelogPreOpInherit] at h
  obtain ⟨hused, h⟩ := ite_none_left_eq_some.mp h
  obtain ⟨-, h⟩ := ite_none_left_eq_some.mp h
  have hpos := Nat.pos_of_ne_zero hused
  by_cases hinherit : ctx.onDisk = 0 ∨ lockedNodes ≠ ctx.preOpDone
  · split at h
    · cases h
      exact ⟨rfl, rfl, hpos, .inr ⟨rfl, rfl, decide_eq_true_iff⟩⟩
    · next hdisk =>
      rw [if_pos (hinherit.resolve_left hdisk)] at h
      cases h
      exact ⟨rfl, rfl, hpos, .inr ⟨rfl, rfl, decide_eq_true_iff⟩⟩
  · obtain ⟨hdisk, hsame⟩ := not_or.mp hinherit
    rw [if_neg hdisk, if_neg hsame] at h
    cases h
    have hdisk' := Nat.pos_of_ne_zero hdisk
    refine ⟨rfl, rfl, hpos, .inl ⟨hdisk', rfl, rfl, rfl, ?_⟩⟩
    exact (of_not_not hsame).trans (hctx.some hdisk').1

/-- A new transaction is in a state it can be in. -/
lemma new_ok {lockedNodes : Subvols priv.childCount} {preOpCompat : Bool}
    {ctx ctx' : FdCtx priv.childCount} {l : Local priv.childCount}
    (hctx : ctx.Ok) (h : afrChangelogPreOp priv lockedNodes preOpCompat ctx = some (ctx', l)) :
    ctx'.Ok ∧ (Txn.new l).Ok := by
  obtain ⟨hdone, hno, hused, hcases⟩ := preOp_cases hctx h
  have hphase : (Txn.new l).phase = .marking ∧ l.preOpCompat = true ∨
      (Txn.new l).phase = .operating := by
    simp only [Txn.new]
    split
    · next hmarking => exact .inl ⟨rfl, hmarking.1⟩
    · exact .inr rfl
  refine ⟨?_, hno, hused, ?_, ?_, ?_, ?_, ?_, nofun, nofun, ?_, nofun, nofun, nofun, nofun, ?_⟩
  · rcases hcases with ⟨hdisk, rfl, -⟩ | ⟨rfl, -⟩
    · exact ⟨fun h => absurd h (ne_of_gt hdisk), hctx.some⟩
    · exact hctx
  · intro hdirtied hinherited
    rcases hcases with ⟨-, -, hinh, -⟩ | ⟨-, -, hmany⟩
    · exact absurd (hinherited.symm.trans hinh) nofun
    · exact Nat.not_lt.mp fun hlt => absurd (hdirtied.symm.trans (hmany.mpr hlt)) nofun
  · intro hdirtied
    rcases hcases with ⟨-, -, -, hnot, -⟩ | ⟨-, -, hmany⟩
    · exact absurd (hnot.symm.trans hdirtied) nofun
    · exact hmany.mp hdirtied
  · intro hinherited
    rcases hcases with ⟨-, -, -, hnot, hall⟩ | ⟨-, hinh, -⟩
    · exact ⟨hnot, hall⟩
    · exact absurd (hinh.symm.trans hinherited) nofun
  · refine iff_of_true ?_ hdone
    rcases hphase with ⟨h, -⟩ | h
    · exact .inl h
    · exact .inr (.inl h)
  · intro hmarking
    rcases hphase with ⟨-, h⟩ | h
    · exact h
    · exact absurd (h.symm.trans hmarking) nofun
  · exact fun h => absurd (hdone.symm.trans h) nofun
  · intro hposted
    rcases hphase with ⟨h, -⟩ | h <;> exact absurd (h.symm.trans hposted) nofun

/-- What every move keeps, and every new transaction, an event keeps. -/
lemma fdStep_inv {I : Fd priv.childCount → Prop}
    (hmove : ∀ (fd : Fd priv.childCount) t x ctx y, fd.Ok → I fd → fd.txns[t]? = some x →
      Moves fd.ctx x ctx y → I ⟨ctx, fd.txns.set t y⟩)
    (hstart : ∀ (fd : Fd priv.childCount) lockedNodes preOpCompat ctx l, fd.Ok → I fd →
      afrChangelogPreOp priv lockedNodes preOpCompat fd.ctx = some (ctx, l) →
      I ⟨ctx, fd.txns ++ [Txn.new l]⟩)
    (e : FdEvent priv.childCount) (fd : Fd priv.childCount) (h : fd.Ok ∧ I fd) :
    (fdStep priv e fd).Ok ∧ I (fdStep priv e fd) := by
  have hmove' : ∀ (fd : Fd priv.childCount) t x ctx y, fd.Ok ∧ I fd → fd.txns[t]? = some x →
      Moves fd.ctx x ctx y → Fd.Ok ⟨ctx, fd.txns.set t y⟩ ∧ I ⟨ctx, fd.txns.set t y⟩ := by
    intro fd t x ctx y ⟨hok, hI⟩ hx hm
    have hxok := hok.txns x (mem_of_getElem? hx)
    refine ⟨⟨hm.ctx_ok hok.ctx hxok, fun z hz => ?_⟩, hmove fd t x ctx y hok hI hx hm⟩
    rcases mem_or_eq_of_mem_set hz with hz | rfl
    · exact hok.txns z hz
    · exact hm.txn_ok hok.ctx hxok
  obtain ⟨hok, hI⟩ := h
  cases e with
  | start lockedNodes preOpCompat =>
    simp only [fdStep]
    split
    · next ctx l hl =>
      obtain ⟨hctx, hnew⟩ := new_ok hok.ctx hl
      refine ⟨⟨hctx, fun z hz => ?_⟩, hstart fd lockedNodes preOpCompat ctx l hok hI hl⟩
      rcases mem_append.mp hz with hz | hz
      · exact hok.txns z hz
      · rw [mem_singleton.mp hz]
        exact hnew
    · exact ⟨hok, hI⟩
  | on t e =>
    simp only [fdStep]
    split
    · next x hx =>
      split
      · next ctx y hy =>
        rcases act_steps hok.ctx (hok.txns x (mem_of_getElem? hx)) hy with
          hm | ⟨ctx₁, z, hm₁, hm₂⟩
        · exact hmove' fd t x ctx y ⟨hok, hI⟩ hx hm
        -- The second move finds what the first one has left.
        have hlt := (List.getElem?_eq_some_iff.mp hx).1
        have hfirst := hmove' fd t x ctx₁ z ⟨hok, hI⟩ hx hm₁
        have hsecond := hmove' ⟨ctx₁, fd.txns.set t z⟩ t z ctx y hfirst
          (getElem?_set_self hlt) hm₂
        rwa [set_set] at hsecond
      · exact ⟨hok, hI⟩
    · exact ⟨hok, hI⟩

lemma newFd_ok (n : Nat) : (newFd n).Ok :=
  ⟨⟨fun _ => ⟨rfl, rfl⟩, fun h => absurd h (lt_irrefl 0)⟩, fun _ hx => absurd hx not_mem_nil⟩

end TagItGluster.Afr
