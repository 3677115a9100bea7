import TagItGluster.Ec.Combine

/-!
# Rounds of an operation

A round begins with the bricks of the mask of an operation remaining. They are sent the operation
one by one or many at once, and each brick that was sent it answers once. The bricks that have
answered are never sent it again, so no brick is in two groups of the list of answers. Line numbers:
`xlators/cluster/ec/src/ec-common.c`.
-/

namespace TagItGluster.Ec

open Base List Bool

/-- An operation during a round, with the bricks that have not answered yet and the answers so
far. -/
structure Round where
  nodes : Nat
  mask : Nat
  remaining : Nat
  received : Nat
  minimum : Int
  first : Nat
  cbkList : List Cbk
  inFlight : List Nat
  answers : List Answer

/-- `ec_dispatch_start` (533) and the end of `ec_child_select` (385), for bricks within
`ec->node_mask`. -/
def startRound (nodes mask : Nat) (minimum : Int) (first : Nat) : Round where
  nodes := nodes
  mask := mask % 2 ^ nodes
  remaining := mask % 2 ^ nodes
  received := 0
  minimum := minimum
  first := first
  cbkList := []
  inFlight := []
  answers := []

/-- `ec_child_valid` (23). -/
def ecChildValid (r : Round) (idx : Nat) : Bool := idx < r.nodes && r.remaining.testBit idx

/-- The brick behind another one, in a circle. -/
def nextIdx (r : Round) (idx : Nat) : Nat := if idx + 1 ≥ r.nodes then 0 else idx + 1

/-- `ec_child_next` (28), for at most as many steps as are given: the bricks are gone through in a
circle until the first one is reached again. -/
def ecChildNext (r : Round) : Nat → Nat → Option Nat
  | 0, _ => none
  | fuel + 1, idx =>
    if ecChildValid r idx then some idx
    else if nextIdx r idx = r.first then none
    else ecChildNext r fuel (nextIdx r idx)

/-- `ec_dispatch_mask` (503). -/
def ecDispatchMask (mask : Nat) (r : Round) : Round :=
  { r with
    remaining := r.remaining ^^^ mask
    inFlight := r.inFlight ++ (List.range r.nodes).filter mask.testBit }

/-- `ec_dispatch_next` (476). -/
def ecDispatchNext (idx : Nat) (r : Round) : Round :=
  match ecChildNext r (r.nodes + 1) idx with
  | some idx => { r with
      remaining := r.remaining ^^^ 1 <<< idx
      inFlight := r.inFlight ++ [idx] }
  | none => r

/-- The locked section of `ec_combine`: how many more answers are needed, and the operation
afterwards. If any are, `ec_dispatch_next` follows. -/
def ecCombine (fop : Fop) (ans : Answer) (r : Round) : Int × Round :=
  let received := r.received ||| 1 <<< ans.idx
  let cbkList := combineInto fop (newCbk ans) r.cbkList
  let needed :=
    if r.mask ^^^ r.remaining = received then
      r.minimum - (cbkList.head?.elim 0 Cbk.count : Nat)
    else 0
  (needed, { r with
    received := received
    cbkList := cbkList
    inFlight := r.inFlight.erase ans.idx
    answers := r.answers ++ [ans] })

/-- What happens during a round. -/
inductive RoundEvent where
  | dispatchMask (mask : Nat)
  | dispatchNext (idx : Nat)
  | answer (ans : Answer)

/-- One event. Masks that are dispatched are taken from the remaining bricks, and only a brick that
was sent the operation answers it. -/
def roundStep (fop : Fop) : RoundEvent → Round → Round
  | .dispatchMask mask, r => if mask &&& r.remaining = mask then ecDispatchMask mask r else r
  | .dispatchNext idx, r => ecDispatchNext idx r
  | .answer ans, r => if ans.idx ∈ r.inFlight then (ecCombine fop ans r).2 else r

/-- No brick is both remaining and sent the operation, or sent it and done, and the list is that of
the answers. -/
structure RoundInv (fop : Fop) (r : Round) : Prop where
  list : r.cbkList = answerList fop r.answers
  once : (r.inFlight ++ r.answers.map Answer.idx).Nodup
  sent : ∀ i ∈ r.inFlight ++ r.answers.map Answer.idx, i < r.nodes ∧ r.remaining.testBit i = false
  within : ∀ i, r.remaining.testBit i = true → i < r.nodes

variable {fop : Fop} {r : Round}

private lemma roundInv_start (fop : Fop) (nodes mask : Nat) (minimum : Int) (first : Nat) :
    RoundInv fop (startRound nodes mask minimum first) := by
  refine ⟨rfl, nodup_nil, forall_mem_nil _, fun i hi => ?_⟩
  rw [startRound, Nat.testBit_mod_two_pow, and_eq_true] at hi
  exact of_decide_eq_true hi.1

private lemma ecChildNext_some {fuel idx i : Nat} (h : ecChildNext r fuel idx = some i) :
    ecChildValid r i = true := by
  induction fuel generalizing idx with
  | zero => cases h
  | succ fuel ih =>
    unfold ecChildNext at h
    split at h
    · next hvalid =>
      cases h
      exact hvalid
    · split at h
      · cases h
      · exact ih h

/-- Bricks that remain are sent the operation. -/
lemma RoundInv.dispatch (h : RoundInv fop r) {mask : Nat} {bricks : List Nat}
    (hnd : bricks.Nodup) (hmem : ∀ i ∈ bricks, ecChildValid r i)
    (hmask : ∀ i, mask.testBit i ↔ i ∈ bricks) :
    RoundInv fop
      { r with remaining := r.remaining ^^^ mask, inFlight := r.inFlight ++ bricks } := by
  have hvalid : ∀ i ∈ bricks, i < r.nodes ∧ r.remaining.testBit i := by
    intro i hi
    have := hmem i hi
    rw [ecChildValid, and_eq_true, decide_eq_true_eq] at this
    exact this
  have hsent : ∀ i ∈ bricks, (r.remaining ^^^ mask).testBit i = false := by
    intro i hi
    rw [Nat.testBit_xor, (hvalid i hi).2, (hmask i).mpr hi]
    rfl
  have hother : ∀ i, i ∉ bricks → (r.remaining ^^^ mask).testBit i = r.remaining.testBit i := by
    intro i hi
    rw [Nat.testBit_xor, eq_false_iff.mpr (fun hbit => hi ((hmask i).mp hbit)), Bool.xor_false]
  -- A brick that was sent the operation before does not remain.
  have hfresh : ∀ i ∈ r.inFlight ++ r.answers.map Answer.idx, i ∉ bricks := by
    intro i hi hib
    have hbit := (hvalid i hib).2
    rw [(h.sent i hi).2] at hbit
    cases hbit
  have hperm : (r.inFlight ++ bricks ++ r.answers.map Answer.idx).Perm
      (bricks ++ (r.inFlight ++ r.answers.map Answer.idx)) := by
    rw [append_assoc]
    exact perm_append_comm_assoc _ _ _
  refine ⟨h.list, ?_, fun i hi => ?_, fun i hi => ?_⟩
  · exact hperm.nodup_iff.mpr (nodup_append'.mpr ⟨hnd, h.once, fun i hib hi => hfresh i hi hib⟩)
  · rcases mem_append.mp (hperm.mem_iff.mp hi) with hib | hi
    · exact ⟨(hvalid i hib).1, hsent i hib⟩
    · rw [hother i (hfresh i hi)]
      exact h.sent i hi
  · by_cases hib : i ∈ bricks
    · exact (hvalid i hib).1
    · rw [hother i hib] at hi
      exact h.within i hi

lemma RoundInv.answer (h : RoundInv fop r) {ans : Answer} (hmem : ans.idx ∈ r.inFlight) :
    RoundInv fop (ecCombine fop ans r).2 := by
  have hperm : (r.inFlight.erase ans.idx ++ (r.answers ++ [ans]).map Answer.idx).Perm
      (r.inFlight ++ r.answers.map Answer.idx) := by
    rw [map_append, ← append_assoc]
    refine (perm_append_singleton _ _).trans ?_
    exact (perm_cons_erase hmem).symm.append_right _
  refine ⟨?_, hperm.nodup_iff.mpr h.once, fun i hi => h.sent i (hperm.mem_iff.mp hi), h.within⟩
  change combineInto fop (newCbk ans) r.cbkList = answerList fop (r.answers ++ [ans])
  rw [h.list, answerList, answerList, foldl_append]
  rfl

private lemma roundInv_step (fop : Fop) (e : RoundEvent) (r : Round) (h : RoundInv fop r) :
    RoundInv fop (roundStep fop e r) := by
  cases e with
  | dispatchMask mask =>
    simp only [roundStep]
    split
    · next hmask =>
      have hbit : ∀ i, mask.testBit i → r.remaining.testBit i := by
        intro i hi
        rw [← hmask, Nat.testBit_and, and_eq_true] at hi
        exact hi.2
      refine h.dispatch (nodup_range.filter _) (fun i hi => ?_) (fun i => ?_)
      · obtain ⟨hlt, hi⟩ := mem_filter.mp hi
        rw [ecChildValid, hbit i hi, Bool.and_true]
        exact decide_eq_true (mem_range.mp hlt)
      · rw [mem_filter, mem_range]
        exact ⟨fun hi => ⟨h.within i (hbit i hi), hi⟩, And.right⟩
    · exact h
  | dispatchNext idx =>
    change RoundInv fop (ecDispatchNext idx r)
    unfold ecDispatchNext
    split
    · next i hi =>
      refine h.dispatch (nodup_singleton i) ?_ (fun j => ?_)
      · exact forall_mem_singleton.mpr (ecChildNext_some hi)
      · rw [Nat.one_shiftLeft, Nat.testBit_two_pow, decide_eq_true_eq, mem_singleton, eq_comm]
    · exact h
  | answer ans =>
    simp only [roundStep]
    split
    · next hmem => exact h.answer hmem
    · exact h

/-- `ec_complete` (339), with the mask of the bricks that are healing: the answer that is chosen
when no brick is left to answer. Only the first group is looked at. -/
def ecComplete (healing : Nat) (r : Round) : Option Cbk :=
  if r.inFlight = [] then
    r.cbkList.head?.filter fun cbk =>
      r.minimum ≤ (cbk.count : Int) - bricksIn r.nodes (cbk.mask &&& healing)
  else none

/-- The number of bricks in a group that are not healing. -/
def Cbk.goodBricks (nodes healing : Nat) (c : Cbk) : Nat :=
  (List.range nodes).countP fun i => c.mask.testBit i && !healing.testBit i

private lemma goodBricks_add (nodes healing : Nat) (c : Cbk) :
    c.goodBricks nodes healing + bricksIn nodes (c.mask &&& healing) = bricksIn nodes c.mask := by
  have hand : (c.mask &&& healing).testBit = fun i => c.mask.testBit i && healing.testBit i :=
    funext fun i => Nat.testBit_and _ _ i
  rw [Cbk.goodBricks, bricksIn, bricksIn, hand, add_comm,
    countP_eq_countP_filter_add _ c.mask.testBit healing.testBit, countP_filter, countP_filter]

private lemma bricksIn_add_le {nodes a b : Nat} (h : a &&& b = 0) :
    bricksIn nodes a + bricksIn nodes b ≤ nodes := by
  have hlen := length_eq_countP_add_countP (l := List.range nodes) a.testBit
  rw [length_range] at hlen
  have hle : bricksIn nodes b ≤ (List.range nodes).countP (fun i => ¬ a.testBit i) := by
    refine countP_mono_left fun i _ hb => ?_
    have hand := congrArg (Nat.testBit · i) h
    simpa [hb] using hand
  unfold bricksIn at hle ⊢
  omega

end TagItGluster.Ec
