import TagItGluster.Wb.Steps

/-!
# Writes in progress

A request is put into the list `wip` only if it does not overlap any request that is there, and its
range grows only while it is in `todo`. So no byte is in the ranges of two writes in progress.
-/

namespace TagItGluster.Wb

open Base Function

/-- The byte is in the range of the request, which has no end if its size is zero. -/
def Request.InRange (r : Request) (b : Nat) : Prop :=
  r.off ≤ b ∧ (r.size = 0 ∨ b < r.off + r.size)

instance (r : Request) (b : Nat) : Decidable (r.InRange b) :=
  inferInstanceAs (Decidable (_ ∧ _))

lemma wbRequestsOverlap_iff {r₁ r₂ : Request} :
    wbRequestsOverlap r₁ r₂ ↔ ∃ b, r₁.InRange b ∧ r₂.InRange b := by
  simp only [wbRequestsOverlap, Request.reaches, Bool.and_eq_true, Bool.or_eq_true,
    decide_eq_true_eq, Request.InRange]
  constructor
  · rintro ⟨h₁, h₂⟩
    exact ⟨max r₁.off r₂.off, by omega, by omega⟩
  · rintro ⟨b, h₁, h₂⟩
    exact ⟨by omega, by omega⟩

/-- The writes in progress are not in `todo`, and do not overlap. -/
structure Inode.Exclusive (s : Inode) : Prop where
  lt : ∀ i, (s.req i).wip = true → i < s.count
  todo : ∀ i, (s.req i).todo = true → (s.req i).wip = false
  wip : ∀ i j, i ≠ j → (s.req i).wip = true → (s.req j).wip = true →
    wbRequestsOverlap (s.req i) (s.req j) = false

namespace Inode.Exclusive

variable {s s' : Inode}

/-- No request comes into progress, or changes its range there. -/
lemma frame (h : s.Exclusive) (hcount : s.count ≤ s'.count)
    (hwip : ∀ i, (s'.req i).wip → (s.req i).wip ∧
      (s'.req i).off = (s.req i).off ∧ (s'.req i).size = (s.req i).size)
    (htodo : ∀ i, (s'.req i).todo → (s'.req i).wip = false) : s'.Exclusive := by
  refine ⟨fun i hi => lt_of_lt_of_le (h.lt i (hwip i hi).1) hcount, htodo, fun i j hne hi hj => ?_⟩
  obtain ⟨hi, hoffi, hsizei⟩ := hwip i hi
  obtain ⟨hj, hoffj, hsizej⟩ := hwip j hj
  have hdisjoint := h.wip i j hne hi hj
  simp only [wbRequestsOverlap, Request.reaches, hoffi, hsizei, hoffj, hsizej] at hdisjoint ⊢
  exact hdisjoint

/-- One request is changed, which does not come into progress. -/
lemma update (h : s.Exclusive) {i : Nat} {r : Request} (hcount : s.count ≤ s'.count)
    (hreq : s'.req = Function.update s.req i r)
    (hwip : r.wip → (s.req i).wip ∧ r.off = (s.req i).off ∧ r.size = (s.req i).size)
    (htodo : r.todo → r.wip = false) : s'.Exclusive := by
  refine h.frame hcount (fun j => ?_) fun j => ?_
  · rw [hreq, update_apply]
    split
    · next heq => rwa [heq]
    · exact fun hj => ⟨hj, rfl, rfl⟩
  · rw [hreq, update_apply]
    split
    · exact htodo
    · exact h.todo j

/-- A write comes into progress that does not overlap any other. -/
lemma pick (h : s.Exclusive) {i : Nat} (hi : i < s.count) (htodo : (s.req i).todo)
    (hwip : wbWipHasConflict s i = false) : (s.set i (s.req i).pick).Exclusive := by
  -- What is in progress then: what was before, and a write.
  have hother : ∀ j, j ≠ i → (s.set i (s.req i).pick).req j = s.req j := fun j hj =>
    update_of_ne hj ..
  have hself : (s.set i (s.req i).pick).req i = (s.req i).pick := update_self ..
  have hfree : ∀ j, j ≠ i → (s.req j).wip = true → (s.req i).pick.wip = true →
      wbRequestsOverlap (s.req j) (s.req i).pick = false := by
    intro j hne hj hi
    have hwrite : (s.req i).fop = .write := by simpa [Request.pick, h.todo i htodo] using hi
    rw [wbWipHasConflict, decide_eq_true hwrite, Bool.true_and, List.any_eq_false] at hwip
    have hdisjoint : wbRequestsOverlap (s.req j) (s.req i) = false := by
      simpa [hj, hne] using hwip j (List.mem_range.mpr (h.lt j hj))
    exact hdisjoint
  refine ⟨fun j hj => ?_, fun j hj => ?_, fun j k hne hj hk => ?_⟩
  · by_cases hji : j = i
    · exact hji ▸ hi
    · rw [hother j hji] at hj
      exact h.lt j hj
  · by_cases hji : j = i
    · rw [hji, hself] at hj
      cases hj
    · rw [hother j hji] at hj ⊢
      exact h.todo j hj
  · by_cases hji : j = i
    · subst hji
      rw [hself] at hj ⊢
      rw [hother k (Ne.symm hne)] at hk ⊢
      rw [wbRequestsOverlap, Bool.and_comm]
      exact hfree k (Ne.symm hne) hk hj
    · rw [hother j hji] at hj ⊢
      by_cases hki : k = i
      · subst hki
        rw [hself] at hk ⊢
        exact hfree j hji hj hk
      · rw [hother k hki] at hk ⊢
        exact h.wip j k hne hj hk

end Inode.Exclusive

private lemma unref_wip {r : Request} (htodo : r.todo → r.wip = false) :
    (r.unref.wip → r.wip ∧ r.unref.off = r.off ∧ r.unref.size = r.size) ∧
      (r.unref.todo → r.unref.wip = false) := by
  unfold Request.unref
  split_ifs
  · exact ⟨fun h => ⟨h, rfl, rfl⟩, htodo⟩
  · exact ⟨nofun, nofun⟩
  · exact ⟨fun h => ⟨h, rfl, rfl⟩, htodo⟩

private lemma Move.exclusive {conf : Conf} {s s' : Inode} {t t' : Refs}
    (hmove : Move conf (s, t) (s', t')) (h : s.Exclusive) : s'.Exclusive := by
  cases hmove with
  | resize | wind | settle | unload | ack => exact ⟨h.lt, h.todo, h.wip⟩
  | enqueue hr =>
    refine h.update (Nat.le_succ _) (wbEnqueueCommon_req ..) (fun hwip => ?_) fun _ => hr.wip
    exact absurd (hr.wip.symm.trans hwip) (by decide)
  | @go _ _ i hi =>
    exact h.update (le_refl _) rfl (fun hwip => ⟨hwip, rfl, rfl⟩) (h.todo i)
  | @collapse _ _ holder req hlt hreq hholder htodo hoffset =>
    have hne : req ≠ holder := ne_of_gt hlt
    have hholding : (s.set holder ((s.req holder).collapse (s.req req).writeSize)).Exclusive :=
      h.update (le_refl _) rfl
        (fun hwip => absurd ((h.todo holder hholder.1).symm.trans hwip) (by decide)) (h.todo holder)
    refine hholding.update (le_refl _) rfl (fun hwip => ?_) nofun
    rw [Inode.set_req, update_of_ne hne]
    exact ⟨hwip, rfl, rfl⟩
  | pick hi htodo hliability hwip => exact h.pick hi htodo hwip
  | @unwind _ _ i hi hlie =>
    refine h.update (le_refl _) rfl ?_ ?_
    · unfold Request.unwind
      split <;> exact fun hwip => ⟨hwip, rfl, rfl⟩
    · unfold Request.unwind
      split <;> exact h.todo i
  | @fulfill _ _ i totalSize hdue hsettled =>
    have hunref := unref_wip (r := { s.req i with fulfilled := true }) (h.todo i)
    exact h.update (le_refl _) (wbFulfillRequest_req ..) hunref.1 hunref.2
  | @unref _ _ i hdue =>
    exact h.update (le_refl _) rfl (unref_wip (h.todo i)).1 (unref_wip (h.todo i)).2
  | error fd opErrno =>
    refine h.frame (le_refl _) (fun i => ?_) fun i => ?_
    · unfold wbFulfillErr
      dsimp only
      split <;> exact fun hwip => ⟨hwip, rfl, rfl⟩
    · unfold wbFulfillErr
      dsimp only
      split <;> exact h.todo i

/-- In every run, no byte is in the ranges of two writes in progress. -/
theorem writes_in_progress_disjoint (conf : Conf) (es : List Event) :
    let s := (runAll (wbStep conf) es (newInode conf)).state.inode
    ∀ i j, i ≠ j → (s.req i).wip = true → (s.req j).wip = true →
      ∀ b, ¬((s.req i).InRange b ∧ (s.req j).InRange b) := by
  intro s i j hne hi hj b hb
  have hexclusive : s.Exclusive := run_keeps (fun x => x.1.Exclusive)
    (fun _ _ hmove h => hmove.exclusive h) es (newInode_running conf) ⟨nofun, nofun, nofun⟩
  have hdisjoint := hexclusive.wip i j hne hi hj
  rw [wbRequestsOverlap_iff.mpr ⟨b, hb⟩] at hdisjoint
  cases hdisjoint

/-- A write that has been acknowledged and a synchronous one, next to each other. -/
theorem writes_in_progress_disjoint_two :
    let s := (runAll (wbStep ⟨131072, 1048576, true, false, true, 131072⟩)
      (.setSize 100 :: callOn .write 0 4 false :: steps 0 4 ++ callOn .write 4 4 true :: steps 1 4)
      (newInode ⟨131072, 1048576, true, false, true, 131072⟩)).state.inode
    (s.req 0).wip = true ∧ (s.req 1).wip = true ∧
      ∀ b, ¬((s.req 0).InRange b ∧ (s.req 1).InRange b) :=
  ⟨by decide, by decide, writes_in_progress_disjoint _ _ 0 1 (by decide) (by decide) (by decide)⟩

end TagItGluster.Wb
