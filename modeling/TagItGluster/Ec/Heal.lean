import Mathlib.Data.Finset.Basic
import TagItGluster.Base.Machine

/-!
# Healing the data of dispersed files

A file is rebuilt block by block: the block is locked, read from the sources and written to the
sinks, and the answers change the masks of good and bad bricks. In the end the versions of the sinks
are raised. A sink on which a write has failed is only taken out of the mask of the rebuild, and not
out of the sinks; a block that is not locked or not read does not fail the heal. So a version can be
raised on a brick that misses blocks. Line numbers: `xlators/cluster/ec/src/ec-heal.c`.
-/

namespace TagItGluster.Ec

open Base List Function

/-- A set of bricks. -/
abbrev Mask := Finset Nat

/-- A group of answers that agree. -/
structure HealCbk where
  mask : Mask
  opRet : Int

/-- The first result of `ec_heal_check` (87): the bricks that have failed. -/
def healBad : List HealCbk → Mask
  | [] => ∅
  | cbk :: cbks => if 0 ≤ cbk.opRet then healBad cbks else cbk.mask ∪ healBad cbks

/-- The second result of `ec_heal_check`: the bricks that have not. -/
def healGood : List HealCbk → Mask
  | [] => ∅
  | cbk :: cbks => if 0 ≤ cbk.opRet then cbk.mask ∪ healGood cbks else healGood cbks

/-- What happens in the heal of a block: whether it gets its lock, the answers to the read with the
result of the read, and the answers to the write. -/
structure BlockReplies where
  locked : Bool
  readCbks : List HealCbk
  readRet : Int
  writeCbks : List HealCbk

/-- The rebuild of a file, with the sinks that each block has been written to. -/
structure Rebuild where
  good : Mask
  bad : Mask
  done : Bool
  offset : Nat
  ret : Int
  written : Nat → Mask

/-- The error of `ec_sync_heal_block`. -/
def enotconn : Int := 107

/-- `ec_heal_readv_cbk` (235) and `ec_heal_writev_cbk` (216). -/
def healReadvCbk (r : BlockReplies) (s : Rebuild) : Rebuild :=
  let s := { s with good := s.good \ healBad r.readCbks }
  if 0 < r.readRet then
    { s with
      bad := s.bad \ healBad r.writeCbks
      written := update s.written s.offset (s.bad ∩ healGood r.writeCbks) }
  else { s with done := true }

/-- `ec_manager_heal_block` (1682) and `ec_heal_data_block` (269). -/
def healDataBlock (r : BlockReplies) (s : Rebuild) : Rebuild :=
  if r.locked ∧ s.good ≠ ∅ ∧ s.bad ≠ ∅ then healReadvCbk r s else s

/-- `ec_sync_heal_block` (1784). -/
def syncHealBlock (r : BlockReplies) (s : Rebuild) : Rebuild :=
  let s := healDataBlock r s
  { s with ret := if s.bad = ∅ then -enotconn else 0 }

/-- The loop of `ec_rebuild_data` goes on. -/
def Rebuild.Running (size : Nat) (s : Rebuild) : Prop :=
  s.offset < size ∧ s.done = false ∧ 0 ≤ s.ret

instance (size : Nat) (s : Rebuild) : Decidable (s.Running size) :=
  inferInstanceAs (Decidable (_ ∧ _ ∧ _))

/-- A round of the loop of `ec_rebuild_data`. -/
def rebuildStep (size blockSize : Nat) (r : BlockReplies) (s : Rebuild) : Rebuild :=
  if s.Running size then
    let s := syncHealBlock r s
    if s.ret < 0 then s else { s with offset := s.offset + blockSize }
  else s

/-- The start of `ec_rebuild_data`. -/
def rebuildInit (sources healedSinks : Mask) : Rebuild where
  good := sources
  bad := healedSinks
  done := false
  offset := 0
  ret := 0
  written _ := ∅

/-- The replies to each round that the loop can make. -/
def blockRounds (size blockSize : Nat) (replies : Nat → BlockReplies) : List BlockReplies :=
  (List.range ((size + blockSize - 1) / blockSize)).map replies

/-- `ec_rebuild_data` (1795). -/
def rebuildData (size blockSize : Nat) (sources healedSinks : Mask)
    (replies : Nat → BlockReplies) : Rebuild :=
  runAll (rebuildStep size blockSize) (blockRounds size blockSize replies)
    (rebuildInit sources healedSinks)

/-- What is known before the rebuild: the bricks as `__ec_heal_data_prepare` (1513) finds them,
those that are marked already, and on which bricks the mark and the truncation have not failed. -/
structure HealStart where
  sources : Mask
  sinks : Mask
  trim : Mask
  marked : Mask
  markOutput : Mask
  trimOutput : Mask

/-- `__ec_heal_mark_sinks` (1615). -/
def healMarkSinks (h : HealStart) : Option Mask :=
  let mark := h.sinks \ h.marked
  if mark = ∅ then some h.sinks
  else
    let healedSinks := h.sinks \ (mark \ h.markOutput)
    if healedSinks = ∅ then none else some healedSinks

/-- `__ec_heal_trim_sinks` (1842). -/
def healTrimSinks (h : HealStart) (healedSinks : Mask) : Option Mask :=
  if h.trim = ∅ then some healedSinks
  else
    let healedSinks := healedSinks \ (h.trim \ h.trimOutput)
    if healedSinks = ∅ then none else some healedSinks

/-- What happens in `ec_restore_time_and_adjust_versions`: whether enough bricks are locked and
prepared, on which the times are set, and the results of the updates of the versions. -/
structure HealEnd where
  locked : Bool
  prepared : Bool
  output : Mask
  xattrop : Nat → Int

/-- The loop over the sinks in `__ec_fd_data_adjust_versions` (1925), with the bricks whose version
has been raised. -/
def adjustVersions (healedSinks : Mask) (xattrop : Nat → Int) : List Nat → Mask
  | [] => ∅
  | i :: nodes =>
    if i ∈ healedSinks then
      if xattrop i < 0 then ∅ else insert i (adjustVersions healedSinks xattrop nodes)
    else adjustVersions healedSinks xattrop nodes

/-- `ec_restore_time_and_adjust_versions` (1986). -/
def restoreTimeAndAdjustVersions (nodes : Nat) (healedSinks : Mask) (e : HealEnd) : Mask :=
  if e.locked ∧ e.prepared then
    let healedSinks := healedSinks ∩ e.output
    if healedSinks = ∅ then ∅ else adjustVersions healedSinks e.xattrop (List.range nodes)
  else ∅

/-- `__ec_heal_data` (2067), with the bricks whose version has been raised. -/
def healData (nodes size blockSize : Nat) (h : HealStart) (replies : Nat → BlockReplies)
    (e : HealEnd) : Mask :=
  match (healMarkSinks h).bind (healTrimSinks h) with
  | none => ∅
  | some healedSinks =>
    if (rebuildData size blockSize h.sources healedSinks replies).ret < 0 then ∅
    else restoreTimeAndAdjustVersions nodes healedSinks e

section

variable {size blockSize i : Nat} {s : Rebuild} {r : BlockReplies}

private lemma offset_healDataBlock (r : BlockReplies) (s : Rebuild) :
    (healDataBlock r s).offset = s.offset := by
  unfold healDataBlock healReadvCbk
  split
  · split
    · rfl
    · rfl
  · rfl

/-- A round that goes on has moved the offset by a block. -/
lemma offset_rebuildStep (h : (rebuildStep size blockSize r s).Running size) :
    s.Running size ∧ (rebuildStep size blockSize r s).offset = s.offset + blockSize := by
  unfold rebuildStep at h ⊢
  split at h
  · next hrun =>
    refine ⟨hrun, ?_⟩
    rw [if_pos hrun]
    dsimp only at h ⊢
    split at h
    · next hneg => exact absurd h.2.2 (not_le.mpr hneg)
    · next hret =>
      rw [if_neg hret]
      exact congrArg (· + blockSize) (offset_healDataBlock r s)
  · next hrun => exact absurd h hrun

/-- As long as the loop goes on, the offset counts its rounds. -/
lemma offset_runAll (rs : List BlockReplies)
    (h : (runAll (rebuildStep size blockSize) rs s).Running size) :
    (runAll (rebuildStep size blockSize) rs s).offset = s.offset + rs.length * blockSize := by
  induction rs using List.reverseRecOn with
  | nil => simp
  | append_singleton rs r ih =>
    rw [runAll_append, runAll_cons, runAll_nil] at h ⊢
    obtain ⟨hrun, hoffset⟩ := offset_rebuildStep h
    rw [hoffset, ih hrun, length_append, length_singleton, Nat.add_mul, Nat.one_mul, Nat.add_assoc]

/-- The loop has ended after its rounds. -/
lemma not_running_rebuildData (size : Nat) (hpos : 0 < blockSize) (sources healedSinks : Mask)
    (replies : Nat → BlockReplies) :
    ¬ (rebuildData size blockSize sources healedSinks replies).Running size := by
  intro h
  have hoffset := offset_runAll _ h
  have hlt := h.1
  have hlen : (blockRounds size blockSize replies).length = (size + blockSize - 1) / blockSize := by
    rw [blockRounds, length_map, length_range]
  have hceil := Nat.div_add_mod' (size + blockSize - 1) blockSize
  have hmod := Nat.mod_lt (size + blockSize - 1) hpos
  rw [rebuildData, hoffset, hlen] at hlt
  omega

/-- The block is locked, read and answered by the brick; and if the write has failed on the brick,
it has failed on all sinks that are left. -/
def Heals (size i : Nat) (r : BlockReplies) (s : Rebuild) : Prop :=
  s.Running size → r.locked ∧ s.good ≠ ∅ ∧ 0 < r.readRet ∧
    (i ∈ healBad r.writeCbks ∨ i ∈ healGood r.writeCbks) ∧
    (i ∈ healBad r.writeCbks → s.bad ⊆ healBad r.writeCbks)

instance (size i : Nat) (r : BlockReplies) (s : Rebuild) : Decidable (Heals size i r s) :=
  inferInstanceAs (Decidable (_ → _ ∧ _ ∧ _ ∧ _ ∧ _))

/-- The rebuild has failed, or all blocks up to the offset have been written to the brick. -/
def Reached (blockSize i : Nat) (s : Rebuild) : Prop :=
  s.ret < 0 ∨ s.done = false ∧ blockSize ∣ s.offset ∧ i ∈ s.bad ∧
    ∀ offset < s.offset, blockSize ∣ offset → i ∈ s.written offset

/-- A block that is healed is written to the brick, or there are no sinks left. -/
lemma healDataBlock_eq (h : Heals size i r s) (hrun : s.Running size) (hi : i ∈ s.bad) :
    healDataBlock r s = { s with
        good := s.good \ healBad r.readCbks
        bad := s.bad \ healBad r.writeCbks
        written := update s.written s.offset (s.bad ∩ healGood r.writeCbks) } := by
  obtain ⟨hlocked, hgood, hread, -, -⟩ := h hrun
  unfold healDataBlock healReadvCbk
  rw [if_pos ⟨hlocked, hgood, Finset.ne_empty_of_mem hi⟩, if_pos hread]

private lemma Reached.step (hreached : Reached blockSize i s) (h : Heals size i r s) :
    Reached blockSize i (rebuildStep size blockSize r s) := by
  unfold rebuildStep
  split
  · next hrun =>
    obtain ⟨hdone, hdvd, hi, hwritten⟩ := hreached.resolve_left (not_lt.mpr hrun.2.2)
    obtain ⟨-, -, -, hanswered, hall⟩ := h hrun
    dsimp only [syncHealBlock]
    rw [healDataBlock_eq h hrun hi]
    by_cases hfailed : i ∈ healBad r.writeCbks
    · have herror : -enotconn < 0 := by decide
      rw [Finset.sdiff_eq_empty_iff_subset.mpr (hall hfailed), if_pos rfl]
      exact .inl herror
    have hmem : i ∈ s.bad \ healBad r.writeCbks := Finset.mem_sdiff.mpr ⟨hi, hfailed⟩
    rw [if_neg (Finset.ne_empty_of_mem hmem)]
    refine .inr ⟨hdone, Nat.dvd_add hdvd (Nat.dvd_refl _), hmem, fun offset hlt hoffset => ?_⟩
    rw [if_neg (lt_irrefl 0)] at hlt ⊢
    dsimp only at hlt ⊢
    by_cases hbefore : offset < s.offset
    · rw [update_of_ne hbefore.ne]
      exact hwritten offset hbefore hoffset
    · have hzero : offset - s.offset = 0 :=
        Nat.eq_zero_of_dvd_of_lt (Nat.dvd_sub hoffset hdvd) (by omega)
      obtain rfl : offset = s.offset := by omega
      rw [update_self]
      exact Finset.mem_inter.mpr ⟨hi, hanswered.resolve_left hfailed⟩
  · exact hreached

private lemma mem_adjustVersions {healedSinks : Mask} {xattrop : Nat → Int} {nodes : List Nat}
    (h : i ∈ adjustVersions healedSinks xattrop nodes) : i ∈ healedSinks := by
  induction nodes with
  | nil => exact absurd h (Finset.notMem_empty i)
  | cons j nodes ih =>
    unfold adjustVersions at h
    split at h
    · next hj =>
      split at h
      · exact absurd h (Finset.notMem_empty i)
      · rcases Finset.mem_insert.mp h with rfl | h
        · exact hj
        · exact ih h
    · exact ih h

private lemma mem_restoreTimeAndAdjustVersions {nodes : Nat} {healedSinks : Mask} {e : HealEnd}
    (h : i ∈ restoreTimeAndAdjustVersions nodes healedSinks e) : i ∈ healedSinks := by
  unfold restoreTimeAndAdjustVersions at h
  split at h
  · dsimp only at h
    split at h
    · exact absurd h (Finset.notMem_empty i)
    · exact (Finset.mem_inter.mp (mem_adjustVersions h)).1
  · exact absurd h (Finset.notMem_empty i)

end

/-- The sinks that are left when the rebuild starts. -/
def healedSinks (h : HealStart) : Mask := ((healMarkSinks h).bind (healTrimSinks h)).getD ∅

/-- The version of a brick is raised only if every block has been written to it, where every block
heals the brick or it is not one of the sinks that are left. -/
theorem version_raised_only_if_written {nodes size blockSize i : Nat} (hpos : 0 < blockSize)
    {h : HealStart} {replies : Nat → BlockReplies} {e : HealEnd}
    (hheals : i ∈ healedSinks h → Throughout (rebuildStep size blockSize) (Heals size i)
      (blockRounds size blockSize replies) (rebuildInit h.sources (healedSinks h)))
    (hraised : i ∈ healData nodes size blockSize h replies e) :
    ∀ offset < size, blockSize ∣ offset →
      i ∈ (rebuildData size blockSize h.sources (healedSinks h) replies).written offset := by
  unfold healData at hraised
  split at hraised
  · exact absurd hraised (Finset.notMem_empty i)
  next sinks hsinks =>
  have heq : healedSinks h = sinks := by rw [healedSinks, hsinks, Option.getD_some]
  rw [heq] at hheals ⊢
  split at hraised
  · exact absurd hraised (Finset.notMem_empty i)
  next hret =>
  have hi := mem_restoreTimeAndAdjustVersions hraised
  have hinit : Reached blockSize i (rebuildInit h.sources sinks) :=
    .inr ⟨rfl, Nat.dvd_zero _, hi, fun offset hlt => absurd hlt (Nat.not_lt_zero _)⟩
  have hreached : Reached blockSize i (rebuildData size blockSize h.sources sinks replies) :=
    runAll_inv _ (Reached blockSize i) (fun r s hs hr => hs.step hr) hinit (hheals hi)
  obtain ⟨hdone, -, -, hwritten⟩ := hreached.resolve_left hret
  have hend := not_running_rebuildData size hpos h.sources sinks replies
  intro offset hlt hdvd
  refine hwritten offset ?_ hdvd
  by_contra hle
  exact hend ⟨by omega, hdone, not_lt.mp hret⟩

/-- Five bricks hold two blocks; the fifth one is healed from the others. -/
theorem version_raised_only_if_written_two :
    let h : HealStart := ⟨{0, 1, 2, 3}, {4}, ∅, ∅, {4}, ∅⟩
    let replies : Nat → BlockReplies := fun _ => ⟨true, [⟨{0, 1, 2, 3}, 8⟩], 8, [⟨{4}, 8⟩]⟩
    let e : HealEnd := ⟨true, true, {4}, fun _ => 0⟩
    4 ∈ healData 5 16 8 h replies e ∧ ∀ offset < 16, 8 ∣ offset →
      4 ∈ (rebuildData 16 8 h.sources (healedSinks h) replies).written offset := by
  have hraised : 4 ∈ healData 5 16 8 ⟨{0, 1, 2, 3}, {4}, ∅, ∅, {4}, ∅⟩
      (fun _ => ⟨true, [⟨{0, 1, 2, 3}, 8⟩], 8, [⟨{4}, 8⟩]⟩) ⟨true, true, {4}, fun _ => 0⟩ :=
    by decide
  exact ⟨hraised, version_raised_only_if_written (by decide) (fun _ => by decide) hraised⟩

/-- Two sinks are healed. If the write of the first block has failed on the first sink, and if no
block can be read, the versions of both are raised. -/
theorem version_raised_on_stale :
    let h : HealStart := ⟨{0, 1, 2, 3}, {4, 5}, ∅, ∅, {4, 5}, ∅⟩
    let e : HealEnd := ⟨true, true, {4, 5}, fun _ => 0⟩
    let failed : Nat → BlockReplies := fun i =>
      ⟨true, [⟨{0, 1, 2, 3}, 8⟩], 8, if i = 0 then [⟨{4}, -5⟩, ⟨{5}, 8⟩] else [⟨{5}, 8⟩]⟩
    let unread : Nat → BlockReplies := fun _ => ⟨true, [⟨{0, 1, 2, 3}, -5⟩], -5, []⟩
    healData 6 16 8 h failed e = {4, 5} ∧
      4 ∉ (rebuildData 16 8 h.sources (healedSinks h) failed).written 0 ∧
    healData 6 16 8 h unread e = {4, 5} ∧
      5 ∉ (rebuildData 16 8 h.sources (healedSinks h) unread).written 0 := by
  decide

end TagItGluster.Ec
