import Mathlib.Data.List.Rotate
import TagItGluster.Dht.Placement

/-!
# The layout of a new directory

`dht_selfheal_layout_new_directory` gives each subvolume that is to be used a range as large as its
share. The size of a share is computed from the first subvolumes of the layout, but the ranges are
given out from a subvolume that the hash of the path selects, and all in 32 bits. The last
subvolume gets what is left. Line numbers: `xlators/cluster/dht/src/dht-selfheal.c`.
-/

namespace TagItGluster.Dht

open List

/-- `EINVAL`. -/
def einval : Int := 22

/-- What `dht_conf_t` says about the subvolumes: those that are decommissioned, and the number of
chunks that `dht_get_chunks_from_xl` (1530) finds for each. -/
structure DhtConf (ξ : Type) where
  decommissionedBricks : List ξ
  doWeighting : Bool
  chunks : ξ → UInt32

variable {ξ : Type}

/-- The entry is to get a range. -/
def LayoutEntry.Eligible (e : LayoutEntry ξ) : Prop := e.err = -1 ∨ e.err = enoent

instance (e : LayoutEntry ξ) : Decidable e.Eligible :=
  inferInstanceAs (Decidable (_ ∨ _))

/-- Second loop of `dht_selfheal_layout_new_directory`, over the entries in the order in which it
comes to them. -/
def setRanges (size : LayoutEntry ξ → Option UInt32) (bricksToUse : Nat) :
    UInt32 → Nat → List (LayoutEntry ξ) → List (LayoutEntry ξ)
  | _, _, [] => []
  | start, bricksUsed, e :: l =>
    match size e with
    | none => e :: setRanges size bricksToUse start bricksUsed l
    | some w =>
      if bricksToUse ≤ bricksUsed + 1 then { e with start := start, stop := 0xffffffff } :: l
      else { e with start := start, stop := start + w - 1 } ::
        setRanges size bricksToUse (start + w) (bricksUsed + 1) l

private lemma setRanges_xlator (size : LayoutEntry ξ → Option UInt32) (bricksToUse : Nat)
    (start : UInt32) (bricksUsed : Nat) (l : List (LayoutEntry ξ)) :
    (setRanges size bricksToUse start bricksUsed l).map LayoutEntry.xlator =
      l.map LayoutEntry.xlator := by
  induction l generalizing start bricksUsed with
  | nil => rfl
  | cons e l ih =>
    unfold setRanges
    split
    · rw [map_cons, map_cons, ih]
    · split
      · rfl
      · rw [map_cons, map_cons, ih]

section

variable [DecidableEq ξ] (conf : DhtConf ξ)

/-- `dht_get_layout_count` (1274): the number of subvolumes to use, and the entries with the errors
that it changes. -/
def dhtGetLayoutCount (spreadCnt : Nat) (newLayout : Bool) (l : List (LayoutEntry ξ)) :
    Nat × List (LayoutEntry ξ) :=
  let l := l.map fun e =>
    if e.xlator ∈ conf.decommissionedBricks then { e with err := einval } else e
  let count := l.countP fun e => e.err = -1 ∨ e.err = 0 ∨ e.err = enoent
  let l := l.map fun e => if e.err = 0 then { e with err := -1 } else e
  let full := count = 0 ∨ newLayout = false
  let count := count + if full then l.countP fun e => e.err = enospc else 0
  let l := l.map fun e => if full ∧ e.err = enospc then { e with err := -1 } else e
  (if spreadCnt ≠ 0 ∧ spreadCnt ≤ count then spreadCnt else if count ≠ 0 then count else 1, l)

/-- First loop of `dht_selfheal_layout_new_directory`: the chunks of the subvolumes to use, and
whether all of them have some. -/
def sumChunks (bricksToUse : Nat) : Nat → UInt32 → List (LayoutEntry ξ) → UInt32 × Bool
  | _, totalSize, [] => (totalSize, true)
  | bricksUsed, totalSize, e :: l =>
    if ¬e.Eligible then sumChunks bricksToUse bricksUsed totalSize l
    else if conf.chunks e.xlator = 0 then (totalSize, false)
    else if bricksToUse ≤ bricksUsed + 1 then (totalSize + conf.chunks e.xlator, true)
    else sumChunks bricksToUse (bricksUsed + 1) (totalSize + conf.chunks e.xlator) l

/-- `dht_selfheal_layout_alloc_start` (1247), with the hash of the path if there is one. -/
def dhtSelfhealLayoutAllocStart (hash : Option UInt32) (cnt : Nat) : Nat :=
  match hash with
  | some hashval => hashval.toNat % cnt
  | none => 0

/-- The size of the range that an entry gets, unless it is skipped. -/
def rangeSize (weightBySize : Bool) (chunk : UInt32) (e : LayoutEntry ξ) : Option UInt32 :=
  if ¬e.Eligible then none
  else if weightBySize then
    if conf.chunks e.xlator = 0 then none else some (chunk * conf.chunks e.xlator)
  else some chunk

/-- What is known before the second loop: the number of subvolumes to use, where the loop begins,
the entries in its order with their ranges reset, and the sizes of the ranges. -/
structure Plan (ξ : Type) where
  bricksToUse : Nat
  startSubvol : Nat
  entries : List (LayoutEntry ξ)
  size : LayoutEntry ξ → Option UInt32

/-- `dht_selfheal_layout_new_directory` (1552) before its second loop. -/
def newDirectoryPlan (spreadCnt : Nat) (hash : Option UInt32) (layout : Layout ξ) : Plan ξ :=
  let count := dhtGetLayoutCount conf spreadCnt true layout.list
  let sum := sumChunks conf count.1 0 0 count.2
  let weightBySize := conf.doWeighting && sum.2 && decide (sum.1 ≠ 0)
  let chunk := if weightBySize then 0xffffffff / sum.1 else .ofNat (0xffffffff / count.1)
  let startSubvol := dhtSelfhealLayoutAllocStart hash count.2.length
  { bricksToUse := count.1
    startSubvol := startSubvol
    entries := (count.2.map fun e => { e with start := 0, stop := 0 }).rotate startSubvol
    size := rangeSize conf weightBySize chunk }

private lemma getLayoutCount_xlator (spreadCnt : Nat) (newLayout : Bool) (l : List (LayoutEntry ξ))
    : (dhtGetLayoutCount conf spreadCnt newLayout l).2.map LayoutEntry.xlator =
      l.map LayoutEntry.xlator := by
  simp only [dhtGetLayoutCount, map_map]
  refine map_congr_left fun e _ => ?_
  simp only [Function.comp]
  split <;> split <;> split <;> rfl

private lemma plan_xlator (spreadCnt : Nat) (hash : Option UInt32) (layout : Layout ξ) :
    ((newDirectoryPlan conf spreadCnt hash layout).entries.map LayoutEntry.xlator).Perm
      (layout.list.map LayoutEntry.xlator) := by
  rw [← getLayoutCount_xlator conf spreadCnt true layout.list]
  refine ((rotate_perm _ _).map _).trans ?_
  rw [map_map]
  exact .refl _

/-- The entries of the layout after `dht_selfheal_layout_new_directory`. -/
def Plan.ranges {ξ : Type} (plan : Plan ξ) : List (LayoutEntry ξ) :=
  setRanges plan.size plan.bricksToUse 0 0 plan.entries

private lemma ranges_xlator (spreadCnt : Nat) (hash : Option UInt32) (layout : Layout ξ) :
    ((newDirectoryPlan conf spreadCnt hash layout).ranges.map LayoutEntry.xlator).Perm
      (layout.list.map LayoutEntry.xlator) := by
  rw [Plan.ranges, setRanges_xlator]
  exact plan_xlator conf spreadCnt hash layout

/-- `dht_selfheal_layout_new_directory`. The entries stay in their places. -/
def dhtSelfhealLayoutNewDirectory (spreadCnt : Nat) (hash : Option UInt32) (layout : Layout ξ) :
    Layout ξ :=
  let plan := newDirectoryPlan conf spreadCnt hash layout
  have hperm := (rotate_perm plan.ranges (plan.entries.length - plan.startSubvol)).map
    LayoutEntry.xlator |>.trans (ranges_xlator conf spreadCnt hash layout)
  { list := plan.ranges.rotate (plan.entries.length - plan.startSubvol)
    ne := fun h => layout.ne (map_eq_nil_iff.mp ((h ▸ hperm).symm.eq_nil))
    distinct := hperm.nodup_iff.mpr layout.distinct }

/-- The entries that the second loop gives a range to. -/
def Plan.chosen {ξ : Type} (plan : Plan ξ) : List (LayoutEntry ξ) :=
  (plan.entries.filter fun e => (plan.size e).isSome).take plan.bricksToUse

/-- The entries whose ranges have been written. -/
def written (spreadCnt : Nat) (hash : Option UInt32) (layout : Layout ξ) :
    List (LayoutEntry ξ) :=
  (dhtSelfhealLayoutNewDirectory conf spreadCnt hash layout).list.filter fun e =>
    e.xlator ∈ (newDirectoryPlan conf spreadCnt hash layout).chosen.map LayoutEntry.xlator

end

section

variable {size : LayoutEntry ξ → Option UInt32}

/-- The ranges of entries that all get one: the last one gets what is left. -/
def fillRanges (size : LayoutEntry ξ → Option UInt32) :
    UInt32 → List (LayoutEntry ξ) → List (LayoutEntry ξ)
  | _, [] => []
  | start, [e] => [{ e with start := start, stop := 0xffffffff }]
  | start, e :: e' :: l =>
    { e with start := start, stop := start + (size e).getD 0 - 1 } ::
      fillRanges size (start + (size e).getD 0) (e' :: l)

variable {l : List (LayoutEntry ξ)} {e : LayoutEntry ξ}

private lemma fillRanges_cons (hne : l ≠ []) (start : UInt32) (e : LayoutEntry ξ) :
    fillRanges size start (e :: l) =
      { e with start := start, stop := start + (size e).getD 0 - 1 } ::
        fillRanges size (start + (size e).getD 0) l := by
  cases l with
  | nil => exact absurd rfl hne
  | cons e' l => rfl

/-- The second loop fills the ranges of the first entries that are not skipped, if there are as many
as it needs. -/
lemma setRanges_filter {bricksToUse bricksUsed : Nat} [DecidableEq ξ]
    (hnodup : (l.map LayoutEntry.xlator).Nodup) (start : UInt32) (hused : bricksUsed < bricksToUse)
    (hlen : bricksToUse - bricksUsed ≤ (l.filter fun e => (size e).isSome).length) :
    (setRanges size bricksToUse start bricksUsed l).filter (fun e => e.xlator ∈
        ((l.filter fun e => (size e).isSome).take (bricksToUse - bricksUsed)).map
          LayoutEntry.xlator) =
      fillRanges size start
        ((l.filter fun e => (size e).isSome).take (bricksToUse - bricksUsed)) := by
  induction l generalizing start bricksUsed with
  | nil =>
    simp only [filter_nil, length_nil] at hlen
    omega
  | cons e l ih =>
    obtain ⟨hnew, hnodup⟩ := nodup_cons.mp hnodup
    unfold setRanges
    split
    · next hnone =>
      have hskip : (e :: l).filter (fun e => (size e).isSome) =
          l.filter fun e => (size e).isSome := by
        simp [hnone]
      rw [hskip] at hlen ⊢
      rw [filter_cons_of_neg, ih hnodup start hused hlen]
      intro hmem
      obtain ⟨e', he', heq⟩ := mem_map.mp (of_decide_eq_true hmem)
      have hl : e' ∈ l := mem_of_mem_filter (mem_of_mem_take he')
      exact hnew (heq ▸ mem_map_of_mem hl)
    · next w hsome =>
      have htake : (e :: l).filter (fun e => (size e).isSome) =
          e :: l.filter fun e => (size e).isSome := by
        simp [hsome]
      rw [htake] at hlen ⊢
      obtain ⟨k, hk⟩ : ∃ k, bricksToUse - bricksUsed = k + 1 :=
        Nat.exists_eq_succ_of_ne_zero (by omega)
      rw [length_cons] at hlen
      rw [hk, take_succ_cons, map_cons]
      -- The other entries are of other subvolumes.
      have hrest : ∀ l' : List (LayoutEntry ξ),
          l'.map LayoutEntry.xlator = l.map LayoutEntry.xlator → ∀ xs : List ξ,
          l'.filter (fun e' => e'.xlator ∈ e.xlator :: xs) =
            l'.filter fun e' => e'.xlator ∈ xs := by
        intro l' hl' xs
        refine filter_congr fun e' he' => ?_
        have hmem : e'.xlator ∈ l.map LayoutEntry.xlator := hl' ▸ mem_map_of_mem he'
        have hne : e'.xlator ≠ e.xlator := fun h => hnew (h ▸ hmem)
        simp [hne]
      split
      · next hlast =>
        obtain rfl : k = 0 := by omega
        rw [filter_cons_of_pos (by simp), hrest l rfl]
        simp [fillRanges]
      next hmore =>
      obtain rfl : k = bricksToUse - (bricksUsed + 1) := by omega
      have hne :
          (l.filter fun e => (size e).isSome).take (bricksToUse - (bricksUsed + 1)) ≠ [] := by
        intro h
        have := congrArg List.length h
        rw [length_take, length_nil] at this
        omega
      rw [filter_cons_of_pos (by simp), hrest _ (setRanges_xlator ..),
        ih hnodup (start + w) (by omega) (by omega), fillRanges_cons hne, hsome]
      rfl

/-- The entries that are not chosen keep their ranges. -/
lemma setRanges_others {bricksToUse bricksUsed : Nat} (hreset : ∀ e ∈ l, e.start = 0 ∧ e.stop = 0)
    (start : UInt32) (hused : bricksUsed < bricksToUse)
    (he : e ∈ setRanges size bricksToUse start bricksUsed l)
    (hnot : e.xlator ∉ ((l.filter fun e => (size e).isSome).take
      (bricksToUse - bricksUsed)).map LayoutEntry.xlator) : e.start = 0 ∧ e.stop = 0 := by
  induction l generalizing start bricksUsed with
  | nil => cases he
  | cons a l ih =>
    obtain ⟨ha, hl⟩ := forall_mem_cons.mp hreset
    unfold setRanges at he
    split at he
    · next hnone =>
      rcases mem_cons.mp he with rfl | he
      · exact ha
      · exact ih hl start hused he (by simpa [hnone] using hnot)
    next w hsome =>
    obtain ⟨k, hk⟩ : ∃ k, bricksToUse - bricksUsed = k + 1 :=
      Nat.exists_eq_succ_of_ne_zero (by omega)
    rw [filter_cons_of_pos (by simp [hsome]), hk, take_succ_cons, map_cons,
      mem_cons, not_or] at hnot
    split at he
    · rcases mem_cons.mp he with rfl | he
      · exact absurd rfl hnot.1
      · exact hl e he
    · next hmore =>
      rcases mem_cons.mp he with rfl | he
      · exact absurd rfl hnot.1
      · obtain rfl : k = bricksToUse - (bricksUsed + 1) := by omega
        exact ih hl (start + w) (by omega) he hnot.2

/-- The sizes of the ranges of all entries but the last one, added up. -/
def sharesBefore (size : LayoutEntry ξ → Option UInt32) (l : List (LayoutEntry ξ)) : List Nat :=
  l.dropLast.map fun e => ((size e).getD 0).toNat

private lemma le_max (x : UInt32) : x ≤ 0xffffffff := by
  exact Nat.le_of_lt_succ x.toNat_lt

private lemma fillRanges_max (hne : l ≠ []) (start : UInt32) :
    0 < (fillRanges size start l).countP fun e => Contains 0xffffffff e := by
  induction l generalizing start with
  | nil => exact absurd rfl hne
  | cons e l ih =>
    by_cases hl : l = []
    · subst hl
      refine countP_pos_iff.mpr ⟨_, mem_singleton.mpr rfl, decide_eq_true ?_⟩
      exact ⟨le_max _, UInt32.le_refl _⟩
    · rw [fillRanges_cons hl, countP_cons]
      exact Nat.add_pos_left (ih hl _) _

/-- The ranges that are filled in are not empty, and have each hash from the start on once, if and
only if the shares of all but the last are not empty and end before the hash space does. -/
lemma fillRanges_exact (size : LayoutEntry ξ → Option UInt32) (hne : l ≠ []) (start : UInt32) :
    ((∀ e ∈ fillRanges size start l, e.start ≤ e.stop) ∧
        ∀ hash, (fillRanges size start l).countP (fun e => Contains hash e) =
          if start ≤ hash then 1 else 0) ↔
      (∀ w ∈ sharesBefore size l, w ≠ 0) ∧ start.toNat + (sharesBefore size l).sum < 2 ^ 32 := by
  induction l generalizing start with
  | nil => exact absurd rfl hne
  | cons e l ih =>
    by_cases hl : l = []
    · subst hl
      refine iff_of_true ⟨?_, fun hash => ?_⟩ ⟨nofun, start.toNat_lt⟩
      · exact forall_mem_singleton.mpr (le_max start)
      · simp [fillRanges, Contains, le_max]
    rw [fillRanges_cons hl, show sharesBefore size (e :: l) =
      ((size e).getD 0).toNat :: sharesBefore size l by
        simp [sharesBefore, dropLast_cons_of_ne_nil hl]]
    have hrest := ih hl (start + (size e).getD 0)
    have hmax : 0 < (fillRanges size (start + (size e).getD 0) l).countP fun e =>
        Contains 0xffffffff e := fillRanges_max hl _
    generalize (size e).getD 0 = w at hrest hmax ⊢
    have hw := w.toNat_lt
    have hstop : (start + w - 1).toNat = (start.toNat + w.toNat + (2 ^ 32 - 1)) % 2 ^ 32 := by
      rw [UInt32.toNat_sub, UInt32.toNat_add, UInt32.toNat_one]
      omega
    simp only [forall_mem_cons, sum_cons, countP_cons, decide_eq_true_eq]
    by_cases hgood : w.toNat ≠ 0 ∧ start.toNat + w.toNat < 2 ^ 32
    · have hnext : (start + w).toNat = start.toNat + w.toNat := by
        exact Nat.mod_eq_of_lt hgood.2
      have hcontains (hash : UInt32) : Contains hash
          ({ e with start := start, stop := start + w - 1 } : LayoutEntry ξ) ↔
          start.toNat ≤ hash.toNat ∧ hash.toNat < start.toNat + w.toNat := by
        rw [Contains, UInt32.le_iff_toNat_le, UInt32.le_iff_toNat_le]
        simp only [hstop]
        omega
      simp only [hcontains, UInt32.le_iff_toNat_le] at hrest ⊢
      constructor
      · rintro ⟨⟨-, hall⟩, hcount⟩
        obtain ⟨hpos, hsum⟩ := hrest.mp ⟨hall, fun hash => by
          have := hcount hash
          split at this <;> split at this <;> split <;> omega⟩
        exact ⟨⟨hgood.1, hpos⟩, by omega⟩
      · rintro ⟨⟨-, hpos⟩, hsum⟩
        obtain ⟨hall, hcount⟩ := hrest.mpr ⟨hpos, by omega⟩
        refine ⟨⟨by omega, hall⟩, fun hash => ?_⟩
        rw [hcount]
        split <;> split <;> split <;> omega
    · refine iff_of_false ?_ fun h => hgood ⟨h.1.1, by omega⟩
      rintro ⟨⟨hle, -⟩, hcount⟩
      -- The range would be empty or would have the end of the hash space, as the last one has.
      have hend := hcount 0xffffffff
      rw [if_pos (le_max start)] at hend
      have hnot : ¬Contains 0xffffffff
          ({ e with start := start, stop := start + w - 1 } : LayoutEntry ξ) := by
        intro h
        rw [if_pos h] at hend
        omega
      have hlt : (start + w - 1).toNat < 2 ^ 32 - 1 := by
        by_contra hge
        refine hnot ⟨le_max start, ?_⟩
        exact Nat.not_lt.mp hge
      rw [UInt32.le_iff_toNat_le] at hle
      omega

private lemma fillRanges_err {start : UInt32} (h : e ∈ fillRanges size start l) :
    ∃ e' ∈ l, e.err = e'.err := by
  induction l generalizing start with
  | nil => cases h
  | cons a l ih =>
    by_cases hl : l = []
    · subst hl
      rw [mem_singleton.mp h]
      exact ⟨a, mem_singleton.mpr rfl, rfl⟩
    · rw [fillRanges_cons hl] at h
      rcases mem_cons.mp h with rfl | h
      · exact ⟨a, mem_cons_self, rfl⟩
      · obtain ⟨e', he', heq⟩ := ih h
        exact ⟨e', mem_cons_of_mem _ he', heq⟩

private lemma fillRanges_length (start : UInt32) (l : List (LayoutEntry ξ)) :
    (fillRanges size start l).length = l.length := by
  induction l generalizing start with
  | nil => rfl
  | cons a l ih =>
    by_cases hl : l = []
    · subst hl
      rfl
    · rw [fillRanges_cons hl, length_cons, length_cons, ih]

end

section

variable (conf : DhtConf ξ)

/-- If the shares are weighted, there are as many subvolumes with chunks as are to be used. -/
lemma sumChunks_spec {bricksToUse bricksUsed : Nat} {totalSize : UInt32}
    {l : List (LayoutEntry ξ)} (hused : bricksUsed < bricksToUse)
    (hlen : bricksToUse ≤ bricksUsed + l.countP fun e => e.Eligible)
    (h : (sumChunks conf bricksToUse bricksUsed totalSize l).2) :
    bricksToUse ≤ bricksUsed + l.countP fun e => e.Eligible ∧ conf.chunks e.xlator ≠ 0 := by
  induction l generalizing bricksUsed totalSize with
  | nil =>
    rw [countP_nil] at hlen
    omega
  | cons e l ih =>
    unfold sumChunks at h
    split at h
    · next helig =>
      rw [countP_cons_of_neg (by simpa using helig)] at hlen
      rw [countP_cons_of_neg (by simp [helig])]
      exact ih hused hlen h
    next helig =>
    rw [countP_cons_of_pos (by simpa using helig)] at hlen
    split at h
    · cases h
    next hchunks =>
    rw [countP_cons_of_pos (by simp [of_not_not helig, hchunks])]
    split at h
    · omega
    · next hmore =>
      have hmore' : bricksUsed + 1 < bricksToUse := Nat.lt_of_not_le hmore
      have hrest := ih hmore' (by omega) h
      omega

private lemma rangeSize_isSome (weightBySize : Bool) (chunk : UInt32) (e : LayoutEntry ξ) :
    (rangeSize conf weightBySize chunk e).isSome ↔
      e.Eligible ∧ (weightBySize → conf.chunks e.xlator ≠ 0) := by
  unfold rangeSize
  split
  · next h => simp [h]
  · next h =>
    rw [and_iff_right (of_not_not h)]
    split
    · next hweight => split <;> simp_all
    · next hweight => simp [hweight]

variable [DecidableEq ξ] (spreadCnt : Nat) (hash : Option UInt32) (layout : Layout ξ)

/-- The number of subvolumes to use is not more than there are, unless there are none. -/
lemma getLayoutCount_spec (l : List (LayoutEntry ξ)) :
    0 < (dhtGetLayoutCount conf spreadCnt true l).1 ∧
      ((∃ e ∈ (dhtGetLayoutCount conf spreadCnt true l).2, e.Eligible) →
        (dhtGetLayoutCount conf spreadCnt true l).1 ≤
          (dhtGetLayoutCount conf spreadCnt true l).2.countP fun e => e.Eligible) := by
  simp only [dhtGetLayoutCount, Bool.true_eq_false, or_false]
  generalize (l.map fun e => if e.xlator ∈ conf.decommissionedBricks then { e with err := einval }
    else e) = l
  have hcount : (l.map fun e => if e.err = 0 then { e with err := -1 } else e).countP
      (fun e => e.Eligible) = l.countP fun e => e.err = -1 ∨ e.err = 0 ∨ e.err = enoent := by
    rw [countP_map]
    refine countP_congr fun e _ => ?_
    simp only [Function.comp, decide_eq_true_eq]
    split
    · next h => simp [LayoutEntry.Eligible, h]
    · next h => simp [LayoutEntry.Eligible, h]
  rw [← hcount]
  generalize (l.map fun e => if e.err = 0 then { e with err := -1 } else e) = l
  have htotal : (l.map fun e => if l.countP (fun e => e.Eligible) = 0 ∧ e.err = enospc
      then { e with err := -1 } else e).countP (fun e => e.Eligible) =
      l.countP (fun e => e.Eligible) +
        if l.countP (fun e => e.Eligible) = 0 then l.countP fun e => e.err = enospc else 0 := by
    rw [countP_map]
    split
    · next hzero =>
      rw [hzero, Nat.zero_add]
      refine countP_congr fun e he => ?_
      have hnot : ¬e.Eligible := by simpa using countP_eq_zero.mp hzero e he
      simp only [Function.comp, true_and]
      split
      · next h => simp [LayoutEntry.Eligible, h]
      · next h => simp [hnot, h]
    · next hpos => simp [hpos, Function.comp_def]
  rw [← htotal]
  generalize (l.map fun e => if l.countP (fun e => e.Eligible) = 0 ∧ e.err = enospc
      then { e with err := -1 } else e) = l
  constructor
  · split
    · omega
    · split <;> omega
  rintro ⟨e, he, helig⟩
  have hpos : 0 < l.countP fun e => e.Eligible :=
    countP_pos_iff.mpr ⟨e, he, decide_eq_true helig⟩
  split
  · omega
  · rw [if_pos (by omega)]

/-- As many subvolumes are chosen as are to be used, if there is one. -/
lemma chosen_length {plan : Plan ξ} (hplan : plan = newDirectoryPlan conf spreadCnt hash layout)
    (h : ∃ e ∈ plan.entries, e.Eligible) :
    plan.bricksToUse ≤ (plan.entries.filter fun e => (plan.size e).isSome).length := by
  subst hplan
  have hcount := getLayoutCount_spec conf spreadCnt layout.list
  simp only [newDirectoryPlan] at h ⊢
  generalize dhtGetLayoutCount conf spreadCnt true layout.list = r at hcount h ⊢
  obtain ⟨hpos, hle⟩ := hcount
  have helig : ∃ e ∈ r.2, e.Eligible := by
    obtain ⟨e, he, helig⟩ := h
    obtain ⟨e', he', rfl⟩ := mem_map.mp (mem_rotate.mp he)
    exact ⟨e', he', helig⟩
  rw [← countP_eq_length_filter, (rotate_perm _ _).countP_eq, countP_map]
  cases hweight : conf.doWeighting && (sumChunks conf r.1 0 0 r.2).2 &&
      decide ((sumChunks conf r.1 0 0 r.2).1 ≠ 0) with
  | false =>
    refine (hle helig).trans (countP_mono_left fun e _ he => ?_)
    exact (rangeSize_isSome conf _ _ _).mpr ⟨of_decide_eq_true he, nofun⟩
  | true =>
    have hall := (Bool.and_eq_true_iff.mp (Bool.and_eq_true_iff.mp hweight).1).2
    have hsome := sumChunks_spec conf hpos (by simpa using hle helig) hall
    rw [zero_add] at hsome
    refine hsome.trans (countP_mono_left fun e _ he => ?_)
    obtain ⟨helig, hchunks⟩ := of_decide_eq_true he
    exact (rangeSize_isSome conf _ _ _).mpr ⟨helig, fun _ => hchunks⟩

variable {e : LayoutEntry ξ}

private lemma chosen_eligible (h : e ∈ (newDirectoryPlan conf spreadCnt hash layout).chosen) :
    e.Eligible :=
  ((rangeSize_isSome conf _ _ _).mp (mem_filter.mp (mem_of_mem_take h)).2).1

private lemma plan_bricksToUse_pos :
    0 < (newDirectoryPlan conf spreadCnt hash layout).bricksToUse :=
  (getLayoutCount_spec conf spreadCnt layout.list).1

/-- The ranges that have been written are those of the chosen subvolumes, filled in. -/
lemma written_perm {plan : Plan ξ} (hplan : plan = newDirectoryPlan conf spreadCnt hash layout)
    (h : ∃ e ∈ plan.entries, e.Eligible) :
    (written conf spreadCnt hash layout).Perm (fillRanges plan.size 0 plan.chosen) := by
  have hlen := chosen_length conf spreadCnt hash layout hplan h
  have hnodup : (plan.entries.map LayoutEntry.xlator).Nodup := by
    rw [hplan]
    exact (plan_xlator conf spreadCnt hash layout).nodup_iff.mpr layout.distinct
  have hpos : 0 < plan.bricksToUse := hplan ▸ plan_bricksToUse_pos conf spreadCnt hash layout
  have hfilter := setRanges_filter hnodup 0 hpos hlen
  rw [Nat.sub_zero] at hfilter
  refine ((rotate_perm _ _).filter _).trans ?_
  rw [← hplan, Plan.ranges, Plan.chosen, hfilter]

private lemma written_others
    (he : e ∈ (dhtSelfhealLayoutNewDirectory conf spreadCnt hash layout).list)
    (hnot : e ∉ written conf spreadCnt hash layout) : e.start = 0 ∧ e.stop = 0 := by
  have hmem := mem_rotate.mp he
  refine setRanges_others ?_ 0 (plan_bricksToUse_pos conf spreadCnt hash layout) hmem ?_
  · intro e he
    obtain ⟨e', -, rfl⟩ := mem_map.mp (mem_rotate.mp he)
    exact ⟨rfl, rfl⟩
  · intro hchosen
    exact hnot (mem_filter.mpr ⟨he, decide_eq_true (by rwa [Nat.sub_zero] at hchosen)⟩)

end

variable [DecidableEq ξ]

/-- The ranges that `dht_selfheal_layout_new_directory` writes, one for each of the subvolumes to
use, are not empty and partition the hash space, and all others are zeroed, if and only if some
subvolume is eligible, and the shares of all but the last subvolume that is used are not
empty and end before the hash space does. -/
theorem new_directory_partition_iff (conf : DhtConf ξ) (spreadCnt : Nat) (hash : Option UInt32)
    (layout : Layout ξ) :
    ((written conf spreadCnt hash layout).length =
          (newDirectoryPlan conf spreadCnt hash layout).bricksToUse ∧
        (∀ e ∈ written conf spreadCnt hash layout, e.Eligible ∧ e.start ≤ e.stop) ∧
        PartitionsHashSpace (written conf spreadCnt hash layout) ∧
        ∀ e ∈ (dhtSelfhealLayoutNewDirectory conf spreadCnt hash layout).list,
          e ∉ written conf spreadCnt hash layout → e.start = 0 ∧ e.stop = 0) ↔
      (∃ e ∈ (newDirectoryPlan conf spreadCnt hash layout).entries, e.Eligible) ∧
        (∀ w ∈ sharesBefore (newDirectoryPlan conf spreadCnt hash layout).size
          (newDirectoryPlan conf spreadCnt hash layout).chosen, w ≠ 0) ∧
        (sharesBefore (newDirectoryPlan conf spreadCnt hash layout).size
          (newDirectoryPlan conf spreadCnt hash layout).chosen).sum < 2 ^ 32 := by
  have hpos := plan_bricksToUse_pos conf spreadCnt hash layout
  have heligible := fun e he => chosen_eligible conf spreadCnt hash layout (e := e) he
  have hothers := fun e he hnot => written_others conf spreadCnt hash layout (e := e) he hnot
  have hmem := fun e (he : e ∈ written conf spreadCnt hash layout) => (mem_filter.mp he).2
  generalize hplan : newDirectoryPlan conf spreadCnt hash layout = plan at hpos heligible hmem ⊢
  by_cases helig : ∃ e ∈ plan.entries, e.Eligible
  · have hperm := written_perm conf spreadCnt hash layout hplan.symm helig
    have hchosen : plan.chosen.length = plan.bricksToUse := by
      rw [Plan.chosen, length_take]
      exact Nat.min_eq_left (chosen_length conf spreadCnt hash layout hplan.symm helig)
    have hne : plan.chosen ≠ [] := by
      intro h
      rw [h] at hchosen
      exact absurd hchosen (Nat.ne_of_lt hpos)
    have hexact := fillRanges_exact plan.size hne 0
    rw [UInt32.toNat_zero, Nat.zero_add] at hexact
    rw [← hexact, and_iff_right helig, partitionsHashSpace_iff]
    simp only [hperm.countP_eq, hperm.mem_iff]
    constructor
    · rintro ⟨-, hranges, hpart, -⟩
      exact ⟨fun e he => (hranges e he).2, hpart⟩
    rintro ⟨hranges, hpart⟩
    refine ⟨by rw [hperm.length_eq, fillRanges_length, hchosen], fun e he => ⟨?_, hranges e he⟩,
      hpart, fun e he hnot => hothers e he (hperm.mem_iff.not.mpr hnot)⟩
    obtain ⟨e', he', heq⟩ := fillRanges_err he
    rw [LayoutEntry.Eligible, heq]
    exact heligible e' he'
  · refine iff_of_false ?_ fun h => helig h.1
    rintro ⟨hlen, -⟩
    obtain ⟨e, he⟩ := exists_mem_of_length_pos (hlen ▸ hpos)
    obtain ⟨e', he', -⟩ := mem_map.mp (of_decide_eq_true (hmem e he))
    exact helig ⟨e', mem_of_mem_filter (mem_of_mem_take he'), heligible e' he'⟩

/-- Five subvolumes without a layout. -/
def fiveSubvols : Layout Nat where
  list := (List.range 5).map fun i => ⟨-1, 0, 0, i⟩
  ne := by decide
  distinct := by decide

/-- The last two of them have twice as many chunks as the others. -/
def lastTwoLarger : DhtConf Nat := ⟨[], true, fun i => if i < 3 then 1 else 2⟩

/-- Three of the subvolumes are to be used, and the first one is the fourth. The shares of the two
large ones are too large together. -/
theorem new_directory_overlap :
    (written lastTwoLarger 3 (some 3) fiveSubvols).map (fun e => (e.xlator, e.start, e.stop)) =
        [(0, 0x55555554, 0xffffffff), (3, 0, 0xaaaaaaa9), (4, 0xaaaaaaaa, 0x55555553)] ∧
      (written lastTwoLarger 3 (some 3) fiveSubvols).countP
        (fun e => Contains 0x60000000 e) = 2 := by
  decide

end TagItGluster.Dht
