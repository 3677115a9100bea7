import Mathlib.Algebra.GroupWithZero.Nat
import Mathlib.Algebra.Ring.Int.Defs
import Mathlib.Data.Fintype.List
import TagItGluster.Afr.Transaction

/-!
# Data self-heal

The bricks that are locked say, in the matrix of their changelogs, which bricks they have something
pending for. Those that nobody accuses are sources; ties are broken by the size of the file, by the
number of operations that a brick has witnessed and by its time. The other bricks that are locked
are healed from a source, and what was pending for the bricks that have been healed is taken back.
Line numbers: `xlators/cluster/afr/src/afr-self-heal-common.c`.
-/

namespace TagItGluster.Afr

open List Option

/-- The changelog in the answer of a brick, where it has one. -/
structure Xdata (n : Nat) where
  dirty : Option Int
  pending : Fin n → Option Int

/-- The `struct afr_reply` of a brick. -/
structure LookupReply (n : Nat) where
  valid : Bool
  opRet : Int
  xdata : Option (Xdata n)
  iaSize : Nat
  iaCtime : Nat

/-- The `heal-op` that is asked for, with the brick that is named if there is one. -/
inductive HealOp (n : Nat) where
  | fromBiggerFile
  | fromBrick (child : Option (Fin n))
  | other

/-- What `afr_selfheal_find_direction` fills in. -/
structure Direction (n : Nat) where
  sources : Subvols n
  sinks : Subvols n
  witness : Fin n → Nat

/-- What `__afr_selfheal_data_prepare` returns and fills in. -/
structure Prepared (n : Nat) where
  source : Fin n
  sources : Subvols n
  sinks : Subvols n
  healedSinks : Subvols n

section

variable {n : Nat} (replies : Fin n → LookupReply n)

/-- `AFR_SH_MIN_PARTICIPANTS`. -/
def afrShMinParticipants : Nat := 2

/-- `afr_selfheal_fill_dirty` (216) for all bricks. -/
def afrSelfhealFillDirty (i : Fin n) : Int :=
  ((replies i).xdata.bind fun xdata => xdata.dirty).getD 0

/-- `afr_selfheal_fill_matrix` (237) for all bricks. -/
def afrSelfhealFillMatrix (i j : Fin n) : Int :=
  ((replies i).xdata.bind fun xdata => xdata.pending j).getD 0

/-- `afr_success_count` (778). -/
def afrSuccessCount : Nat := afrCount fun i => (replies i).valid && decide ((replies i).opRet = 0)

/-- The bricks that a changelog matrix accuses: those that have accused themselves do not accuse. -/
def accused (matrix : Fin n → Fin n → Int) (j : Fin n) : Bool :=
  decide (∃ i, matrix i j ≠ 0 ∧ matrix i i = 0)

/-- `afr_selfheal_find_direction` (507), unless too few bricks have answered. -/
def afrSelfhealFindDirection (lockedOn : Subvols n) : Option (Direction n) :=
  if afrSuccessCount replies < afrShMinParticipants then none
  else
    let matrix := afrSelfhealFillMatrix replies
    let selfAccused := fun i => decide (matrix i i ≠ 0)
    let pending := fun i => decide (∃ j, matrix i j ≠ 0 ∧ i ≠ j)
    let sources := fun i => !accused matrix i && lockedOn i
    let sinks := fun j => decide (∃ i, sources i ∧ !selfAccused i ∧ matrix i j ≠ 0)
    some
      { sources := sources
        sinks := fun j => sinks j || (decide (afrCount sources = 0) && lockedOn j)
        -- The sum is one of `uint64_t`, to which the entries are converted.
        witness := fun i => Int.toNat <| (
          (if selfAccused i then
            (((List.finRange n).filter fun j => decide (i ≠ j)).map (matrix i)).sum
          else 0) +
          (if selfAccused i && !pending i then matrix i i else 0) +
          afrSelfhealFillDirty replies i) % 2 ^ 64 }

/-- `afr_mark_largest_file_as_source` (296). -/
def afrMarkLargestFileAsSource (sources : Subvols n) : Subvols n :=
  let size := (List.finRange n).foldl (fun size i =>
    if sources i ∧ size ≤ (replies i).iaSize then (replies i).iaSize else size) 0
  fun i => sources i && !decide ((replies i).iaSize < size)

/-- `afr_mark_biggest_witness_as_source` (afr-self-heal-data.c:468). -/
def afrMarkBiggestWitnessAsSource (witness : Fin n → Nat) (sources : Subvols n) : Subvols n :=
  let biggestWitness := (List.finRange n).foldl (fun biggest i =>
    if sources i ∧ biggest < witness i then witness i else biggest) 0
  fun i => sources i && !decide (witness i < biggestWitness)

/-- One turn of the loop of `afr_mark_newest_file_as_source`: the source and its time so far. -/
def newerSource (sources : Subvols n) (best : Option (Fin n) × Nat) (i : Fin n) :
    Option (Fin n) × Nat :=
  if sources i ∧ best.2 ≤ (replies i).iaCtime then (some i, (replies i).iaCtime) else best

/-- `afr_mark_newest_file_as_source` (afr-self-heal-data.c:497): one source is left. -/
def afrMarkNewestFileAsSource (sources : Subvols n) : Subvols n :=
  let source := ((List.finRange n).foldl (newerSource replies sources) (none, 0)).1
  fun i => decide (source = some i)

/-- `afr_mark_active_sinks` (323). -/
def afrMarkActiveSinks (sources lockedOn : Subvols n) : Subvols n := fun i =>
  !sources i && lockedOn i

/-- `afr_does_size_mismatch` (afr-self-heal-data.c:426). -/
def afrDoesSizeMismatch (sources : Subvols n) : Bool :=
  let minMax := (List.finRange n).foldl (fun (minMax : Option (Nat × Nat)) i =>
    if (replies i).valid ∧ ¬(replies i).opRet < 0 ∧ sources i then
      match minMax with
      | none => some ((replies i).iaSize, (replies i).iaSize)
      | some (lo, hi) => some
        (if (replies i).iaSize < lo then (replies i).iaSize else lo,
          if hi < (replies i).iaSize then (replies i).iaSize else hi)
    else minMax) none
  match minMax with
  | none => false
  | some (lo, hi) => decide (lo ≠ hi)

/-- `afr_has_source_witnesses` (afr-self-heal-data.c:410). -/
def afrHasSourceWitnesses (sources : Subvols n) (witness : Fin n → Nat) : Bool :=
  decide (∃ i, sources i ∧ witness i ≠ 0)

/-- `afr_mark_split_brain_source_sinks` (370) for data. -/
def afrMarkSplitBrainSourceSinks (healOp : Option (HealOp n))
    (sources sinks healedSinks lockedOn : Subvols n) : Option (Prepared n) :=
  let choose := fun (source : Fin n) (sources : Subvols n) => some
    { source := source
      sources := sources
      sinks := Function.update sinks source false
      healedSinks := Function.update healedSinks source false }
  match healOp with
  | none => none
  | some op =>
    if ∃ i, lockedOn i ∧ (sources i ∨ sinks i = false ∨ healedSinks i = false) then none
    else
      match op with
      | .fromBiggerFile =>
        let sources := afrMarkLargestFileAsSource replies fun i => sources i || lockedOn i
        if afrCount sources ≠ 1 then none
        else ((List.finRange n).find? sources).bind fun source => choose source sources
      | .fromBrick none => none
      | .fromBrick (some source) =>
        if lockedOn source then choose source (Function.update sources source true) else none
      | .other => none

/-- `__afr_selfheal_data_finalize_source` (afr-self-heal-data.c:523). -/
def afrSelfhealDataFinalizeSource (healOp : Option (HealOp n)) (dir : Direction n)
    (healedSinks lockedOn : Subvols n) : Option (Prepared n) :=
  if lockedOn = healedSinks ∨ afrCount dir.sources = 0 then
    afrMarkSplitBrainSourceSinks replies healOp dir.sources dir.sinks healedSinks lockedOn
  else if healOp.isSome then none
  else
    let sources :=
      if !afrDoesSizeMismatch replies dir.sources && !afrHasSourceWitnesses dir.sources dir.witness
      then dir.sources
      else
        afrMarkNewestFileAsSource replies (afrMarkBiggestWitnessAsSource dir.witness
            (afrMarkLargestFileAsSource replies dir.sources))
    ((List.finRange n).find? sources).map fun source =>
      { source := source
        sources := sources
        sinks := dir.sinks
        healedSinks := afrMarkActiveSinks sources lockedOn }

/-- `__afr_selfheal_data_prepare` (afr-self-heal-data.c:588), with the answers of the bricks to the
lookup. An error is `none`. -/
def afrSelfhealDataPrepare (healOp : Option (HealOp n)) (lockedOn : Subvols n) :
    Option (Prepared n) :=
  (afrSelfhealFindDirection replies lockedOn).bind fun dir =>
    afrSelfhealDataFinalizeSource replies healOp dir (fun i => dir.sinks i && lockedOn i) lockedOn

/-- What `afr_selfheal_undo_pending` (116) adds to the changelog of a brick: its dirty count, and
its entries for all bricks. -/
def afrSelfhealUndoPending (sinks healedSinks : Subvols n) (i : Fin n) : Int × (Fin n → Int) :=
  let pending := fun i => sinks i && !healedSinks i
  (if !pending i then -afrSelfhealFillDirty replies i else 0,
    fun j => if pending j then 1 else -afrSelfhealFillMatrix replies i j)

/-- What `__afr_selfheal_data` has done: the bricks that have been healed, and the changelogs. -/
structure Healed (n : Nat) extends Prepared n where
  healed : Subvols n
  dirty : Fin n → Int
  matrix : Fin n → Fin n → Int

/-- `__afr_selfheal_data` (afr-self-heal-data.c:635), where the truncation, the writes or the
`fsync` may fail on some bricks. The changelogs are changed on the bricks that are locked. It is
`none` if nothing is healed. There is no arbiter, whose file would not be a source
(`afr-self-heal-data.c:688–692`). -/
def afrSelfhealData (healOp : Option (HealOp n)) (dataLock failed : Subvols n) :
    Option (Healed n) :=
  if afrCount dataLock < afrShMinParticipants then none
  else (afrSelfhealDataPrepare replies healOp dataLock).bind fun p =>
    if afrCount p.healedSinks = 0 then none
    else
      let healed := fun i => p.healedSinks i && !failed i
      let output := afrSelfhealUndoPending replies p.sinks healed
      some { p with
          healed := healed
          dirty := fun i =>
            afrSelfhealFillDirty replies i + if dataLock i then (output i).1 else 0
          matrix := fun i j =>
            afrSelfhealFillMatrix replies i j + if dataLock i then (output i).2 j else 0 }

end

section

variable {n : Nat} (replies : Fin n → LookupReply n) {f : Fin n → Nat} {step : Nat → Fin n → Nat}
  {sources : Subvols n}

/-- A loop that keeps the greatest value of the bricks in a set reaches all of them, and its result
is one of theirs unless it is the first one. -/
lemma foldl_greatest {s : Subvols n} (hstep : ∀ m i, step m i = if s i then max m (f i) else m)
    (l : List (Fin n)) (m : Nat) :
    m ≤ l.foldl step m ∧ (∀ i ∈ l, s i → f i ≤ l.foldl step m) ∧
      (l.foldl step m = m ∨ ∃ i ∈ l, s i ∧ f i = l.foldl step m) := by
  induction l generalizing m with
  | nil => exact ⟨le_refl m, nofun, .inl rfl⟩
  | cons a l ih =>
    obtain ⟨hle, hall, hone⟩ := ih (step m a)
    rw [foldl_cons]
    rw [hstep] at hle hall hone ⊢
    split at hle
    · next hs =>
      rw [if_pos hs] at hall hone
      rw [if_pos hs]
      refine ⟨(le_max_left ..).trans hle, ?_, ?_⟩
      · intro i hi hsi
        rcases mem_cons.mp hi with rfl | hi
        · exact (le_max_right ..).trans hle
        · exact hall i hi hsi
      rcases hone with hone | ⟨i, hi, hone⟩
      · rw [hone]
        rcases le_total m (f a) with hma | hma
        · exact .inr ⟨a, mem_cons_self, hs, (max_eq_right hma).symm⟩
        · exact .inl (max_eq_left hma)
      · exact .inr ⟨i, mem_cons_of_mem _ hi, hone⟩
    · next hs =>
      rw [if_neg hs] at hall hone
      rw [if_neg hs]
      refine ⟨hle, ?_, hone.imp id fun ⟨i, hi, h⟩ => ⟨i, mem_cons_of_mem _ hi, h⟩⟩
      intro i hi hsi
      rcases mem_cons.mp hi with rfl | hi
      · exact absurd hsi hs
      · exact hall i hi hsi

/-- Dropping those with less than the greatest value leaves one. -/
lemma exists_not_lt_greatest {s : Subvols n}
    (hstep : ∀ m i, step m i = if s i then max m (f i) else m) (h : ∃ i, s i) :
    ∃ i, (s i && !decide (f i < (List.finRange n).foldl step 0)) = true := by
  obtain ⟨i, hi⟩ := h
  obtain ⟨-, hall, hzero | ⟨j, -, hj, heq⟩⟩ := foldl_greatest hstep (List.finRange n) 0
  · exact ⟨i, by simp [hi, hzero]⟩
  · exact ⟨j, by simp [hj, heq]⟩

private lemma exists_largest (h : ∃ i, sources i) :
    ∃ i, afrMarkLargestFileAsSource replies sources i = true := by
  refine exists_not_lt_greatest (fun m i => ?_) h
  by_cases hs : sources i = true
  · split
    · next hle => exact (Nat.max_eq_right hle.2).symm
    · next hlt => exact (Nat.max_eq_left (by simp [hs] at hlt; omega)).symm
  · rw [if_neg hs, if_neg fun h => hs h.1]

private lemma exists_biggestWitness (witness : Fin n → Nat) (h : ∃ i, sources i) :
    ∃ i, afrMarkBiggestWitnessAsSource witness sources i = true := by
  refine exists_not_lt_greatest (fun m i => ?_) h
  by_cases hs : sources i = true
  · split
    · next hlt => exact (max_eq_right (le_of_lt hlt.2)).symm
    · next hle => exact (max_eq_left (by simp [hs] at hle; omega)).symm
  · rw [if_neg hs, if_neg fun h => hs h.1]

/-- The loop of `afr_mark_newest_file_as_source` finds a source if there is one. -/
lemma newest_foldl (sources : Subvols n) (l : List (Fin n)) (best : Option (Fin n) × Nat)
    (hbest : best.1 = none → best.2 = 0) :
    ((l.foldl (newerSource replies sources) best).1 = none →
        best.1 = none ∧ ∀ i ∈ l, sources i = false) ∧
      ∀ i, (l.foldl (newerSource replies sources) best).1 = some i →
        sources i ∨ best.1 = some i := by
  induction l generalizing best with
  | nil => exact ⟨fun h => ⟨h, nofun⟩, fun i h => .inr h⟩
  | cons a l ih =>
    rw [foldl_cons]
    by_cases hnew : sources a = true ∧ best.2 ≤ (replies a).iaCtime
    · rw [show newerSource replies sources best a = (some a, _) from if_pos hnew]
      obtain ⟨hnone, hsome⟩ := ih (some a, (replies a).iaCtime) nofun
      refine ⟨fun h => absurd (hnone h).1 nofun, fun i h => .inl ?_⟩
      rcases hsome i h with h | h
      · exact h
      · exact some.inj h ▸ hnew.1
    · rw [show newerSource replies sources best a = best from if_neg hnew]
      obtain ⟨hnone, hsome⟩ := ih best hbest
      refine ⟨fun h => ⟨(hnone h).1, forall_mem_cons.mpr ⟨?_, (hnone h).2⟩⟩, hsome⟩
      rw [hbest (hnone h).1] at hnew
      simpa using hnew

/-- `afr_mark_newest_file_as_source` leaves one of the sources, so its index is not -1. -/
lemma newest_spec (h : ∃ i, sources i) :
    ∃ i, sources i ∧ afrMarkNewestFileAsSource replies sources = fun j => decide (i = j) := by
  obtain ⟨hnone, hsome⟩ := newest_foldl replies sources (List.finRange n) (none, 0) fun _ => rfl
  obtain ⟨i, hi⟩ := h
  unfold afrMarkNewestFileAsSource
  cases hnewest : ((List.finRange n).foldl (newerSource replies sources) (none, 0)).1 with
  | none => exact absurd (hi.symm.trans ((hnone hnewest).2 i (mem_finRange i))) nofun
  | some j => exact ⟨j, (hsome j hnewest).resolve_right nofun, by simp⟩

/-- The tie breakers leave one of the sources. -/
lemma tieBreak_spec (witness : Fin n → Nat) (h : ∃ i, sources i) :
    ∃ i, sources i ∧ afrMarkNewestFileAsSource replies (afrMarkBiggestWitnessAsSource witness
      (afrMarkLargestFileAsSource replies sources)) = fun j => decide (i = j) := by
  obtain ⟨i, hi, heq⟩ := newest_spec replies
    (exists_biggestWitness witness (exists_largest replies h))
  exact ⟨i, (Bool.and_eq_true_iff.mp (Bool.and_eq_true_iff.mp hi).1).1, heq⟩

end

variable {n : Nat} {replies : Fin n → LookupReply n}

/-- Without a request to resolve a split brain, there is none where a source is returned, and the
sources are some of those that were found. -/
lemma prepare_spec {lockedOn : Subvols n} {p : Prepared n}
    (h : afrSelfhealDataPrepare replies none lockedOn = some p) :
    ∃ dir, afrSelfhealFindDirection replies lockedOn = some dir ∧
      (∀ i, p.sources i → dir.sources i) ∧ p.sources p.source ∧
      p.sinks = dir.sinks ∧ p.healedSinks = afrMarkActiveSinks p.sources lockedOn := by
  obtain ⟨dir, hdir, h⟩ := bind_eq_some_iff.mp h
  refine ⟨dir, hdir, ?_⟩
  simp only [afrSelfhealDataFinalizeSource] at h
  split at h
  · cases h
  next hsplit =>
  obtain ⟨source, hfind, rfl⟩ := map_eq_some_iff.mp h
  have hsources : ∃ i, dir.sources i := by
    by_contra hnone
    exact (not_or.mp hsplit).2 (by simpa [afrCount] using hnone)
  refine ⟨?_, find?_some hfind, rfl, rfl⟩
  obtain ⟨i, hi, heq⟩ := tieBreak_spec replies dir.witness hsources
  split
  · exact fun _ => id
  · rw [heq]
    intro j hj
    exact of_decide_eq_true hj ▸ hi

/-- Where a source is returned without a request to resolve a split brain, it is locked and one of
the sources, no brick accuses a source unless it has accused itself, and the bricks to heal are
those that are locked and no sources. -/
theorem heal_direction (replies : Fin n → LookupReply n) (lockedOn : Subvols n) (p : Prepared n)
    (h : afrSelfhealDataPrepare replies none lockedOn = some p) :
    lockedOn p.source = true ∧ p.sources p.source = true ∧
      (∀ i j, afrSelfhealFillMatrix replies i i = 0 → p.sources j = true →
        afrSelfhealFillMatrix replies i j = 0) ∧
      ∀ i, p.healedSinks i = true ↔ lockedOn i = true ∧ p.sources i = false := by
  obtain ⟨dir, hdir, hsub, hsource, -, hhealed⟩ := prepare_spec h
  -- The sources that `afr_selfheal_find_direction` finds are locked and not accused.
  have hsources (i : Fin n) :
      dir.sources i ↔ accused (afrSelfhealFillMatrix replies) i = false ∧ lockedOn i := by
    obtain ⟨-, hdir⟩ := ite_none_left_eq_some.mp hdir
    obtain rfl := some.inj hdir
    simp
  refine ⟨((hsources _).mp (hsub _ hsource)).2, hsource, ?_, ?_⟩
  · intro i j hself hj
    have hnot := ((hsources j).mp (hsub j hj)).1
    simp only [accused, decide_eq_false_iff_not, not_exists, not_and] at hnot
    by_contra haccused
    exact hnot i haccused hself
  · intro i
    rw [hhealed, afrMarkActiveSinks, Bool.and_eq_true, Bool.not_eq_true', and_comm]

/-- The answer of a brick with a changelog, for a file of a size. -/
def answers {n : Nat} (pending : Fin n → Int) (size : Nat) : LookupReply n :=
  ⟨true, 0, some ⟨some 0, fun j => some (pending j)⟩, size, 0⟩

/-- Of two bricks, the first one accuses the second one. -/
def firstAccuses : Fin 2 → LookupReply 2
  | 0 => answers (fun j => if j = 0 then 0 else 1) 10
  | 1 => answers (fun _ => 0) 5

/-- What is found then: the second brick is to be healed from the first one. -/
def healsSecond : Prepared 2 :=
  (afrSelfhealDataPrepare firstAccuses none fun _ => true).get (by decide)

theorem heal_direction_two_bricks :
    healsSecond.sources healsSecond.source = true ∧ healsSecond.healedSinks 1 = true := by
  obtain ⟨-, hsource, -, hhealed⟩ := heal_direction firstAccuses (fun _ => true) healsSecond
    (some_get _).symm
  exact ⟨hsource, (hhealed 1).mpr (by decide)⟩

/-- What `afr_selfheal_undo_pending` leaves on a brick that is locked. -/
lemma healed_matrix {healOp : Option (HealOp n)} {dataLock failed : Subvols n} {r : Healed n}
    (h : afrSelfhealData replies healOp dataLock failed = some r) {i : Fin n}
    (hi : dataLock i) (j : Fin n) :
    r.matrix i j = if r.sinks j = true ∧ r.healed j = false
      then afrSelfhealFillMatrix replies i j + 1 else 0 := by
  obtain ⟨-, h⟩ := ite_none_left_eq_some.mp h
  obtain ⟨p, -, h⟩ := bind_eq_some_iff.mp h
  obtain ⟨-, h⟩ := ite_none_left_eq_some.mp h
  obtain rfl := some.inj h
  simp only [afrSelfhealUndoPending, hi, if_true, Bool.and_eq_true, Bool.not_eq_true']
  split
  · rfl
  · exact Int.add_right_neg _

/-- The bricks that a locked brick has accused or that were to be healed, and that have not been
healed, are still accused by a locked brick, if and only if each of them is one of the sinks that
`afr_selfheal_find_direction` found and has an entry other than -1 on a locked brick. -/
theorem stale_accused_iff (replies : Fin n → LookupReply n) (healOp : Option (HealOp n))
    (dataLock failed : Subvols n) (r : Healed n)
    (h : afrSelfhealData replies healOp dataLock failed = some r) :
    (∀ j, r.healed j = false →
        (∃ i, dataLock i = true ∧ afrSelfhealFillMatrix replies i j ≠ 0) ∨ r.healedSinks j = true →
        ∃ i, dataLock i = true ∧ r.matrix i j ≠ 0) ↔
      ∀ j, r.healed j = false →
        (∃ i, dataLock i = true ∧ afrSelfhealFillMatrix replies i j ≠ 0) ∨ r.healedSinks j = true →
        r.sinks j = true ∧ ∃ i, dataLock i = true ∧ afrSelfhealFillMatrix replies i j ≠ -1 := by
  refine forall_congr' fun j => forall_congr' fun hhealed => forall_congr' fun _ => ?_
  constructor
  · rintro ⟨i, hi, hne⟩
    rw [healed_matrix h hi] at hne
    split at hne
    · next hsink => exact ⟨hsink.1, i, hi, by omega⟩
    · exact absurd rfl hne
  · rintro ⟨hsink, i, hi, hne⟩
    refine ⟨i, hi, ?_⟩
    rw [healed_matrix h hi, if_pos ⟨hsink, hhealed⟩]
    omega

/-- The second brick is healed in vain. -/
def secondFails : Healed 2 :=
  (afrSelfhealData firstAccuses none (fun _ => true) fun _ => true).get (by decide)

theorem stale_accused_two_bricks : ∃ i, secondFails.matrix i 1 ≠ 0 := by
  obtain ⟨i, -, hi⟩ := (stale_accused_iff firstAccuses none (fun _ => true) (fun _ => true)
    secondFails (some_get _).symm).mpr (by decide) 1 (by decide) (by decide)
  exact ⟨i, hi⟩

/-- Three bricks with clean changelogs, of which the first one has more of the file. -/
def firstLarger : Fin 3 → LookupReply 3
  | 0 => answers (fun _ => 0) 10
  | _ => answers (fun _ => 0) 5

/-- The second brick is to be healed, and that fails; nobody accuses it. -/
theorem stale_forgotten :
    ∃ r, afrSelfhealData firstLarger none (fun _ => true) (fun i => decide (i = 1)) = some r ∧
      r.healedSinks 1 = true ∧ r.healed 1 = false ∧ r.healed 2 = true ∧
      ∀ i, r.matrix i 1 = 0 := by
  refine ⟨_, (some_get (by decide)).symm, ?_⟩
  decide

end TagItGluster.Afr
