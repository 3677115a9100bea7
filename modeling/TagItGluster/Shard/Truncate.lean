import TagItGluster.Shard.Writev

/-!
# Truncation of sharded files

The block with the new end is cut and the blocks behind it, up to the one with the old end, are
removed. A truncation keeps the bytes in front of the new end and leaves none behind it, unless that
end is between two blocks: then the block in front of it is cut to nothing. Without a directory the
base file of a file with several blocks is not cut.
-/

namespace TagItGluster.Shard

open Base

namespace Sharded

variable {s s' : Sharded} {offset : Nat}

/-- The last block that a truncation keeps. -/
def firstBlock (s : Sharded) (offset : Nat) : Nat :=
  if offset = 0 then 0 else (offset - 1) / s.blockSize

/-- The blocks after the truncation of the last one that is kept. -/
def cut (s : Sharded) (offset : Nat) (f : File) : Nat → Option File :=
  fun b =>
    if b = s.firstBlock offset then some (f.truncate (offset % s.blockSize))
    else if s.firstBlock offset < b ∧ b ≤ (s.size - 1) / s.blockSize then none
    else s.block b

/-- The ways in which a file can be truncated. -/
inductive Truncated (s : Sharded) (offset : Nat) : Sharded → Prop where
  | same : s.size = offset → Truncated s offset s
  | grown : s.size < offset → Truncated s offset { s with size := offset }
  | bare : offset < s.size → s.blockSize < s.size → s.dotShard = false →
      Truncated s offset { s with size := offset }
  | cut (f : File) : offset < s.size → s.size ≤ s.blockSize ∨ s.dotShard = true →
      s.block (s.firstBlock offset) = some f →
      Truncated s offset { s with size := offset, block := s.cut offset f }

private lemma firstBlock_mul_le (s : Sharded) (offset : Nat) :
    s.firstBlock offset * s.blockSize ≤ offset := by
  have hprev := Nat.div_add_mod' (offset - 1) s.blockSize
  unfold firstBlock
  split
  · omega
  · omega

/-- The new end is in the last block that is kept, unless a block starts there. -/
lemma firstBlock_mul_add (h : offset % s.blockSize ≠ 0) :
    s.firstBlock offset * s.blockSize + offset % s.blockSize = offset := by
  have hsplit := Nat.div_add_mod' offset s.blockSize
  have hmod := Nat.mod_lt offset s.pos
  have hdiv : (offset - 1) / s.blockSize = offset / s.blockSize := by
    refine Nat.div_eq_of_lt_le (by omega) ?_
    rw [Nat.succ_mul]
    omega
  unfold firstBlock
  split
  · next hzero =>
    rw [hzero] at h
    exact absurd rfl h
  · rw [hdiv]
    exact hsplit

/-- The truncation of a file that has only the base file. -/
lemma cut_base (f : File) (hlt : offset < s.size) (hle : s.size ≤ s.blockSize) :
    s.firstBlock offset = 0 ∧
      s.cut offset f = Function.update s.block 0 (some (f.truncate offset)) := by
  have hzero : ∀ p < s.blockSize, p / s.blockSize = 0 := fun p hp => Nat.div_eq_of_lt hp
  have hfirst : s.firstBlock offset = 0 := by
    unfold firstBlock
    split
    · rfl
    · exact hzero _ (by omega)
  refine ⟨hfirst, funext fun b => ?_⟩
  have hlast := hzero (s.size - 1) (by omega)
  unfold cut
  rw [hfirst, Nat.mod_eq_of_lt (show offset < s.blockSize by omega)]
  by_cases hb : b = 0
  · rw [if_pos hb, hb, Function.update_self]
  · rw [if_neg hb, if_neg (by omega), Function.update_of_ne hb]

lemma truncate_size (h : s.truncate offset = some s') : s'.size = offset := by
  unfold truncate truncateBlocks at h
  dsimp only at h
  split at h
  · next heq =>
    cases h
    exact heq
  split at h
  · cases h
    rfl
  generalize (if offset = 0 then 0 else getLowestBlock (offset - 1) s.blockSize) = firstBlock at h
  split at h
  · obtain ⟨f, -, rfl⟩ := Option.map_eq_some_iff.mp h
    rfl
  split at h
  · obtain ⟨f, -, rfl⟩ := Option.map_eq_some_iff.mp h
    rfl
  · cases h
    rfl

private lemma truncated_of_eq (hfits : s.size ≤ 2 ^ 31 * s.blockSize)
    (h : s.truncate offset = some s') : s.Truncated offset s' := by
  have hpos := s.pos
  unfold truncate at h
  split at h
  · next heq =>
    cases h
    exact .same heq
  split at h
  · next hlt =>
    cases h
    exact .grown hlt
  next hne hge =>
  have hlt : offset < s.size := by omega
  have hlast : getHighestBlock 0 s.size s.blockSize = (s.size - 1) / s.blockSize := by
    rw [getHighestBlock_eq (by omega) (by omega), zero_add]
  have hfirst : (if offset = 0 then 0 else getLowestBlock (offset - 1) s.blockSize) =
      s.firstBlock offset := by
    rw [getLowestBlock_eq (by omega)]
    rfl
  simp only [hlast, hfirst] at h
  by_cases hle : s.size ≤ s.blockSize
  · have hzero : (s.size - 1) / s.blockSize = 0 := Nat.div_eq_of_lt (by omega)
    rw [if_pos ⟨(cut_base .empty hlt hle).1, hzero⟩] at h
    obtain ⟨f, hf, rfl⟩ := Option.map_eq_some_iff.mp h
    obtain ⟨hbase, hcut⟩ := cut_base f hlt hle
    rw [← hcut]
    exact .cut f hlt (.inl hle) (hbase ▸ hf)
  · have hmany : ¬ (s.firstBlock offset = 0 ∧ (s.size - 1) / s.blockSize = 0) := by
      intro hone
      have := (Nat.div_eq_zero_iff_lt hpos).mp hone.2
      omega
    rw [if_neg hmany] at h
    by_cases hdir : s.dotShard = true
    · rw [if_pos hdir] at h
      obtain ⟨f, hf, rfl⟩ := Option.map_eq_some_iff.mp h
      exact .cut f hlt (.inr hdir) hf
    · rw [if_neg hdir] at h
      cases h
      exact .bare hlt (by omega) (Bool.not_eq_true _ ▸ hdir)

/-- The file can be cut there. Without a directory, and with several blocks, the base file ends in
front of the new end. Otherwise there are only zeros in the block in front of a new end between two
blocks, and no block lies behind the one with the old end. -/
def CanCut (s : Sharded) (offset : Nat) : Prop :=
  if s.blockSize < s.size ∧ s.dotShard = false then blockLength s.block 0 ≤ offset
  else (offset % s.blockSize = 0 → ∀ p < offset, offset ≤ p + s.blockSize → s.stored p = 0) ∧
    ∀ b, (s.size - 1) / s.blockSize < b → blockLength s.block b = 0

/-- The bytes in front of the new end are those before, and none is stored from there on. -/
def CutRight (s : Sharded) (offset : Nat) (s' : Sharded) : Prop :=
  (∀ p < offset, s'.stored p = s.stored p) ∧
    ∀ b, 0 < blockLength s'.block b → b * s.blockSize + blockLength s'.block b ≤ offset

private lemma stored_cut {f : File} (hf : s.block (s.firstBlock offset) = some f) (p : Nat) :
    ({ s with size := offset, block := s.cut offset f } : Sharded).stored p =
      if p / s.blockSize = s.firstBlock offset then
        if p % s.blockSize < offset % s.blockSize then s.stored p else 0
      else if s.firstBlock offset < p / s.blockSize ∧
          p / s.blockSize ≤ (s.size - 1) / s.blockSize then 0
      else s.stored p := by
  unfold stored cut
  dsimp only
  by_cases hfirst : p / s.blockSize = s.firstBlock offset
  · rw [if_pos hfirst, if_pos hfirst, hfirst, hf]
    rfl
  · rw [if_neg hfirst]
    split
    · rfl
    · rfl

/-- The blocks that are left are the cut one, and those in front of it or behind the old end. -/
lemma blockLength_cut (f : File) (b : Nat) : blockLength (s.cut offset f) b =
      if b = s.firstBlock offset then offset % s.blockSize
      else if s.firstBlock offset < b ∧ b ≤ (s.size - 1) / s.blockSize then 0
      else blockLength s.block b := by
  unfold blockLength cut
  split
  · rfl
  · split
    · rfl
    · rfl

/-- A new end between two blocks is the end of the last block that is kept. -/
private lemma firstBlock_succ_mul (hmod : offset % s.blockSize = 0) (hpos : 0 < offset) :
    (s.firstBlock offset + 1) * s.blockSize = offset := by
  obtain ⟨n, hn⟩ := Nat.dvd_of_mod_eq_zero hmod
  cases n with
  | zero => omega
  | succ n =>
    have hbs := s.pos
    rw [Nat.mul_succ, Nat.mul_comm] at hn
    rw [firstBlock, if_neg (by omega), Nat.div_eq_of_lt_le (k := n) (by omega)
      (by rw [Nat.succ_mul]; omega), Nat.succ_mul, ← hn]

/-- The bytes in front of the new end stay, exactly if those in front of a new end between two
blocks are zeros. -/
lemma stored_cut_iff {f : File} (hf : s.block (s.firstBlock offset) = some f) :
    (∀ p < offset, ({ s with size := offset, block := s.cut offset f } : Sharded).stored p =
        s.stored p) ↔
      (offset % s.blockSize = 0 → ∀ p < offset, offset ≤ p + s.blockSize → s.stored p = 0) := by
  have hle : ∀ p < offset, p / s.blockSize ≤ s.firstBlock offset := by
    intro p hp
    rw [firstBlock, if_neg (by omega)]
    exact Nat.div_le_div_right (by omega)
  constructor
  · intro h hmod p hp hlast
    have hsame := h p hp
    have hend := firstBlock_succ_mul hmod (Nat.zero_lt_of_lt hp)
    have hfirst : p / s.blockSize = s.firstBlock offset :=
      Nat.div_eq_of_lt_le (by rw [Nat.succ_mul] at hend; omega) (by omega)
    rw [stored_cut hf, if_pos hfirst, hmod, if_neg (Nat.not_lt_zero _)] at hsame
    exact hsame.symm
  · intro h p hp
    rw [stored_cut hf]
    split
    · next hfirst =>
      split
      · rfl
      next hnot =>
      have hsplit := Nat.div_add_mod' p s.blockSize
      have hmod : offset % s.blockSize = 0 := by
        by_contra hne
        have hend := firstBlock_mul_add hne
        rw [hfirst] at hsplit
        omega
      refine (h hmod p hp ?_).symm
      -- the block of the byte is the last one in front of the new end
      have hend := firstBlock_succ_mul hmod (Nat.zero_lt_of_lt hp)
      rw [Nat.succ_mul, ← hfirst] at hend
      omega
    next hfirst =>
    rw [if_neg (by have := hle p hp; omega)]

/-- No block is left beyond the new end, exactly if none was behind the one with the old end. -/
lemma blocks_cut_iff (hwf : s.WF) (hlt : offset < s.size) (f : File) :
    (∀ b, 0 < blockLength (s.cut offset f) b →
        b * s.blockSize + blockLength (s.cut offset f) b ≤ offset) ↔
      ∀ b, (s.size - 1) / s.blockSize < b → blockLength s.block b = 0 := by
  have hpos := s.pos
  have hfirst := s.firstBlock_mul_le offset
  have hlast : s.firstBlock offset ≤ (s.size - 1) / s.blockSize := by
    unfold firstBlock
    split
    · exact Nat.zero_le _
    · exact Nat.div_le_div_right (by omega)
  constructor
  · intro h b hb
    by_contra hne
    have hend := h b
    rw [blockLength_cut, if_neg (by omega), if_neg (by omega)] at hend
    have hstart := (Nat.div_lt_iff_lt_mul hpos).mp hb
    have := hend (by omega)
    omega
  · intro h b hlen
    rw [blockLength_cut] at hlen ⊢
    split at hlen
    · next hb =>
      rw [if_pos hb, hb, firstBlock_mul_add (Nat.pos_iff_ne_zero.mp hlen)]
    next hb =>
    split at hlen
    · omega
    next hrest =>
    rw [if_neg hb, if_neg hrest]
    by_cases hlow : b < s.firstBlock offset
    · have hnext := Nat.mul_le_mul_right s.blockSize (Nat.succ_le_of_lt hlow)
      have hwithin := hwf.within b
      rw [Nat.succ_mul] at hnext
      omega
    · have hnone := h b (by omega)
      omega

/-- A file of two blocks of the smallest block size, with two bytes in each. -/
def twoBlocks : Sharded where
  blockSize := 4194304
  size := 4194306
  block b := if b < 2 then some (File.empty.pwrite 0 [1, 2]) else none
  dotShard := true
  pos := by decide

end Sharded

end TagItGluster.Shard
