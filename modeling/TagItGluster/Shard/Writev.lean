import TagItGluster.Shard.Blocks

/-!
# Writes to sharded files

A write goes to its blocks part by part, and each block grows up to the end of its part. The
recorded size grows with the blocks, and by what is between the end of the file and the write.
-/

namespace TagItGluster.Shard

open Base List Function

namespace Sharded

/-- How much a part of a write makes its block longer. -/
def growth (bs : Nat) (block : Nat → Option File) (part : Nat × Nat) : Nat :=
  if part.2 = 0 then 0 else part.1 % bs + part.2 - blockLength block (part.1 / bs)

variable {bs off len : Nat} {bytes : List UInt8} {block : Nat → Option File}

private lemma size_pwrite_block (block : Nat → Option File) (b off : Nat)
    (hlen : bytes.length = len) : (((block b).getD .empty).pwrite off bytes).size =
      blockLength block b + if len = 0 then 0 else off + len - blockLength block b := by
  unfold blockLength
  subst hlen
  by_cases hnil : bytes = []
  · subst hnil
    simp
  · have hlen : bytes.length ≠ 0 := by simpa using hnil
    rw [File.size_pwrite _ _ hnil, if_neg hlen]
    omega

private lemma blockLength_update_of_ne {b b' : Nat} (f : File) (h : b ≠ b') :
    blockLength (update block b' (some f)) b = blockLength block b := by
  rw [blockLength, blockLength, update_of_ne h]

/-- The parts behind a block are in later ones. -/
lemma lt_div_of_mem_parts {part : Nat × Nat} (hbs : 0 < bs)
    (h : part ∈ parts bs (numParts bs (off + (bs - off % bs)) len) (off + (bs - off % bs)) len) :
    off / bs < part.1 / bs := by
  have hle := (mem_parts hbs h).1
  rw [next_block hbs] at hle
  exact (Nat.le_div_iff_mul_le hbs).mpr hle

/-- The growth of the blocks in the loop of a write. -/
lemma writeFrom_growth (off : Nat) (block : Nat → Option File) (hbs : 0 < bs)
    (hlen : bytes.length = len) :
    (writeFrom bs (numParts bs off len) (off / bs) off bytes block).2 =
      ((parts bs (numParts bs off len) off len).map (growth bs block)).sum := by
  induction off, len using numParts_induction hbs generalizing bytes block with
  | zero off hnum =>
    rw [hnum]
    rfl
  | one off len hin hnum =>
    rw [hnum, parts_one hin]
    have hmin : min (bs - off % bs) bytes.length = bytes.length := by omega
    have hsize := size_pwrite_block block (off / bs) (off % bs) hlen
    simp only [writeFrom, hmin, take_length]
    rw [hsize]
    simp [growth, blockLength]
  | succ off len hlt hnum ih =>
    rw [hnum, parts_succ (by omega)]
    have hmin : min (bs - off % bs) bytes.length = bs - off % bs := by omega
    have hnext : off / bs + 1 = (off + (bs - off % bs)) / bs := by
      rw [next_block hbs, Nat.mul_div_cancel _ hbs]
    have htake : (bytes.take (bs - off % bs)).length = bs - off % bs := by
      rw [length_take]
      omega
    have hdrop : (bytes.drop (bs - off % bs)).length = len - (bs - off % bs) := by
      rw [length_drop, hlen]
    have hsize := size_pwrite_block block (off / bs) (off % bs) htake
    simp only [writeFrom, hmin, hnext]
    generalize ((block (off / bs)).getD .empty).pwrite (off % bs) (bytes.take (bs - off % bs)) =
      postbuf at hsize ⊢
    -- The other parts do not see the block that has been written.
    have hgrowth : ∀ part ∈ parts bs (numParts bs (off + (bs - off % bs)) (len - (bs - off % bs)))
        (off + (bs - off % bs)) (len - (bs - off % bs)),
        growth bs (update block (off / bs) (some postbuf)) part =
          growth bs block part := by
      intro part hpart
      unfold growth
      rw [blockLength_update_of_ne _ (lt_div_of_mem_parts hbs hpart).ne']
    rw [ih (update block (off / bs) (some postbuf)) hdrop, map_congr_left hgrowth, hsize]
    simp [growth, blockLength]

/-- The number of blocks of a write. -/
lemma numBlocks_eq (hbs : 0 < bs) (hfits : off + len ≤ 2 ^ 31 * bs) (h : 0 < off + len) :
    getHighestBlock off len bs + 1 - getLowestBlock off bs = numParts bs off len := by
  rw [getHighestBlock_eq hfits h, getLowestBlock_eq (by omega), numParts,
    show off + len + bs - 1 = off + len - 1 + bs by omega, Nat.add_div_right _ hbs]

variable {s s' : Sharded}

/-- The size that a write records. -/
lemma writev_size (hfits : off + bytes.length ≤ 2 ^ 31 * s.blockSize)
    (h : s.writev off bytes = some s') : s'.size = max s.size off +
      ((parts s.blockSize (numParts s.blockSize off bytes.length) off bytes.length).map
        (growth s.blockSize s.block)).sum := by
  have hhole : ∀ grown, s.size + grown + (if s.size < off then off - s.size else 0) =
      max s.size off + grown := by
    intro grown
    split
    · omega
    · omega
  unfold writev at h
  dsimp only at h
  split at h
  · cases h
  obtain rfl := Option.some.inj h
  rw [hhole]
  by_cases hzero : off + bytes.length = 0
  · -- An empty write at the start has one block, which does not change.
    obtain ⟨rfl, hnil⟩ := Nat.add_eq_zero_iff.mp hzero
    rw [eq_nil_of_length_eq_zero hnil]
    have hnum : numParts s.blockSize 0 ([] : List UInt8).length = 0 := by
      by_contra hne
      rcases (numParts_ne_zero s.pos).mp hne with hlen | hmod
      · exact absurd hlen (lt_irrefl 0)
      · exact hmod (Nat.zero_mod _)
    have hblocks : getHighestBlock 0 ([] : List UInt8).length s.blockSize + 1 -
        getLowestBlock 0 s.blockSize = 1 := by
      simp [getHighestBlock, getLowestBlock]
    rw [hnum, hblocks]
    simp [writeFrom, parts]
  · rw [numBlocks_eq s.pos hfits (by omega), getLowestBlock_eq (by omega),
      writeFrom_growth off s.block s.pos rfl]

/-- An empty write is not answered where a block starts. -/
lemma writev_nil (hfits : off ≤ 2 ^ 31 * s.blockSize) (h : s.writev off [] = some s') :
    off = 0 ∨ off % s.blockSize ≠ 0 := by
  by_cases hzero : off = 0
  · exact .inl hzero
  unfold writev at h
  dsimp only at h
  split at h
  · cases h
  · next hnum =>
    rw [numBlocks_eq s.pos hfits (by omega)] at hnum
    exact .inr (((numParts_ne_zero s.pos).mp hnum).resolve_left (lt_irrefl 0))

/-- A part of a write finds its block as long as the file is there, or ends before the ends of
both. -/
def Filled (s : Sharded) (part : Nat × Nat) : Prop :=
  let b := part.1 / s.blockSize
  blockLength s.block b = min s.blockSize (s.size - b * s.blockSize) ∨
    part.1 % s.blockSize + part.2 ≤ blockLength s.block b ∧ part.1 + part.2 ≤ s.size

instance (s : Sharded) (part : Nat × Nat) : Decidable (s.Filled part) :=
  inferInstanceAs (Decidable (_ ∨ _ ∧ _))

/-- A write that the recorded size follows: its blocks have numbers below `2 ^ 31`, it starts at the
end of the file or in front of it, or at a block, and finds its blocks filled. -/
def CanWrite (s : Sharded) (off len : Nat) : Prop :=
  off + len ≤ 2 ^ 31 * s.blockSize ∧ (off ≤ s.size ∨ off % s.blockSize = 0) ∧
    ∀ part ∈ parts s.blockSize (numParts s.blockSize off len) off len, s.Filled part

instance (s : Sharded) (off len : Nat) : Decidable (s.CanWrite off len) :=
  inferInstanceAs (Decidable (_ ∧ _ ∧ _))

lemma size_writev (hcan : s.CanWrite off bytes.length) (h : s.writev off bytes = some s') :
    s'.size = max s.size (off + bytes.length) := by
  obtain ⟨hfits, hstart, hfilled⟩ := hcan
  rw [writev_size hfits h]
  refine add_sum_parts s.pos fun part hpart => ?_
  have hin := (mem_parts s.pos hpart).2.2
  have hstart : part.1 ≤ s.size ∨ part.1 % s.blockSize = 0 := by
    rcases start_of_mem_parts s.pos hpart with hfirst | hblock
    · rw [hfirst]
      exact hstart
    · exact .inr hblock
  have hpart := hfilled part hpart
  have hsplit := Nat.div_add_mod' part.1 s.blockSize
  unfold Filled at hpart
  unfold growth
  split
  · omega
  · omega

end Sharded

end TagItGluster.Shard
