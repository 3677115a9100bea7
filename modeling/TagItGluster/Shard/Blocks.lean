import TagItGluster.Base.File
import TagItGluster.Base.Parts

/-!
# Sharded files

A sharded file is a base file, which has the first block, and one file in the directory `/.shard`
for each other block that exists; its size is kept in an attribute of the base file. The directory
and the blocks of a write are made before it. A call that crashes or is never answered has no
result. The numbers of the first and the last block are of 32 bits. Line numbers:
`xlators/features/shard/src/shard.c`.
-/

namespace TagItGluster.Shard

open Base

/-- The macro `get_lowest_block` (shard.h:31), as it is stored in an `int`. -/
def getLowestBlock (off shardSize : Nat) : Nat := off / shardSize % 2 ^ 32

/-- The macro `get_highest_block` (shard.h:32), as it is stored in an `int`. -/
def getHighestBlock (off len shardSize : Nat) : Nat :=
  (if off + len = 0 then 0 else off + len - 1) / shardSize % 2 ^ 32

lemma getLowestBlock_eq {off shardSize : Nat} (h : off ≤ 2 ^ 31 * shardSize) :
    getLowestBlock off shardSize = off / shardSize := by
  have hle := Nat.div_le_of_le_mul (h.trans_eq (Nat.mul_comm _ _))
  exact Nat.mod_eq_of_lt (by omega)

lemma getHighestBlock_eq {off len shardSize : Nat} (h : off + len ≤ 2 ^ 31 * shardSize)
    (hlen : 0 < off + len) :
    getHighestBlock off len shardSize = (off + len - 1) / shardSize := by
  rw [getHighestBlock, if_neg (by omega)]
  exact getLowestBlock_eq (by omega)

/-- A file with its block size, the size in its attribute and its blocks, and whether there is a
directory for them. -/
structure Sharded where
  blockSize : Nat
  size : Nat
  block : Nat → Option File
  dotShard : Bool
  pos : 0 < blockSize

namespace Sharded

/-- The loop of `shard_writev_do` (2883), with the growth of the blocks that its callbacks add
up. -/
def writeFrom (blockSize : Nat) : Nat → Nat → Nat → List UInt8 → (Nat → Option File) →
    (Nat → Option File) × Nat
  | 0, _, _, _, block => (block, 0)
  | num + 1, curBlock, origOffset, bytes, block =>
    let shardOffset := origOffset % blockSize
    let writeSize := min (blockSize - shardOffset) bytes.length
    let prebuf := (block curBlock).getD .empty
    let postbuf := prebuf.pwrite shardOffset (bytes.take writeSize)
    let rest := writeFrom blockSize num (curBlock + 1) (origOffset + writeSize)
      (bytes.drop writeSize) (Function.update block curBlock (some postbuf))
    (rest.1, postbuf.size - prebuf.size + rest.2)

/-- `shard_writev` (3141). -/
def writev (s : Sharded) (offset : Nat) (bytes : List UInt8) : Option Sharded :=
  let firstBlock := getLowestBlock offset s.blockSize
  let lastBlock := getHighestBlock offset bytes.length s.blockSize
  let numBlocks := lastBlock + 1 - firstBlock
  if numBlocks = 0 then none
  else
    let holeSize := if s.size < offset then offset - s.size else 0
    let r := writeFrom s.blockSize numBlocks firstBlock offset bytes s.block
    some { s with block := r.1, size := s.size + r.2 + holeSize, dotShard := true }

/-- `shard_truncate_htol` (964) and `shard_truncate_last_shard` (937). -/
def truncateBlocks (s : Sharded) (offset firstBlock lastBlock : Nat) : Option Sharded :=
  (s.block firstBlock).map fun f =>
    { s with
      size := offset
      block := fun b =>
        if b = firstBlock then some (f.truncate (offset % s.blockSize))
        else if firstBlock < b ∧ b ≤ lastBlock then none
        else s.block b }

/-- `shard_truncate` (1470) and `shard_ftruncate` (1518). -/
def truncate (s : Sharded) (offset : Nat) : Option Sharded :=
  if s.size = offset then some s
  else if s.size < offset then some { s with size := offset }
  else
    let firstBlock := if offset = 0 then 0 else getLowestBlock (offset - 1) s.blockSize
    let lastBlock := getHighestBlock 0 s.size s.blockSize
    if firstBlock = 0 ∧ lastBlock = 0 then
      (s.block 0).map fun f =>
        { s with size := offset, block := Function.update s.block 0 (some (f.truncate offset)) }
    else if s.dotShard then s.truncateBlocks offset firstBlock lastBlock
    else some { s with size := offset }

/-- The byte that is stored for an offset of the file, zero if there is none. -/
def stored (s : Sharded) (p : Nat) : UInt8 :=
  ((s.block (p / s.blockSize)).getD .empty).byte (p % s.blockSize)

/-- The length of a block, zero if there is none. -/
def blockLength (block : Nat → Option File) (b : Nat) : Nat := ((block b).getD .empty).size

/-- Blocks are not longer than the block size; without a directory there is only the base file. -/
structure WF (s : Sharded) : Prop where
  within : ∀ b, blockLength s.block b ≤ s.blockSize
  base : s.dotShard = false → ∀ b, 0 < blockLength s.block b → b = 0

/-- A new file, in a volume that has the directory or not. -/
def new (blockSize : Nat) (pos : 0 < blockSize) (dotShard : Bool) : Sharded where
  blockSize := blockSize
  size := 0
  block b := if b = 0 then some .empty else none
  dotShard := dotShard
  pos := pos

end Sharded

end TagItGluster.Shard
