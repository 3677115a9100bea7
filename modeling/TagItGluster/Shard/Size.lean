import TagItGluster.Base.Machine
import TagItGluster.Shard.Truncate

/-!
# The recorded size of sharded files

Blocks stay well formed whatever is written and truncated. The recorded size is that of the flat
file as long as no write starts within a hole, or finds a block that is shorter than the file is
there: what is missing in front of the write is counted with the growth of the block, and it has
been counted before.
-/

namespace TagItGluster.Shard

open Base

namespace Sharded

/-- A call on a sharded file. -/
def step : FileOp → Option Sharded → Option Sharded
  | .pwrite offset bytes, s => s.bind fun s => s.writev offset bytes
  | .truncate offset, s => s.bind fun s => s.truncate offset

variable {s s' : Sharded} {op : FileOp} {ops : List FileOp}

/-- The recorded size follows a call. -/
def Follows : FileOp → Option Sharded → Prop
  | .pwrite offset bytes, s => ∀ s₀ ∈ s, s₀.CanWrite offset bytes.length
  | .truncate _, _ => True

instance : ∀ op s, Decidable (Follows op s)
  | .pwrite offset bytes, s =>
    inferInstanceAs (Decidable (∀ s₀ ∈ s, s₀.CanWrite offset bytes.length))
  | .truncate _, _ => .isTrue trivial

private lemma step_none (op : FileOp) : step op none = none := by
  cases op with
  | pwrite | truncate => rfl

private lemma run_none (ops : List FileOp) : runAll step ops none = none :=
  runAll_always step (· = none) (fun op s hs => by rw [hs, step_none]) ops rfl

private lemma size_step {f : File} (hsize : s.size = f.size) (hfollows : Follows op (some s))
    (h : step op (some s) = some s') : s'.size = (File.apply op f).size := by
  cases op with
  | pwrite offset bytes =>
    have hcan := hfollows s rfl
    have hwritten := size_writev hcan h
    unfold File.apply
    dsimp only
    by_cases hnil : bytes = []
    · subst hnil
      have hfits : offset ≤ 2 ^ 31 * s.blockSize := hcan.1
      have hblock := writev_nil hfits h
      have hle : offset ≤ s.size := by
        have := hcan.2.1
        omega
      rw [File.pwrite_nil, ← hsize, hwritten]
      exact max_eq_left hle
    · rw [File.size_pwrite _ _ hnil, hwritten, hsize]
  | truncate offset => exact truncate_size h

private lemma size_run {f : File} (hsize : s.size = f.size)
    (hfollows : Throughout step Follows ops (some s)) (h : runAll step ops (some s) = some s') :
    s'.size = (runAll File.apply ops f).size := by
  induction ops generalizing s f with
  | nil =>
    cases h
    exact hsize
  | cons op ops ih =>
    rw [runAll_cons] at h
    cases hop : step op (some s) with
    | none =>
      rw [hop, run_none] at h
      cases h
    | some s₁ =>
      rw [hop] at h
      obtain ⟨hfirst, hrest⟩ := hfollows
      rw [hop] at hrest
      exact ih (size_step hsize hfirst hop) hrest h

/-- The recorded size is the size of the flat file, from a new file on. -/
theorem size_eq_flat (blockSize : Nat) (pos : 0 < blockSize) (dotShard : Bool) (ops : List FileOp)
    (hfollows : Throughout step Follows ops (some (new blockSize pos dotShard)))
    (h : runAll step ops (some (new blockSize pos dotShard)) = some s) :
    s.size = (runAll File.apply ops .empty).size :=
  size_run rfl hfollows h

/-- A whole block is left out, the file is written over, cut within a block and filled up. -/
theorem size_eq_flat_sparse :
    ∃ s, runAll step [.pwrite 0 [1, 2, 3], .pwrite 16777216 [7], .pwrite 1 [8, 9],
        .truncate 2, .pwrite 2 [1, 2, 3, 4]] (some (new 4194304 (by decide) false)) = some s ∧
      s.size = 6 := by
  obtain ⟨s, hs⟩ : ∃ s, runAll step [.pwrite 0 [1, 2, 3], .pwrite 16777216 [7], .pwrite 1 [8, 9],
      .truncate 2, .pwrite 2 [1, 2, 3, 4]] (some (new 4194304 (by decide) false)) =
        some s := ⟨_, rfl⟩
  exact ⟨s, hs, size_eq_flat 4194304 (by decide) false _ (by decide +kernel) hs⟩

/-- With the smallest block size: a write behind a hole in the first block counts the hole twice,
and so does one that fills up the hole in front of a later block. The number of a block wraps
around. -/
theorem size_counts_hole_twice :
    (runAll step [.pwrite 2 [1, 2]] (some (new 4194304 (by decide) false))).map Sharded.size =
      some 6 ∧ (runAll File.apply [.pwrite 2 [1, 2]] .empty).size = 4 ∧
    (runAll step [.pwrite 4194304 [1], .pwrite 0 [2, 3]]
      (some (new 4194304 (by decide) false))).map Sharded.size = some 4194307 ∧
    (runAll File.apply [.pwrite 4194304 [1], .pwrite 0 [2, 3]] .empty).size = 4194305 ∧
    (runAll step [.pwrite 0 [1], .pwrite (2 ^ 54) [2]]
      (some (new 4194304 (by decide) false))).map Sharded.size = some (2 ^ 54) ∧
    (runAll File.apply [.pwrite 0 [1], .pwrite (2 ^ 54) [2]] .empty).size = 2 ^ 54 + 1 := by
  decide +kernel

end Sharded

end TagItGluster.Shard
