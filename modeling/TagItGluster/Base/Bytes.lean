import Mathlib.Algebra.Group.Int.Defs
import Mathlib.Data.List.TakeDrop
import Mathlib.Data.List.TakeWhile

/-!
# Blocks of memory

What is read at a position of memory: a block of a given length, or a text that ends at the first
zero. A position may be negative and a block may reach past the end; nothing can be read there.
-/

namespace TagItGluster.Base

open List

section

variable {α : Type}

/-- The `n` cells from `pos` on, if they all exist. -/
def blockAt (mem : List α) (pos n : Int) : Option (List α) :=
  if 0 ≤ pos ∧ 0 ≤ n ∧ pos + n ≤ mem.length then some ((mem.drop pos.toNat).take n.toNat) else none

variable {mem as bs : List α} {pos n : Int}

lemma blockAt_eq_some : blockAt mem pos n = some bs ↔
      ∃ as cs, mem = as ++ (bs ++ cs) ∧ pos = as.length ∧ n = bs.length := by
  unfold blockAt
  constructor
  · intro h
    split at h
    · next hin =>
      obtain rfl := Option.some.inj h
      refine ⟨mem.take pos.toNat, (mem.drop pos.toNat).drop n.toNat, ?_, ?_, ?_⟩
      · rw [take_append_drop, take_append_drop]
      · rw [length_take]
        omega
      · rw [length_take, length_drop]
        omega
    · cases h
  · rintro ⟨as, cs, rfl, rfl, rfl⟩
    rw [if_pos, Int.toNat_natCast, Int.toNat_natCast, drop_left, take_left]
    simp only [length_append]
    omega

lemma length_of_blockAt (h : blockAt mem pos n = some bs) : n = bs.length := by
  obtain ⟨-, -, -, -, hn⟩ := blockAt_eq_some.mp h
  exact hn

lemma blockAt_bounds (h : blockAt mem pos n = some bs) :
    0 ≤ pos ∧ 0 ≤ n ∧ pos + n ≤ mem.length := by
  unfold blockAt at h
  split at h
  · next hin => exact hin
  · cases h

/-- Two blocks behind one another are one block. -/
lemma blockAt_append : blockAt mem pos (as ++ bs).length = some (as ++ bs) ↔
      blockAt mem pos as.length = some as ∧
        blockAt mem (pos + as.length) bs.length = some bs := by
  constructor
  · intro h
    obtain ⟨xs, ys, rfl, rfl, -⟩ := blockAt_eq_some.mp h
    refine ⟨blockAt_eq_some.mpr ⟨xs, bs ++ ys, ?_, rfl, rfl⟩,
      blockAt_eq_some.mpr ⟨xs ++ as, ys, ?_, ?_, rfl⟩⟩
    · rw [append_assoc]
    · rw [append_assoc, append_assoc]
    · rw [length_append, Int.natCast_add]
  · rintro ⟨has, hbs⟩
    obtain ⟨xs, ys, rfl, rfl, -⟩ := blockAt_eq_some.mp has
    obtain ⟨xs', ys', heq, hlen, -⟩ := blockAt_eq_some.mp hbs
    rw [← append_assoc] at heq
    obtain ⟨hl, rfl⟩ := append_inj heq (by rw [length_append]; omega)
    refine blockAt_eq_some.mpr ⟨xs, ys', ?_, rfl, rfl⟩
    rw [append_assoc]

lemma blockAt_self (mem : List α) : blockAt mem 0 mem.length = some mem :=
  blockAt_eq_some.mpr ⟨[], [], by simp, rfl, rfl⟩

end

/-- The text at a position, up to the first zero. -/
def stringAt (mem : List UInt8) (pos : Int) : Option (List UInt8) :=
  if 0 ≤ pos ∧ 0 ∈ mem.drop pos.toNat then some ((mem.drop pos.toNat).takeWhile (· ≠ 0)) else none

variable {mem s : List UInt8} {pos : Int}

lemma takeWhile_ne_zero {rest : List UInt8} (h : 0 ∉ s) :
    (s ++ 0 :: rest).takeWhile (· ≠ 0) = s := by
  rw [takeWhile_append_of_pos, takeWhile_cons_of_neg (by simp), append_nil]
  intro b hb
  simpa using fun hzero : b = 0 => h (hzero ▸ hb)

lemma stringAt_eq_some : stringAt mem pos = some s ↔
      0 ∉ s ∧ blockAt mem pos (s ++ [0]).length = some (s ++ [0]) := by
  unfold stringAt
  constructor
  · intro h
    split at h
    · next hin =>
      obtain rfl := Option.some.inj h
      obtain ⟨hpos, hzero⟩ := hin
      obtain ⟨as, rest, hsplit, hnot⟩ := eq_append_cons_of_mem hzero
      have hlt : pos.toNat < mem.length := by
        have hlen := congrArg List.length hsplit
        rw [length_drop, length_append, length_cons] at hlen
        omega
      rw [hsplit, takeWhile_ne_zero hnot]
      refine ⟨hnot, blockAt_eq_some.mpr ⟨mem.take pos.toNat, rest, ?_, ?_, rfl⟩⟩
      · rw [append_assoc, singleton_append, ← hsplit, take_append_drop]
      · rw [length_take]
        omega
    · cases h
  · rintro ⟨hnot, h⟩
    obtain ⟨as, cs, rfl, rfl, -⟩ := blockAt_eq_some.mp h
    rw [Int.toNat_natCast, drop_left, if_pos ⟨by omega, by simp⟩, append_assoc,
      singleton_append, takeWhile_ne_zero hnot]

end TagItGluster.Base
