import Mathlib.Data.List.Basic
import Mathlib.Tactic.Ring

/-!
# Ranges cut into blocks

A range of offsets is cut where the blocks of a fixed size start. The number of parts is the number
of blocks that the range touches; a loop over the blocks takes one part in each round.
-/

namespace TagItGluster.Base

open List

/-- The number of blocks that a range touches; an empty one touches the block it is in, unless that
starts there. -/
def numParts (bs off len : Nat) : Nat := (off + len + bs - 1) / bs - off / bs

/-- The parts of a range, each with its offset and its length. -/
def parts (bs : Nat) : Nat → Nat → Nat → List (Nat × Nat)
  | 0, _, _ => []
  | num + 1, off, len =>
    let n := min (bs - off % bs) len
    (off, n) :: parts bs num (off + n) (len - n)

variable {bs off len : Nat}

section

variable (hbs : 0 < bs)
include hbs

lemma next_block : off + (bs - off % bs) = (off / bs + 1) * bs := by
  have hsplit := Nat.div_add_mod' off bs
  have hlt := Nat.mod_lt off hbs
  rw [Nat.succ_mul]
  omega

private lemma numParts_one (h : 0 < len ∨ off % bs ≠ 0) (hin : off % bs + len ≤ bs) :
    numParts bs off len = 1 := by
  have hsplit := Nat.div_add_mod' off bs
  have hdiv : (off + len + bs - 1) / bs = off / bs + 1 := by
    refine Nat.div_eq_of_lt_le ?_ ?_
    · rw [Nat.succ_mul]
      rcases h with h | h <;> omega
    · rw [Nat.succ_mul, Nat.succ_mul]
      omega
  rw [numParts, hdiv, Nat.add_sub_cancel_left]

/-- The rest of a block and what is behind it. -/
lemma numParts_succ (h : bs - off % bs ≤ len) :
    numParts bs off len = numParts bs (off + (bs - off % bs)) (len - (bs - off % bs)) + 1 := by
  have hnext : off + (bs - off % bs) = (off / bs + 1) * bs := next_block hbs
  have hceil : off / bs + 1 ≤ (off + len + bs - 1) / bs := by
    rw [Nat.le_div_iff_mul_le hbs]
    omega
  rw [numParts, numParts, hnext, Nat.mul_div_cancel _ hbs,
    show (off / bs + 1) * bs + (len - (bs - off % bs)) = off + len by omega]
  omega

lemma numParts_ne_zero : numParts bs off len ≠ 0 ↔ 0 < len ∨ off % bs ≠ 0 := by
  constructor
  · intro h
    by_contra hnot
    obtain ⟨hlen, hmod⟩ : len = 0 ∧ off % bs = 0 := by
      simpa [Nat.pos_iff_ne_zero] using hnot
    have hsplit := Nat.div_add_mod' off bs
    have hdiv : (off + len + bs - 1) / bs = off / bs := by
      refine Nat.div_eq_of_lt_le (by omega) ?_
      rw [Nat.succ_mul]
      omega
    rw [numParts, hdiv, Nat.sub_self] at h
    exact h rfl
  · intro h
    by_cases hin : off % bs + len ≤ bs
    · rw [numParts_one hbs h hin]
      exact Nat.one_ne_zero
    · rw [numParts_succ hbs (by omega)]
      exact Nat.succ_ne_zero _

/-- Induction over the parts of a range: there is none, there is one within a block, or the rest of
a block comes before others. -/
lemma numParts_induction {P : Nat → Nat → Prop} (zero : ∀ off, numParts bs off 0 = 0 → P off 0)
    (one : ∀ off len, off % bs + len ≤ bs → numParts bs off len = 1 → P off len)
    (succ : ∀ off len, bs - off % bs < len →
      numParts bs off len = numParts bs (off + (bs - off % bs)) (len - (bs - off % bs)) + 1 →
      P (off + (bs - off % bs)) (len - (bs - off % bs)) → P off len) (off len : Nat) :
    P off len := by
  induction hnum : numParts bs off len generalizing off len with
  | zero =>
    obtain ⟨hlen, -⟩ : len = 0 ∧ off % bs = 0 := by
      simpa [pos_iff_ne_zero] using mt (numParts_ne_zero hbs).mpr (not_not.mpr hnum)
    subst hlen
    exact zero off hnum
  | succ num ih =>
    have hlt := Nat.mod_lt off hbs
    by_cases hin : off % bs + len ≤ bs
    · have hspan := (numParts_ne_zero hbs).mp (hnum.trans_ne (Nat.succ_ne_zero num))
      exact one off len hin (numParts_one hbs hspan hin)
    · have hsucc := numParts_succ hbs (show bs - off % bs ≤ len by omega)
      exact succ off len (by omega) hsucc (ih _ _ (by omega))

end

lemma parts_one (hin : off % bs + len ≤ bs) : parts bs 1 off len = [(off, len)] := by
  rw [parts, min_eq_right (by omega), parts]

lemma parts_succ {num : Nat} (h : bs - off % bs ≤ len) : parts bs (num + 1) off len =
      (off, bs - off % bs) :: parts bs num (off + (bs - off % bs)) (len - (bs - off % bs)) := by
  rw [parts, min_eq_left h]

variable (hbs : 0 < bs)
include hbs

/-- Each part is in the range and within a block. -/
lemma mem_parts {part : Nat × Nat} (h : part ∈ parts bs (numParts bs off len) off len) :
    off ≤ part.1 ∧ part.1 + part.2 ≤ off + len ∧ part.1 % bs + part.2 ≤ bs := by
  induction off, len using numParts_induction hbs with
  | zero off hnum =>
    rw [hnum] at h
    cases h
  | one off len hin hnum =>
    rw [hnum, parts_one hin, mem_singleton] at h
    subst h
    exact ⟨le_refl _, le_refl _, hin⟩
  | succ off len hlt hnum ih =>
    have hmod := Nat.mod_lt off hbs
    rw [hnum, parts_succ (by omega), mem_cons] at h
    rcases h with rfl | h
    · exact ⟨le_refl _, by omega, by dsimp only; omega⟩
    · have := ih h
      omega

/-- Each part but the first starts with a block. -/
lemma start_of_mem_parts {part : Nat × Nat} (h : part ∈ parts bs (numParts bs off len) off len) :
    part.1 = off ∨ part.1 % bs = 0 := by
  induction off, len using numParts_induction hbs with
  | zero off hnum =>
    rw [hnum] at h
    cases h
  | one off len hin hnum =>
    rw [hnum, parts_one hin, mem_singleton] at h
    exact .inl (h ▸ rfl)
  | succ off len hlt hnum ih =>
    rw [hnum, parts_succ (by omega), mem_cons] at h
    rcases h with rfl | h
    · exact .inl rfl
    · refine .inr ((ih h).elim (fun hstart => ?_) id)
      rw [hstart, next_block hbs]
      exact Nat.mul_mod_left _ _

/-- What grows with each part by some amount grows over the range by the sum. -/
lemma add_sum_parts {φ : Nat → Nat} {g : Nat × Nat → Nat}
    (h : ∀ part ∈ parts bs (numParts bs off len) off len, φ part.1 + g part = φ (part.1 + part.2)) :
    φ off + ((parts bs (numParts bs off len) off len).map g).sum = φ (off + len) := by
  induction off, len using numParts_induction hbs with
  | zero off hnum =>
    rw [hnum]
    rfl
  | one off len hin hnum =>
    rw [hnum, parts_one hin] at h ⊢
    exact h _ mem_cons_self
  | succ off len hlt hnum ih =>
    rw [hnum, parts_succ (by omega)] at h ⊢
    have hrest := ih fun part hpart => h part (mem_cons_of_mem _ hpart)
    rw [map_cons, sum_cons, ← add_assoc, h _ mem_cons_self, hrest]
    congr 1
    omega

end TagItGluster.Base
