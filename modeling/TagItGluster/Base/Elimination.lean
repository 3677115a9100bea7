import Mathlib.Algebra.BigOperators.Field
import Mathlib.LinearAlgebra.Vandermonde

/-!
# Inverting a matrix in place

Gauss-Jordan elimination without a search for pivots, on a matrix and a second one that starts as
the identity. Each stage divides a row by its entry on the diagonal and clears the column in all
other rows. What is done to the one matrix is done to the other, so the second one times the
original is always the first one. A zero on the diagonal would be a combination of rows that
vanishes on a leading block, so none is met if there is no such combination.
-/

namespace TagItGluster.Base

variable {K : Type} [Field K] {n : ℕ}

/-- A matrix under reduction, and what becomes its inverse. -/
@[ext]
structure Sweep (n : ℕ) (K : Type) where
  mtx : Matrix (Fin n) (Fin n) K
  inv : Matrix (Fin n) (Fin n) K

/-- The row is divided by its pivot, and then its column is cleared in all others. -/
def Sweep.stage (i : Fin n) (s : Sweep n K) : Sweep n K where
  mtx r c := if r = i then s.mtx i c / s.mtx i i
    else s.mtx r c - s.mtx i c / s.mtx i i * s.mtx r i
  inv r c := if r = i then s.inv i c / s.mtx i i
    else s.inv r c - s.inv i c / s.mtx i i * s.mtx r i

section

variable (s : Sweep n K) (i c : Fin n) {r : Fin n}

lemma Sweep.stage_mtx_self : (s.stage i).mtx i c = s.mtx i c / s.mtx i i := if_pos rfl

lemma Sweep.stage_inv_self : (s.stage i).inv i c = s.inv i c / s.mtx i i := if_pos rfl

lemma Sweep.stage_mtx_of_ne (h : r ≠ i) :
    (s.stage i).mtx r c = s.mtx r c - s.mtx i c / s.mtx i i * s.mtx r i :=
  if_neg h

lemma Sweep.stage_inv_of_ne (h : r ≠ i) :
    (s.stage i).inv r c = s.inv r c - s.inv i c / s.mtx i i * s.mtx r i :=
  if_neg h

end

/-- No combination of the first rows, with the last of them in it, vanishes on as many columns. -/
def Regular (A : Matrix (Fin n) (Fin n) K) : Prop :=
  ∀ (i : Fin n) (v : Fin n → K), (∀ r, i < r → v r = 0) → (∀ c ≤ i, ∑ r, v r * A r c = 0) → v i = 0

/-- The first stages are done: those columns are unit vectors, and the others of the second matrix
still are. -/
structure Swept (A : Matrix (Fin n) (Fin n) K) (k : ℕ) (s : Sweep n K) : Prop where
  product : ∀ r c : Fin n, ∑ t, s.inv r t * A t c = s.mtx r c
  done : ∀ r c : Fin n, (c : ℕ) < k → s.mtx r c = if r = c then 1 else 0
  rest : ∀ r c : Fin n, k ≤ (c : ℕ) → s.inv r c = if r = c then 1 else 0

namespace Swept

variable {A : Matrix (Fin n) (Fin n) K} {s : Sweep n K}

lemma start (A : Matrix (Fin n) (Fin n) K) : Swept A 0 ⟨A, fun r c => if r = c then 1 else 0⟩ where
  product r c := by simp
  done _ _ h := absurd h (Nat.not_lt_zero _)
  rest _ _ _ := rfl

/-- The diagonal has no zero where the next stage begins. -/
lemma pivot_ne_zero {i : Fin n} (h : Swept A i s) (hA : Regular A) : s.mtx i i ≠ 0 := by
  intro hzero
  have hlast : s.inv i i = 1 := (h.rest i i le_rfl).trans (if_pos rfl)
  refine one_ne_zero (hlast.symm.trans (hA i (s.inv i) (fun r hr => ?_) fun c hc => ?_))
  · exact (h.rest i r (le_of_lt hr)).trans (if_neg (ne_of_lt hr))
  · rw [h.product]
    rcases lt_or_eq_of_le hc with hlt | rfl
    · exact (h.done i c hlt).trans (if_neg (ne_of_gt hlt))
    · exact hzero

lemma stage {i : Fin n} (h : Swept A i s) (hA : Regular A) : Swept A (i + 1) (s.stage i) := by
  have hp := h.pivot_ne_zero hA
  refine ⟨fun r c => ?_, fun r c hc => ?_, fun r c hc => ?_⟩
  · simp only [Sweep.stage]
    split
    · rw [← h.product i c, Finset.sum_div]
      exact Finset.sum_congr rfl fun t _ => (div_mul_eq_mul_div _ _ _)
    · rw [← h.product r c, ← h.product i c, Finset.sum_div, Finset.sum_mul,
        ← Finset.sum_sub_distrib]
      exact Finset.sum_congr rfl fun t _ => by ring
  · simp only [Sweep.stage]
    rcases Nat.lt_succ_iff_lt_or_eq.mp hc with hlt | heq
    · -- A column that was done: the row of the pivot is zero there.
      have hne : i ≠ c := Fin.ne_of_gt hlt
      have hic : s.mtx i c = 0 := (h.done i c hlt).trans (if_neg hne)
      rw [hic, zero_div, zero_mul, sub_zero]
      split
      · next hr => rw [hr, if_neg hne]
      · exact h.done r c hlt
    · obtain rfl : c = i := Fin.ext heq
      rw [div_self hp, one_mul, sub_self]
  · -- A column of the second matrix that is not touched: its row of the pivot is zero.
    have hic : s.inv i c = 0 := by
      refine (h.rest i c (Nat.le_of_succ_le hc)).trans (if_neg ?_)
      rintro rfl
      exact absurd hc (Nat.not_succ_le_self _)
    simp only [Sweep.stage]
    rw [hic, zero_div, zero_mul, sub_zero]
    split
    · next hr =>
      rw [hr, ← h.rest i c (Nat.le_of_succ_le hc), hic]
    · exact h.rest r c (Nat.le_of_succ_le hc)

/-- When all stages are done, the second matrix is the inverse. -/
lemma inverse (h : Swept A n s) (r c : Fin n) :
    ∑ t, s.inv r t * A t c = if r = c then 1 else 0 :=
  (h.product r c).trans (h.done r c c.isLt)

end Swept

/-- Falling powers of distinct elements other than zero: a combination of the first rows that
vanishes on as many columns would vanish on a Vandermonde matrix. -/
lemma regular_powers {x : Fin n → K} (hinj : Function.Injective x) (hne : ∀ r, x r ≠ 0) :
    Regular (fun r c => x r ^ (n - 1 - (c : ℕ)) : Matrix (Fin n) (Fin n) K) := by
  intro i v hv hsum
  have hle : i + 1 ≤ n := i.isLt
  let e : Fin (i + 1) → Fin n := Fin.castLE hle
  have he : Function.Injective e := Fin.castLE_injective hle
  have hout : ∀ r, r ∉ Set.range e → i < r := by
    intro r hr
    by_contra hir
    exact hr ⟨⟨r, Nat.lt_succ_of_le (not_lt.mp hir)⟩, rfl⟩
  have hzero : (fun j => v (e j) * x (e j) ^ (n - 1 - i)) = 0 := by
    refine Matrix.eq_zero_of_forall_pow_sum_mul_pow_eq_zero (hinj.comp he) fun k => ?_
    have hk : (i : ℕ) - k ≤ i := Nat.sub_le _ _
    rw [← hsum ⟨i - k, lt_of_le_of_lt hk i.isLt⟩ hk]
    refine Fintype.sum_of_injective e he _ _ (fun r hr => by rw [hv r (hout r hr), zero_mul]) ?_
    intro j
    have hexp : n - 1 - (i - k) = n - 1 - i + k := by omega
    show v (e j) * x (e j) ^ (n - 1 - i) * x (e j) ^ (k : ℕ) = v (e j) * x (e j) ^ (n - 1 - (i - k))
    rw [hexp, pow_add, mul_assoc]
  have hlast := congrFun hzero (Fin.last i)
  exact (mul_eq_zero.mp hlast).resolve_right (pow_ne_zero _ (hne _))

/-- A sum of products as a chain of quotients: dividing by each factor what the last one has
multiplied puts the next value in its place. -/
lemma mul_quotient_add {a : K} (ha : a ≠ 0) (last out e : K) :
    a * (last / a * out + e) = last * out + a * e := by
  rw [mul_add, ← mul_assoc, mul_div_cancel₀ last ha]

/-- The value of a polynomial, from the highest coefficient on. -/
lemma sum_falling_succ (x : K) (d : ℕ → K) (m : ℕ) : ∑ t ∈ Finset.range (m + 1), x ^ (m - t) * d t =
      x * ∑ t ∈ Finset.range m, x ^ (m - 1 - t) * d t + d m := by
  rw [Finset.sum_range_succ, Nat.sub_self, pow_zero, one_mul, Finset.mul_sum]
  congr 1
  refine Finset.sum_congr rfl fun t ht => ?_
  have hexp : m - t = m - 1 - t + 1 := by
    have := Finset.mem_range.mp ht
    omega
  rw [hexp, pow_succ', mul_assoc]

end TagItGluster.Base
