import Mathlib.Algebra.Field.Basic
import Mathlib.Data.Fintype.EquivFin

/-!
# Fields generated by a shift

A commutative group with a shift, which respects sums, and an element from which the shift leads
through all others but zero and back. The products of shifted elements are defined by shifting on,
and with them the group is a field: what the shift does to one element it does to all.
-/

namespace TagItGluster.Base

variable {K : Type} [AddCommGroup K] [DecidableEq K]

/-- A shift that takes one element through all others but zero. -/
structure Shifts (K : Type) [AddCommGroup K] where
  shift : K →+ K
  one : K
  one_ne_zero : one ≠ 0
  log : K → ℕ
  shift_log : ∀ a ≠ 0, shift^[log a] one = a
  order : ℕ
  order_pos : 0 < order
  shift_order : shift^[order] one = one
  log_le : ∀ a ≠ 0, log a ≤ order

namespace Shifts

variable (S : Shifts K)

/-- Shift on by the logarithm of the first factor. -/
def mul (a b : K) : K := if a = 0 then 0 else S.shift^[S.log a] b

/-- What is missing to a full turn. -/
def inv (a : K) : K := if a = 0 then 0 else S.shift^[S.order - S.log a] S.one

omit [DecidableEq K] in
private lemma iterate_comm (i j : ℕ) (a : K) :
    S.shift^[i] (S.shift^[j] a) = S.shift^[j] (S.shift^[i] a) := by
  rw [← Function.iterate_add_apply, ← Function.iterate_add_apply, Nat.add_comm]

omit [DecidableEq K] in
private lemma iterate_congr {i j : ℕ} (h : S.shift^[i] S.one = S.shift^[j] S.one) (a : K) :
    S.shift^[i] a = S.shift^[j] a := by
  rcases eq_or_ne a 0 with rfl | ha
  · rw [iterate_map_zero, iterate_map_zero]
  · rw [← S.shift_log a ha, S.iterate_comm, h, S.iterate_comm]

omit [DecidableEq K] in
private lemma iterate_order (a : K) : S.shift^[S.order] a = a :=
  S.iterate_congr (j := 0) S.shift_order a

omit [DecidableEq K] in
lemma iterate_ne_zero {a : K} (ha : a ≠ 0) (i : ℕ) : S.shift^[i] a ≠ 0 := by
  intro h
  -- After as many turns as there were shifts, zero would be back at the element.
  have hturns : S.shift^[S.order * i] a = a := by
    rw [Function.iterate_mul]
    exact Function.iterate_fixed (S.iterate_order a) i
  obtain ⟨k, hk⟩ := Nat.exists_eq_add_of_le (Nat.le_mul_of_pos_left i S.order_pos)
  rw [hk, Nat.add_comm, Function.iterate_add_apply, h, iterate_map_zero] at hturns
  exact ha hturns.symm

lemma mul_iterate (i : ℕ) (b : K) : S.mul (S.shift^[i] S.one) b = S.shift^[i] b := by
  have hne := S.iterate_ne_zero S.one_ne_zero i
  rw [mul, if_neg hne]
  exact S.iterate_congr (S.shift_log _ hne) b

private lemma zero_mul' (b : K) : S.mul 0 b = 0 := if_pos rfl

private lemma mul_zero' (a : K) : S.mul a 0 = 0 := by
  rw [mul]
  split
  · rfl
  · exact iterate_map_zero S.shift _

private lemma one_mul' (b : K) : S.mul S.one b = b := S.mul_iterate 0 b

private lemma mul_comm' (a b : K) : S.mul a b = S.mul b a := by
  rcases eq_or_ne a 0 with rfl | ha
  · rw [zero_mul', mul_zero']
  rcases eq_or_ne b 0 with rfl | hb
  · rw [zero_mul', mul_zero']
  rw [← S.shift_log a ha, ← S.shift_log b hb, mul_iterate, mul_iterate, iterate_comm]

private lemma mul_assoc' (a b c : K) : S.mul (S.mul a b) c = S.mul a (S.mul b c) := by
  rcases eq_or_ne a 0 with rfl | ha
  · rw [zero_mul', zero_mul', zero_mul']
  rcases eq_or_ne b 0 with rfl | hb
  · rw [mul_zero', zero_mul', mul_zero']
  rw [← S.shift_log a ha, ← S.shift_log b hb, mul_iterate, mul_iterate, mul_iterate,
    ← Function.iterate_add_apply, mul_iterate, Function.iterate_add_apply]

private lemma mul_add' (a b c : K) : S.mul a (b + c) = S.mul a b + S.mul a c := by
  simp only [mul]
  split
  · rw [add_zero]
  · exact iterate_map_add S.shift _ b c

private lemma mul_inv' {a : K} (ha : a ≠ 0) : S.mul a (S.inv a) = S.one := by
  rw [mul, inv, if_neg ha, if_neg ha, ← Function.iterate_add_apply,
    Nat.add_sub_cancel' (S.log_le a ha), S.shift_order]

/-- The group with these products is a field. -/
abbrev toField : Field K where
  __ := (inferInstance : AddCommGroup K)
  mul := S.mul
  one := S.one
  inv := S.inv
  left_distrib := S.mul_add'
  right_distrib a b c := by
    show S.mul (a + b) c = S.mul a c + S.mul b c
    rw [S.mul_comm', S.mul_add', S.mul_comm' c, S.mul_comm' c]
  zero_mul := S.zero_mul'
  mul_zero := S.mul_zero'
  mul_assoc := S.mul_assoc'
  one_mul := S.one_mul'
  mul_one a := (S.mul_comm' a S.one).trans (S.one_mul' a)
  mul_comm := S.mul_comm'
  exists_pair_ne := ⟨S.one, 0, S.one_ne_zero⟩
  mul_inv_cancel a ha := S.mul_inv' ha
  inv_zero := if_pos rfl
  nnqsmul := _
  nnqsmul_def := fun _ _ => rfl
  qsmul := _
  qsmul_def := fun _ _ => rfl

end Shifts

variable {K : Type} [AddCommGroup K] [Fintype K] {shift : K →+ K} {one : K} {order : ℕ}

omit [Fintype K] in
/-- Shifted elements less than a turn apart are different. -/
lemma iterate_ne_iterate (hturn : shift^[order] one = one)
    (hfirst : ∀ d, 0 < d → d < order → shift^[d] one ≠ one) {i j : ℕ} (hij : i < j)
    (hi : i ≤ order) (hj : j - i < order) : shift^[i] one ≠ shift^[j] one := by
  intro h
  refine hfirst (j - i) (Nat.sub_pos_of_lt hij) hj ?_
  -- Both are shifted on to the end of the turn.
  have hon := congrArg (shift^[order - i]) h
  rw [← Function.iterate_add_apply, ← Function.iterate_add_apply,
    show order - i + i = order by omega, show order - i + j = j - i + order by omega,
    Function.iterate_add_apply _ (j - i), hturn] at hon
  exact hon.symm

/-- A shift that returns to one only when it has been through as many elements as there are besides
zero has been through all of them. -/
lemma exists_iterate (hone : one ≠ 0) (hcard : Fintype.card K = order + 1)
    (hturn : shift^[order] one = one) (hfirst : ∀ d, 0 < d → d < order → shift^[d] one ≠ one)
    {a : K} (ha : a ≠ 0) : ∃ i ≤ order, shift^[i] one = a := by
  classical
  have hne : ∀ i < order, shift^[i] one ≠ 0 := by
    intro i hi h
    have hon := congrArg (shift^[order - i]) h
    rw [← Function.iterate_add_apply, Nat.sub_add_cancel hi.le, hturn, iterate_map_zero] at hon
    exact hone hon
  have hinj : Set.InjOn (fun i => shift^[i] one) (Finset.range order) := by
    intro i hi j hj h
    have hi' := Finset.mem_range.mp hi
    have hj' := Finset.mem_range.mp hj
    rcases lt_trichotomy i j with hij | hij | hij
    · exact absurd h (iterate_ne_iterate hturn hfirst hij hi'.le (by omega))
    · exact hij
    · exact absurd h.symm (iterate_ne_iterate hturn hfirst hij hj'.le (by omega))
  have hall : (Finset.range order).image (fun i => shift^[i] one) = Finset.univ.erase 0 := by
    refine Finset.eq_of_subset_of_card_le (fun b hb => ?_) ?_
    · obtain ⟨i, hi, rfl⟩ := Finset.mem_image.mp hb
      exact Finset.mem_erase.mpr ⟨hne i (Finset.mem_range.mp hi), Finset.mem_univ _⟩
    · rw [Finset.card_image_of_injOn hinj, Finset.card_range,
        Finset.card_erase_of_mem (Finset.mem_univ _), Finset.card_univ, hcard]
      exact le_rfl
  have hmem : a ∈ Finset.univ.erase 0 := Finset.mem_erase.mpr ⟨ha, Finset.mem_univ a⟩
  rw [← hall] at hmem
  obtain ⟨i, hi, hia⟩ := Finset.mem_image.mp hmem
  exact ⟨i, (Finset.mem_range.mp hi).le, hia⟩

open Classical in
/-- The shifts of a finite group by their order. -/
noncomputable def Shifts.ofOrder (shift : K →+ K) (one : K) (order : ℕ) (hone : one ≠ 0)
    (hcard : Fintype.card K = order + 1) (hturn : shift^[order] one = one)
    (hfirst : ∀ d, 0 < d → d < order → shift^[d] one ≠ one) : Shifts K where
  shift := shift
  one := one
  one_ne_zero := hone
  log a := if ha : a ≠ 0 then (exists_iterate hone hcard hturn hfirst ha).choose else 0
  shift_log a ha := by
    rw [dif_pos ha]
    exact (exists_iterate hone hcard hturn hfirst ha).choose_spec.2
  order := order
  order_pos := by
    by_contra hzero
    have : Fintype.card K ≤ 1 := by omega
    exact hone ((Fintype.card_le_one_iff.mp this) one 0)
  shift_order := hturn
  log_le a ha := by
    rw [dif_pos ha]
    exact (exists_iterate hone hcard hturn hfirst ha).choose_spec.1

end TagItGluster.Base
