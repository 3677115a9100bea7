import Mathlib.Algebra.GroupWithZero.Nat
import Mathlib.Data.List.Basic

/-!
# Ranges on a circle

A circle of `M` points and ranges of points on it, each of which may go around the end. A chain
of ranges, where each begins behind the last point of the one before, that comes back to where
it has begun goes around the circle a number of times, and every point is in as many of its
ranges.
-/

namespace TagItGluster.Base

/-- How far it is from `p` on to `x`, on a circle of `M` points. -/
def gap (M p x : Nat) : Nat := if p ≤ x then x - p else x + M - p

lemma gap_cases (M p x : Nat) :
    p ≤ x ∧ gap M p x = x - p ∨ x < p ∧ gap M p x = x + M - p := by
  unfold gap
  split <;> omega

/-- The points from `start` on to `stop`. -/
structure Arc (M : Nat) where
  start : Nat
  stop : Nat
  start_lt : start < M
  stop_lt : stop < M

variable {M : Nat}

namespace Arc

/-- Number of points. -/
def size (a : Arc M) : Nat := gap M a.start a.stop + 1

/-- The point is in the range. -/
def Spans (x : Nat) (a : Arc M) : Prop := gap M a.start x ≤ gap M a.start a.stop

instance (x : Nat) (a : Arc M) : Decidable (a.Spans x) := inferInstanceAs (Decidable (_ ≤ _))

/-- The point behind the range. -/
def next (a : Arc M) : Nat := if a.stop + 1 = M then 0 else a.stop + 1

lemma next_cases (a : Arc M) :
    a.stop + 1 = M ∧ a.next = 0 ∨ a.stop + 1 < M ∧ a.next = a.stop + 1 := by
  have h := a.stop_lt
  unfold next
  split <;> omega

end Arc

/-- Number of points of all ranges, with multiplicity. -/
def totalSize (as : List (Arc M)) : Nat := (as.map Arc.size).sum

/-- The first range begins at `p`, each other one behind the one before, and `q` is the point
behind the last one. -/
def Chained : Nat → List (Arc M) → Nat → Prop
  | p, [], q => p = q
  | p, a :: as, q => a.start = p ∧ Chained a.next as q

instance decidableChained : ∀ (p : Nat) (as : List (Arc M)) (q : Nat), Decidable (Chained p as q)
  | p, [], q => inferInstanceAs (Decidable (p = q))
  | p, a :: as, q =>
    have := decidableChained a.next as q
    inferInstanceAs (Decidable (a.start = p ∧ Chained a.next as q))

lemma Chained.append {as bs : List (Arc M)} {p q r : Nat} (h : Chained p as q)
    (h' : Chained q bs r) : Chained p (as ++ bs) r := by
  induction as generalizing p with
  | nil =>
    obtain rfl : p = q := h
    exact h'
  | cons a as ih => exact ⟨h.1, ih h.2⟩

-- Going along a range, a point comes nearer by the size, or is passed once.
private lemma size_add_gap (a : Arc M) {x : Nat} (hx : x < M) :
    a.size + gap M a.next x = gap M a.start x + if a.Spans x then M else 0 := by
  have h₁ := a.start_lt
  have h₃ := gap_cases M a.start x
  have h₄ := gap_cases M a.start a.stop
  have h₅ := gap_cases M a.next x
  have h₆ := a.next_cases
  unfold Arc.size
  by_cases hs : a.Spans x
  · rw [if_pos hs]
    unfold Arc.Spans at hs
    omega
  · rw [if_neg hs]
    unfold Arc.Spans at hs
    omega

/-- How often a chain passes a point, by its total size. -/
lemma Chained.count {as : List (Arc M)} {p q x : Nat} (hx : x < M) (h : Chained p as q) :
    totalSize as + gap M q x = gap M p x + M * as.countP (fun a => a.Spans x) := by
  induction as generalizing p with
  | nil =>
    obtain rfl : p = q := h
    simp [totalSize]
  | cons a as ih =>
    obtain ⟨rfl, h⟩ := h
    have hrest := ih h
    have hfirst := size_add_gap a hx
    simp only [totalSize, List.map_cons, List.sum_cons, List.countP_cons, decide_eq_true_eq] at *
    split at hfirst
    · next hs =>
      rw [if_pos hs, Nat.mul_add]
      omega
    · next hs =>
      rw [if_neg hs, Nat.add_zero]
      omega

/-- A chain that comes back to its beginning passes every point as often. -/
lemma Chained.count_loop {as : List (Arc M)} {p x : Nat} (hx : x < M) (h : Chained p as p) :
    totalSize as = M * as.countP (fun a => a.Spans x) := by
  have hcount := h.count hx
  omega

end TagItGluster.Base
