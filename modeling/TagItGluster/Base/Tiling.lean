import Mathlib.Data.List.Basic

/-!
# Areas side by side

Areas with a start and a length tile a range if each starts where the one before it ends. Then no
two of them overlap and none leaves the range, and one more can be put behind the last.
-/

namespace TagItGluster.Base

variable {α : Type} (start len : α → Nat)

/-- The areas follow each other from `a` to `b`. -/
def Tiles : Nat → List α → Nat → Prop
  | a, [], b => a = b
  | a, x :: xs, b => start x = a ∧ Tiles (a + len x) xs b

variable {start len} {a b : Nat} {x : α} {xs : List α}
  (h : Tiles start len a xs b)
include h

lemma Tiles.append (hx : start x = b) : Tiles start len a (xs ++ [x]) (b + len x) := by
  induction xs generalizing a with
  | nil => exact ⟨hx.trans (Eq.symm h), congrArg (· + len x) h⟩
  | cons y xs ih => exact ⟨h.1, ih h.2⟩

private lemma Tiles.le : a ≤ b := by
  induction xs generalizing a with
  | nil => exact Nat.le_of_eq h
  | cons y xs ih => exact Nat.le_trans (Nat.le_add_right a (len y)) (ih h.2)

lemma Tiles.inside (hx : x ∈ xs) : a ≤ start x ∧ start x + len x ≤ b := by
  induction xs generalizing a with
  | nil => cases hx
  | cons y xs ih =>
    obtain ⟨hstart, hrest⟩ := h
    rcases List.mem_cons.mp hx with rfl | hx
    · exact ⟨Nat.le_of_eq hstart.symm, hstart ▸ hrest.le⟩
    · have := ih hrest hx
      omega

/-- An area ends before a later one starts. -/
lemma Tiles.pairwise : xs.Pairwise fun x y => start x + len x ≤ start y := by
  induction xs generalizing a with
  | nil => exact .nil
  | cons y xs ih =>
    obtain ⟨hstart, hrest⟩ := h
    refine List.pairwise_cons.mpr ⟨?_, ih hrest⟩
    intro x hx
    rw [hstart]
    exact (hrest.inside hx).1

end TagItGluster.Base
