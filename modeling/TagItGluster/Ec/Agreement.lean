import TagItGluster.Ec.Answers

/-!
# When answers agree

Two lists of attributes agree if no attributes differ that have to be the same on all bricks, which
depends on the inodes that the operation has locked.
-/

namespace TagItGluster.Ec

open Base List Libglusterfs

variable {fop : Fop} {pairs : List (Iatt × Iatt)}

/-- The first loop of `ec_iatt_combine`, for any number of attributes behind the first ones. -/
def iattsAgree (fop : Fop) (first : Iatt) : List (Iatt × Iatt) → Bool
  | [] => true
  | (dst, src) :: rest =>
    if dst.basicDiffers src || (dst.unstableDiffers src && ecIattIsTrusted fop first) then false
    else iattsAgree fop first rest

/-- `ec_iatt_combine`, for any number of attributes. -/
def iattsCombine (fop : Fop) : List (Iatt × Iatt) → Option (List Iatt)
  | [] => some []
  | (first, src) :: rest =>
    if iattsAgree fop first ((first, src) :: rest) then
      some (((first, src) :: rest).map fun p => p.1.merge p.2)
    else none

/-- The owners, the modes or the sizes differ. -/
def Iatt.Differs (dst src : Iatt) : Prop :=
  dst.iaUid ≠ src.iaUid ∨ dst.iaGid ≠ src.iaGid ∨ dst.iaSize ≠ src.iaSize ∨
  stModeFromIa dst.iaProt dst.iaType ≠ stModeFromIa src.iaProt src.iaType

private lemma iattsAgree_iff (first : Iatt) : iattsAgree fop first pairs ↔
    ∀ p ∈ pairs, p.1.basicDiffers p.2 = false ∧
      (p.1.unstableDiffers p.2 && ecIattIsTrusted fop first) = false := by
  induction pairs with
  | nil => simp [iattsAgree]
  | cons p pairs ih =>
    rw [forall_mem_cons, ← ih, iattsAgree]
    cases p.1.basicDiffers p.2 <;>
      cases p.1.unstableDiffers p.2 && ecIattIsTrusted fop first <;> simp

/-- When the attributes do not combine. Which differences count is decided by the first ones. -/
lemma iattsCombine_eq_none : iattsCombine fop pairs = none ↔ (∃ p ∈ pairs, p.1.basicDiffers p.2) ∨
      (∃ p ∈ pairs, p.1.unstableDiffers p.2) ∧
        ∃ p ∈ pairs.head?, ecIattIsTrusted fop p.1 = true := by
  cases pairs with
  | nil => simp [iattsCombine]
  | cons p pairs =>
    have hagree := @iattsAgree_iff fop (p :: pairs) p.1
    rw [iattsCombine]
    grind

/-- The attributes of an answer are combined as a list of any length is. -/
lemma ecIattCombine_eq_none (dst src : Fin 5 → Iatt) (count : Nat) :
    ecIattCombine fop dst src count = none ↔ iattsCombine fop
      (((finRange 5).filter fun i : Fin 5 => i < count).map fun i => (dst i, src i)) = none := by
  rw [iattsCombine_eq_none, ecIattCombine]
  cases count with
  | zero => simp
  | succ n =>
    simp [finRange_succ]
    grind

/-- Attributes of a trusted inode that differ are reported, whatever the others are, exactly if the
basic fields of some attributes differ, or the first inode is trusted and fields that are compared
for it differ. -/
theorem trusted_mismatch_iff (fop : Fop) (pairs : List (Iatt × Iatt)) :
    ((∃ p ∈ pairs, ecIattIsTrusted fop p.1 = true ∧ p.1.Differs p.2) →
      iattsCombine fop pairs = none) ↔
    ((∃ p ∈ pairs, ecIattIsTrusted fop p.1 = true ∧ p.1.Differs p.2) →
      (∃ p ∈ pairs, p.1.basicDiffers p.2 = true) ∨ (∃ p ∈ pairs, p.1.unstableDiffers p.2 = true) ∧
          ∃ p ∈ pairs.head?, ecIattIsTrusted fop p.1 = true) := by
  rw [iattsCombine_eq_none]

/-- A new directory is not locked yet, so another owner of its parent is not reported. -/
theorem trusted_mismatch_ignored :
    let iatt (ino uid : Nat) : Iatt :=
      ⟨ino, ino, .ifdir, 0, uid, 0, 0, 0, 0, 0, (0, 0), (0, 0), (0, 0)⟩
    let fop : Fop := ⟨.mkdir, .mkdir, [1]⟩
    ecIattIsTrusted fop (iatt 1 0) = true ∧ (iatt 1 0).Differs (iatt 1 5) ∧
      (iattsCombine fop [(iatt 2 0, iatt 2 0), (iatt 1 0, iatt 1 5)]).isSome = true :=
  ⟨rfl, .inl (by decide), rfl⟩

end TagItGluster.Ec
