import Mathlib.Algebra.GroupWithZero.Nat
import Mathlib.Data.List.Iterate
import TagItGluster.Base.Machine
import TagItGluster.Base.Shifts

/-!
# Arithmetic of GF(256) by tables

The bytes are polynomials with coefficients modulo two, reduced by `EC_GF_MOD`. Products and
quotients are looked up in tables of powers and logarithms to the base two, which are set up by
doubling. Two is a generator: doubling takes one through all bytes but zero. Line numbers:
`xlators/cluster/ec/src/ec-method.c`.
-/

namespace TagItGluster.Ec

open Base Function

/-- `EC_GF_MOD`, the polynomial of the field. -/
def ecGfMod : ℕ := 0x11D

/-- `EC_GF_SIZE`. -/
def ecGfSize : ℕ := 256

/-- `GfPow` and `GfLog`. -/
structure GfTables where
  pow : ℕ → ℕ
  log : ℕ → ℕ

/-- `GfPow[i - 1] << 1`, reduced if it does not fit. -/
def gfDouble (p : ℕ) : ℕ := if ecGfSize ≤ p <<< 1 then p <<< 1 ^^^ ecGfMod else p <<< 1

/-- The body of the loop of `ec_method_initialize`. -/
def gfTablesStep (i : ℕ) (t : GfTables) : GfTables :=
  let p := gfDouble (t.pow (i - 1))
  { pow := update (update t.pow i p) (i + ecGfSize - 1) p
    log := update (update t.log p i) (p + ecGfSize - 1) i }

/-- `ec_method_initialize` (20), on static tables that are zero. -/
def ecMethodInitialize : GfTables :=
  runAll gfTablesStep (List.range' 1 (ecGfSize - 1))
    ⟨update (fun _ => 0) 0 1, update (fun _ => 0) 0 ecGfSize⟩

/-- `ec_method_mul` (38). -/
def ecMethodMul (a b : ℕ) : ℕ :=
  if a ≠ 0 ∧ b ≠ 0 then
    ecMethodInitialize.pow (ecMethodInitialize.log a + ecMethodInitialize.log b)
  else 0

/-- `ec_method_div` (47). -/
def ecMethodDiv (a b : ℕ) : ℕ :=
  if b ≠ 0 then
    if a ≠ 0 then
      ecMethodInitialize.pow (ecGfSize - 1 + ecMethodInitialize.log a - ecMethodInitialize.log b)
    else 0
  else ecGfSize

/-- Multiplication by `x`, reduced by `EC_GF_MOD`. -/
def timesX (a : BitVec 8) : BitVec 8 := a <<< 1 ^^^ if a.msb then BitVec.ofNat 8 ecGfMod else 0#8

/-- The product of two polynomials up to a degree of the first one, reduced by `EC_GF_MOD`. -/
def gfMulBelow (a b : BitVec 8) : ℕ → BitVec 8
  | 0 => 0#8
  | n + 1 => gfMulBelow a b n ^^^ if a.getLsbD n then timesX^[n] b else 0#8

/-- The product of GF(256). -/
def gfMul (a b : BitVec 8) : BitVec 8 := gfMulBelow a b 8

/-- An element of GF(256). -/
@[ext]
structure Gf where
  bits : BitVec 8
deriving DecidableEq

instance : Zero Gf := ⟨⟨0#8⟩⟩

instance : Add Gf := ⟨fun a b => ⟨a.bits ^^^ b.bits⟩⟩

instance : Neg Gf := ⟨id⟩

instance : AddCommGroup Gf where
  add_assoc a b c := congrArg Gf.mk (BitVec.xor_assoc ..)
  zero_add a := congrArg Gf.mk BitVec.zero_xor
  add_zero a := congrArg Gf.mk BitVec.xor_zero
  add_comm a b := congrArg Gf.mk (BitVec.xor_comm ..)
  neg_add_cancel a := congrArg Gf.mk BitVec.xor_self
  nsmul := nsmulRec
  zsmul := zsmulRec

instance : Fintype Gf :=
  .ofEquiv (Fin 256) ⟨fun i => ⟨.ofFin i⟩, fun a => a.bits.toFin, fun _ => rfl, fun _ => rfl⟩

private lemma card_gf : Fintype.card Gf = 255 + 1 :=
  (Fintype.ofEquiv_card _).trans (Fintype.card_fin 256)

private lemma timesX_xor (a b : BitVec 8) : timesX (a ^^^ b) = timesX a ^^^ timesX b := by
  unfold timesX
  rw [BitVec.shiftLeft_xor_distrib, BitVec.msb_xor]
  cases a.msb <;> cases b.msb <;> simp <;> grind

/-- Multiplication by `x` respects sums. -/
def gfShift : Gf →+ Gf where
  toFun a := ⟨timesX a.bits⟩
  map_zero' := by decide
  map_add' a b := congrArg Gf.mk (timesX_xor a.bits b.bits)

private lemma gfShift_iterate (i : ℕ) (a : BitVec 8) : gfShift^[i] ⟨a⟩ = ⟨timesX^[i] a⟩ := by
  induction i generalizing a with
  | zero => rfl
  | succ i ih => exact ih (timesX a)

private lemma gfShift_turn : gfShift^[255] ⟨1#8⟩ = ⟨1#8⟩ := by
  decide +kernel

/-- The powers of `x` do not return to one before all elements but zero have been met. -/
lemma gfShift_first (d : ℕ) (hpos : 0 < d) (hlt : d < 255) :
    gfShift^[d] ⟨1#8⟩ ≠ (⟨1#8⟩ : Gf) := by
  have hnone : 1#8 ∉ List.iterate timesX (timesX 1#8) 254 := by decide +kernel
  rw [gfShift_iterate]
  intro h
  refine hnone (List.mem_iterate.mpr ⟨d - 1, by omega, ?_⟩)
  rw [← Function.iterate_succ_apply, Nat.succ_eq_add_one, Nat.sub_add_cancel hpos]
  exact (Gf.mk.inj h).symm

/-- The powers of `x` are all elements but zero. -/
noncomputable def gfShifts : Shifts Gf :=
  .ofOrder gfShift ⟨1#8⟩ 255 (by decide) card_gf gfShift_turn gfShift_first

noncomputable instance : Field Gf := gfShifts.toField

@[simp] lemma bits_add (a b : Gf) : (a + b).bits = a.bits ^^^ b.bits := rfl

private lemma iterate_mul (i : ℕ) (b : Gf) :
    gfShift^[i] 1 * b = gfShift^[i] b := gfShifts.mul_iterate i b

private lemma gfMulBelow_eq (a b : BitVec 8) (n : ℕ) :
    (⟨gfMulBelow a b n⟩ : Gf) = ⟨gfMulBelow a 1#8 n⟩ * ⟨b⟩ := by
  induction n with
  | zero => exact (zero_mul ⟨b⟩).symm
  | succ n ih =>
    have hterm : (⟨if a.getLsbD n then timesX^[n] b else 0#8⟩ : Gf) =
        ⟨if a.getLsbD n then timesX^[n] 1#8 else 0#8⟩ * ⟨b⟩ := by
      split
      · rw [← gfShift_iterate, ← gfShift_iterate]
        exact (iterate_mul n ⟨b⟩).symm
      · exact (zero_mul ⟨b⟩).symm
    calc (⟨gfMulBelow a b (n + 1)⟩ : Gf)
      _ = ⟨gfMulBelow a b n⟩ + ⟨if a.getLsbD n then timesX^[n] b else 0#8⟩ := rfl
      _ = (⟨gfMulBelow a 1#8 n⟩ + ⟨if a.getLsbD n then timesX^[n] 1#8 else 0#8⟩) * ⟨b⟩ := by
        rw [ih, hterm, add_mul]
      _ = ⟨gfMulBelow a 1#8 (n + 1)⟩ * ⟨b⟩ := rfl

lemma gfMul_eq (a b : BitVec 8) : (⟨gfMul a b⟩ : Gf) = ⟨a⟩ * ⟨b⟩ := by
  have hone : ∀ a : BitVec 8, gfMulBelow a 1#8 8 = a := by decide +kernel
  rw [gfMul, gfMulBelow_eq, hone]

/-- The powers of two as the tables have them. -/
def gfExp (i : ℕ) : ℕ := (timesX^[i] 1#8).toNat

private lemma gfExp_succ (i : ℕ) : gfExp (i + 1) = gfDouble (gfExp i) := by
  have hdouble : ∀ a : BitVec 8, gfDouble a.toNat = (timesX a).toNat := by decide +kernel
  rw [gfExp, gfExp, hdouble, iterate_succ_apply']

private lemma gfExp_lt (i : ℕ) : gfExp i < 256 := (timesX^[i] 1#8).isLt

private lemma gfExp_eq_iff {i j : ℕ} : gfExp i = gfExp j ↔ gfShift^[i]
    (1 : Gf) = gfShift^[j] 1 := by
  rw [gfShift_iterate, gfShift_iterate, Gf.mk.injEq]
  exact BitVec.toNat_inj

private lemma gfExp_pos (i : ℕ) : 0 < gfExp i := by
  refine pos_of_ne_zero fun h => gfShifts.iterate_ne_zero gfShifts.one_ne_zero i ?_
  show gfShift^[i] ⟨1#8⟩ = ⟨0#8⟩
  rw [gfShift_iterate]
  exact congrArg Gf.mk (BitVec.toNat_inj.mp h)

private lemma gfExp_add_255 (i : ℕ) : gfExp (i + 255) = gfExp i := by
  rw [gfExp_eq_iff, iterate_add_apply]
  exact congrArg (gfShift^[i]) gfShift_turn

private lemma gfExp_injOn {i j : ℕ} (hi : 0 < i) (hij : i < j) (hj : j ≤ 255) :
    gfExp i ≠ gfExp j := by
  rw [Ne, gfExp_eq_iff]
  exact iterate_ne_iterate gfShift_turn gfShift_first hij (by omega) (by omega)

/-- The tables after some turns of the loop. -/
structure TablesUpTo (m : ℕ) (t : GfTables) : Prop where
  pow : ∀ i ≤ m, t.pow i = gfExp i
  pow_wrap : ∀ i, 0 < i → i ≤ m → t.pow (i + 255) = gfExp i
  log : ∀ i, 0 < i → i ≤ m → t.log (gfExp i) = i

private lemma TablesUpTo.step {m : ℕ} {t : GfTables} (h : TablesUpTo m t) (hm : m < 255) :
    TablesUpTo (m + 1) (gfTablesStep (m + 1) t) := by
  have hp : gfDouble (t.pow (m + 1 - 1)) = gfExp (m + 1) := by
    rw [Nat.add_sub_cancel, h.pow m le_rfl, gfExp_succ]
  have hwrap : m + 1 + ecGfSize - 1 = m + 1 + 255 := rfl
  have hpos := gfExp_pos (m + 1)
  refine ⟨fun i hi => ?_, fun i hpos hi => ?_, fun i hpos hi => ?_⟩
  all_goals simp only [gfTablesStep, hp, hwrap]
  · rw [update_of_ne (by omega)]
    rcases Nat.of_le_succ hi with hle | rfl
    · rw [update_of_ne (by omega)]
      exact h.pow i (by omega)
    · rw [update_self]
  · rcases Nat.of_le_succ hi with hle | rfl
    · rw [update_of_ne (by omega), update_of_ne (by omega)]
      exact h.pow_wrap i hpos (by omega)
    · rw [update_self]
  · have hlt256 := gfExp_lt i
    rw [update_of_ne (by omega)]
    rcases Nat.of_le_succ hi with hle | rfl
    · rw [update_of_ne (gfExp_injOn hpos (Nat.lt_succ_of_le hle) (by omega))]
      exact h.log i hpos (by omega)
    · rw [update_self]

/-- The tables are set up for all powers. -/
lemma tables : TablesUpTo 255 ecMethodInitialize := by
  have hstart : TablesUpTo (1 - 1)
      ⟨update (fun _ => 0) 0 1, update (fun _ => 0) 0 ecGfSize⟩ := by
    refine ⟨fun i hi => ?_, fun i hpos hi => ?_, fun i hpos hi => ?_⟩
    · rw [Nat.le_zero.mp hi]
      rfl
    · omega
    · omega
  exact runAll_range' gfTablesStep (fun i t => TablesUpTo (i - 1) t) (n := 255) hstart
    fun i hle hlt t h => by
      obtain ⟨m, rfl⟩ := Nat.exists_eq_add_of_le' hle
      exact h.step (by omega)

/-- Every byte but zero is a power of two. -/
lemma exists_gfExp {a : BitVec 8} (ha : a ≠ 0#8) :
    ∃ i, 0 < i ∧ i ≤ 255 ∧ a.toNat = gfExp i ∧ (⟨a⟩ : Gf) = gfShift^[i] 1 := by
  have hne : (⟨a⟩ : Gf) ≠ 0 := fun h => ha (Gf.mk.inj h)
  have hlog : gfShift^[gfShifts.log ⟨a⟩] 1 = ⟨a⟩ := gfShifts.shift_log ⟨a⟩ hne
  have hle : gfShifts.log ⟨a⟩ ≤ 255 := gfShifts.log_le ⟨a⟩ hne
  have hexp : ∀ i, gfShift^[i] 1 = ⟨a⟩ → a.toNat = gfExp i := by
    intro i hi
    have : (⟨timesX^[i] 1#8⟩ : Gf) = ⟨a⟩ := (gfShift_iterate i 1#8).symm.trans hi
    rw [gfExp, Gf.mk.inj this]
  rcases eq_zero_or_pos (gfShifts.log ⟨a⟩) with hzero | hpos
  · -- One is the power of a full turn.
    rw [hzero] at hlog
    have hturn : gfShift^[255] 1 = ⟨a⟩ := gfShift_turn.trans hlog
    exact ⟨255, by omega, le_rfl, hexp 255 hturn, hturn.symm⟩
  · exact ⟨_, hpos, hle, hexp _ hlog, hlog.symm⟩

private lemma pow_eq {i : ℕ} (hpos : 0 < i) (hle : i ≤ 510) :
    ecMethodInitialize.pow i = gfExp i := by
  by_cases hi : i ≤ 255
  · exact tables.pow i hi
  · obtain ⟨j, rfl⟩ := Nat.exists_eq_add_of_le' (show 255 ≤ i by omega)
    rw [tables.pow_wrap j (by omega) (by omega), gfExp_add_255]

private lemma toNat_iterate (i : ℕ) : (gfShift^[i] (1 : Gf)).bits.toNat = gfExp i :=
  congrArg (fun a : Gf => a.bits.toNat) (gfShift_iterate i 1#8)

private lemma ecMethodMul_eq (a b : BitVec 8) :
    ecMethodMul a.toNat b.toNat = (⟨a⟩ * ⟨b⟩ : Gf).bits.toNat := by
  by_cases ha : a = 0#8
  · subst ha
    exact (congrArg (fun c : Gf => c.bits.toNat) (zero_mul ⟨b⟩)).symm
  by_cases hb : b = 0#8
  · subst hb
    rw [ecMethodMul, if_neg (fun h => h.2 rfl)]
    exact (congrArg (fun c : Gf => c.bits.toNat) (mul_zero ⟨a⟩)).symm
  obtain ⟨i, hi, hi', hai, hag⟩ := exists_gfExp ha
  obtain ⟨j, hj, hj', hbj, hbg⟩ := exists_gfExp hb
  have hne : gfExp i ≠ 0 ∧ gfExp j ≠ 0 := ⟨(gfExp_pos i).ne', (gfExp_pos j).ne'⟩
  rw [hai, hbj, ecMethodMul, if_pos hne, tables.log i hi hi', tables.log j hj hj',
    pow_eq (by omega) (by omega), hag, hbg, iterate_mul, ← iterate_add_apply,
    toNat_iterate]

lemma ecMethodDiv_eq (a : BitVec 8) {b : BitVec 8} (hb : b ≠ 0#8) :
    ecMethodDiv a.toNat b.toNat = (⟨a⟩ / ⟨b⟩ : Gf).bits.toNat := by
  obtain ⟨j, hj, hj', hbj, hbg⟩ := exists_gfExp hb
  have hnej : gfExp j ≠ 0 := (gfExp_pos j).ne'
  by_cases ha : a = 0#8
  · subst ha
    rw [hbj, ecMethodDiv, if_pos hnej]
    exact (congrArg (fun c : Gf => c.bits.toNat) (zero_div ⟨b⟩)).symm
  obtain ⟨i, hi, hi', hai, hag⟩ := exists_gfExp ha
  have hquot : gfShift^[255 + i - j] 1 = ⟨a⟩ / ⟨b⟩ := by
    have hb0 : (⟨b⟩ : Gf) ≠ 0 := fun h => hb (Gf.mk.inj h)
    rw [eq_div_iff hb0, hag, hbg, iterate_mul, ← iterate_add_apply,
      show 255 + i - j + j = i + 255 by omega, iterate_add_apply]
    exact congrArg (gfShift^[i]) gfShift_turn
  have hsize : ecGfSize - 1 + i - j = 255 + i - j := rfl
  rw [hai, hbj, ecMethodDiv, if_pos hnej, if_pos (gfExp_pos i).ne', tables.log i hi hi',
    tables.log j hj hj', hsize, pow_eq (by omega) (by omega), ← hquot, toNat_iterate]

/-- A quotient as it is stored. The result for a division by zero does not fit into a byte, and
leaves zero there. -/
lemma ofNat_ecMethodDiv (a b : BitVec 8) :
    BitVec.ofNat 8 (ecMethodDiv a.toNat b.toNat) = (⟨a⟩ / ⟨b⟩ : Gf).bits := by
  by_cases hb : b = 0#8
  · have hover : ecMethodDiv a.toNat (0#8).toNat = ecGfSize := if_neg fun h => h rfl
    rw [hb, hover]
    exact (congrArg Gf.bits (div_zero ⟨a⟩)).symm
  · rw [ecMethodDiv_eq a hb, BitVec.ofNat_toNat, BitVec.setWidth_eq]

lemma ofNat_ecMethodMul (a b : BitVec 8) :
    BitVec.ofNat 8 (ecMethodMul a.toNat b.toNat) = (⟨a⟩ * ⟨b⟩ : Gf).bits := by
  rw [ecMethodMul_eq, BitVec.ofNat_toNat, BitVec.setWidth_eq]

end TagItGluster.Ec
