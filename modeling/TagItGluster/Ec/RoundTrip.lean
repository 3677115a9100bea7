import TagItGluster.Ec.Method

/-!
# Decoding gives back what was encoded

The arrays of the decoder go through the elimination of the matrix of powers, which has no zero
pivot because the numbers of the fragments are different and not zero. Each element of a fragment
is a value of the polynomial of its stripe, and each element that the decoder writes is the sum of
those of the fragments with the coefficients of the inverse.
-/

namespace TagItGluster.Ec

open Base Function

private lemma setCell_apply (m : ℕ → ℕ → BitVec 8) (i j : ℕ) (v : BitVec 8) (a b : ℕ) :
    setCell m i j v a b = if a = i ∧ b = j then v else m a b := by
  unfold setCell
  by_cases ha : a = i
  · subst ha
    rw [update_self]
    by_cases hb : b = j
    · rw [hb, update_self, if_pos ⟨rfl, rfl⟩]
    · rw [update_of_ne hb, if_neg fun h => hb h.2]
  · rw [update_of_ne ha, if_neg fun h => ha h.1]

/-- The arrays agree but for the first entries of a row. -/
def AgreeBut (r k : ℕ) (s s' : Arrays) : Prop :=
  ∀ a b, ¬(a = r ∧ b < k) → s'.mtx a b = s.mtx a b ∧ s'.inv a b = s.inv a b

/-- What a loop over a row does, if each turn reads nothing that an earlier one has written. -/
lemma rowLoop_eq {columns r : ℕ} {f g : Arrays → ℕ → BitVec 8} {s : Arrays}
    (hread : ∀ s' k, AgreeBut r k s s' → f s' k = f s k ∧ g s' k = g s k) (a b : ℕ) :
    (rowLoop columns r f g s).mtx a b = (if a = r ∧ b < columns then f s b else s.mtx a b) ∧
      (rowLoop columns r f g s).inv a b =
        if a = r ∧ b < columns then g s b else s.inv a b := by
  refine runAll_range _ (fun k (s' : Arrays) => ∀ a b,
    s'.mtx a b = (if a = r ∧ b < k then f s b else s.mtx a b) ∧
      s'.inv a b = if a = r ∧ b < k then g s b else s.inv a b)
    (fun a b => ?_) (fun k _ s' h => ?_) a b
  · rw [if_neg (by omega), if_neg (by omega)]
    exact ⟨rfl, rfl⟩
  · have hagree : AgreeBut r k s s' := fun a b hab =>
      ⟨(h a b).1.trans (if_neg hab), (h a b).2.trans (if_neg hab)⟩
    obtain ⟨hf, hg⟩ := hread s' k hagree
    intro a b
    simp only [setCell_apply, hf, hg, (h a b).1, (h a b).2]
    by_cases ha : a = r
    · rcases lt_trichotomy b k with hb | rfl | hb
      · simp [hb, hb.ne, Nat.lt_succ_of_lt hb]
      · simp
      · simp [hb.not_gt, hb.ne', show ¬b < k + 1 by omega]
    · simp [ha]

/-- The arrays as matrices over GF(256). -/
def toSweep (columns : ℕ) (s : Arrays) : Sweep columns Gf where
  mtx r c := ⟨s.mtx r c⟩
  inv r c := ⟨s.inv r c⟩

private lemma divideRow_eq (columns i : ℕ) (s : Arrays) (a b : ℕ) :
    (divideRow columns i s).mtx a b = (if a = i ∧ b < columns then
        (⟨s.mtx i b⟩ / ⟨s.mtx i i⟩ : Gf).bits else s.mtx a b) ∧
      (divideRow columns i s).inv a b = if a = i ∧ b < columns then
        (⟨s.inv i b⟩ / ⟨s.mtx i i⟩ : Gf).bits else s.inv a b := by
  simp only [← ofNat_ecMethodDiv]
  exact rowLoop_eq (fun s' k h => by
    obtain ⟨hm, hi⟩ := h i k (by omega)
    rw [hm, hi]
    exact ⟨rfl, rfl⟩) a b

private lemma clearRow_eq (columns i j : ℕ) (s : Arrays) (a b : ℕ) :
    (clearRow columns i j s).mtx a b = (if a = j ∧ b < columns then
        (⟨s.mtx j b⟩ + ⟨s.mtx i b⟩ * ⟨s.mtx j i⟩ : Gf).bits else s.mtx a b) ∧
      (clearRow columns i j s).inv a b = if a = j ∧ b < columns then
        (⟨s.inv j b⟩ + ⟨s.inv i b⟩ * ⟨s.mtx j i⟩ : Gf).bits else s.inv a b := by
  simp only [bits_add, ← ofNat_ecMethodMul]
  exact rowLoop_eq (fun s' k h => by
    obtain ⟨hm, hi⟩ := h i k (by omega)
    obtain ⟨hm', hi'⟩ := h j k (by omega)
    rw [hm, hi, hm', hi']
    exact ⟨rfl, rfl⟩) a b

/-- The rows other than that of the pivot are cleared one by one. -/
lemma clearRows_eq (columns i m : ℕ) (s : Arrays) (a b : ℕ) :
    let s' := runAll (fun j s => if i ≠ j then clearRow columns i j s else s) (List.range m) s
    s'.mtx a b = (if a < m ∧ a ≠ i ∧ b < columns then
        (⟨s.mtx a b⟩ + ⟨s.mtx i b⟩ * ⟨s.mtx a i⟩ : Gf).bits else s.mtx a b) ∧
      s'.inv a b = if a < m ∧ a ≠ i ∧ b < columns then
        (⟨s.inv a b⟩ + ⟨s.inv i b⟩ * ⟨s.mtx a i⟩ : Gf).bits else s.inv a b := by
  refine runAll_range _ (fun m (s' : Arrays) => ∀ a b,
    s'.mtx a b = (if a < m ∧ a ≠ i ∧ b < columns then
        (⟨s.mtx a b⟩ + ⟨s.mtx i b⟩ * ⟨s.mtx a i⟩ : Gf).bits else s.mtx a b) ∧
      s'.inv a b = if a < m ∧ a ≠ i ∧ b < columns then
        (⟨s.inv a b⟩ + ⟨s.inv i b⟩ * ⟨s.mtx a i⟩ : Gf).bits else s.inv a b)
    (fun a b => ?_) (fun j _ s' h => ?_) a b
  · rw [if_neg (by omega)]
    exact ⟨rfl, rfl⟩
  · intro a b
    split
    · next hij =>
      -- The row of the pivot and the next row are as they were.
      have hi : ∀ b, s'.mtx i b = s.mtx i b ∧ s'.inv i b = s.inv i b := fun b =>
        ⟨(h i b).1.trans (if_neg (by omega)), (h i b).2.trans (if_neg (by omega))⟩
      have hj : ∀ b, s'.mtx j b = s.mtx j b ∧ s'.inv j b = s.inv j b := fun b =>
        ⟨(h j b).1.trans (if_neg (by omega)), (h j b).2.trans (if_neg (by omega))⟩
      obtain ⟨hm, hv⟩ := clearRow_eq columns i j s' a b
      rw [hm, hv, (hi b).1, (hi b).2, (hj b).1, (hj b).2, (hj i).1, (h a b).1, (h a b).2]
      by_cases ha : a = j
      · subst ha
        simp [Ne.symm hij]
      · have hlt : a < j + 1 ↔ a < j := by omega
        simp [ha, hlt]
    · next hij =>
      have hcond : (a < j + 1 ∧ a ≠ i ∧ b < columns) ↔ (a < j ∧ a ≠ i ∧ b < columns) := by omega
      simp only [(h a b).1, (h a b).2, hcond]
      exact ⟨trivial, trivial⟩

/-- A turn of the third loop is a stage of the elimination. -/
lemma toSweep_eliminate {columns i : ℕ} (hi : i < columns) (s : Arrays) :
    toSweep columns (eliminate columns i s) = (toSweep columns s).stage ⟨i, hi⟩ := by
  have hdiv := divideRow_eq columns i s
  have hclear := clearRows_eq columns i columns (divideRow columns i s)
  have hrow : ∀ c < columns,
      (divideRow columns i s).mtx i c = (⟨s.mtx i c⟩ / ⟨s.mtx i i⟩ : Gf).bits ∧
        (divideRow columns i s).inv i c = (⟨s.inv i c⟩ / ⟨s.mtx i i⟩ : Gf).bits := fun c hc =>
    ⟨(hdiv i c).1.trans (if_pos ⟨rfl, hc⟩), (hdiv i c).2.trans (if_pos ⟨rfl, hc⟩)⟩
  have hrest : ∀ r c, r ≠ i → (divideRow columns i s).mtx r c = s.mtx r c ∧
      (divideRow columns i s).inv r c = s.inv r c := fun r c hr =>
    ⟨(hdiv r c).1.trans (if_neg fun h => hr h.1), (hdiv r c).2.trans (if_neg fun h => hr h.1)⟩
  refine Sweep.ext (Matrix.ext fun r c => ?_) (Matrix.ext fun r c => ?_)
  · show (⟨(eliminate columns i s).mtx r c⟩ : Gf) = _
    rw [eliminate, (hclear r c).1]
    by_cases hr : r = i
    · obtain rfl : r = ⟨i, hi⟩ := Fin.ext hr
      rw [if_neg fun h => h.2.1 rfl, (hrow c c.isLt).1, Sweep.stage_mtx_self]
      rfl
    · rw [if_pos ⟨r.isLt, hr, c.isLt⟩, (hrow c c.isLt).1, (hrest r c hr).1, (hrest r i hr).1,
        Sweep.stage_mtx_of_ne _ _ _ fun h => hr (congrArg Fin.val h)]
      rfl
  · show (⟨(eliminate columns i s).inv r c⟩ : Gf) = _
    rw [eliminate, (hclear r c).2]
    by_cases hr : r = i
    · obtain rfl : r = ⟨i, hi⟩ := Fin.ext hr
      rw [if_neg fun h => h.2.1 rfl, (hrow c c.isLt).2, Sweep.stage_inv_self]
      rfl
    · rw [if_pos ⟨r.isLt, hr, c.isLt⟩, (hrow c c.isLt).2, (hrest r c hr).2, (hrest r i hr).1,
        Sweep.stage_inv_of_ne _ _ _ fun h => hr (congrArg Fin.val h)]
      rfl

private lemma eliminate_sentinel (columns i : ℕ) (s : Arrays) (a : ℕ) :
    (eliminate columns i s).inv a columns = s.inv a columns := by
  have hlt : ¬columns < columns := lt_irrefl columns
  rw [eliminate, (clearRows_eq columns i columns (divideRow columns i s) a columns).2,
    if_neg fun h => hlt h.2.2, (divideRow_eq columns i s a columns).2, if_neg fun h => hlt h.2]

section

private lemma initInv_eq (columns a b : ℕ) :
    initInv columns a b = if a < columns ∧ (b = a ∨ b = columns) then 1#8 else 0#8 := by
  refine runAll_range _ (fun m (inv : ℕ → ℕ → BitVec 8) => ∀ a b,
    inv a b = if a < m ∧ (b = a ∨ b = columns) then 1#8 else 0#8) (fun a b => ?_)
    (fun i _ inv h a b => ?_) a b
  · exact (if_neg (by omega)).symm
  rw [setCell_apply, setCell_apply, h a b]
  by_cases ha : a = i
  · subst ha
    by_cases hb : b = columns
    · simp [hb]
    · simp [hb]
  · have hlt : a < i + 1 ↔ a < i := by omega
    simp [ha, hlt]

/-- A row of the second loop has the falling powers, and the others stay. -/
lemma powersRow_eq {columns x : ℕ} (hc : 0 < columns) (hx : x < 256) (i : ℕ)
    (mtx : ℕ → ℕ → BitVec 8) :
    (∀ c < columns, (⟨powersRow columns x i mtx i c⟩ : Gf) =
        ⟨BitVec.ofNat 8 x⟩ ^ (columns - 1 - c)) ∧
      ∀ a ≠ i, ∀ b, powersRow columns x i mtx a b = mtx a b := by
  have hnat : (BitVec.ofNat 8 x).toNat = x := Nat.mod_eq_of_lt hx
  have hloop : (∀ c, 0 ≤ c → c < columns → (⟨powersRow columns x i mtx i c⟩ : Gf) =
      ⟨BitVec.ofNat 8 x⟩ ^ (columns - 1 - c)) ∧
      ∀ a ≠ i, ∀ b, powersRow columns x i mtx a b = mtx a b := by
    refine runAll_downTo _ (fun j (m : ℕ → ℕ → BitVec 8) => (∀ c, j ≤ c → c < columns →
      (⟨m i c⟩ : Gf) = ⟨BitVec.ofNat 8 x⟩ ^ (columns - 1 - c)) ∧ ∀ a ≠ i, ∀ b, m a b = mtx a b)
      ⟨fun c hle hlt => ?_, fun a ha b => ?_⟩
      fun j hj m h => ⟨fun c hle hlt => ?_, fun a ha b => ?_⟩
    · obtain rfl : c = columns - 1 := by omega
      rw [setCell_apply, if_pos ⟨rfl, rfl⟩, Nat.sub_self]
      rfl
    · rw [setCell_apply, if_neg fun h => ha h.1]
    · rw [setCell_apply]
      rcases Nat.eq_or_lt_of_le hle with rfl | hlt'
      · rw [if_pos ⟨rfl, rfl⟩]
        nth_rewrite 1 [← hnat]
        rw [ofNat_ecMethodMul]
        show (⟨m i (j + 1)⟩ * ⟨BitVec.ofNat 8 x⟩ : Gf) = _
        rw [h.1 (j + 1) le_rfl (by omega), ← pow_succ]
        congr 1
        omega
      · rw [if_neg (by omega)]
        exact h.1 c hlt' hlt
    · rw [setCell_apply, if_neg fun h => ha h.1]
      exact h.2 a ha b
  exact ⟨fun c => hloop.1 c (Nat.zero_le c), hloop.2⟩

/-- The number of a fragment as an element. -/
def point (rows : ℕ → ℕ) (i : ℕ) : Gf := ⟨BitVec.ofNat 8 (rows i + 1)⟩

private lemma initMtx_eq {columns : ℕ} {rows : ℕ → ℕ} (hc : 0 < columns)
    (hrows : ∀ i < columns, rows i < 255) {r c : ℕ} (hr : r < columns) (hcc : c < columns) :
    (⟨initMtx columns rows r c⟩ : Gf) = point rows r ^ (columns - 1 - c) := by
  refine runAll_range (fun i => powersRow columns (rows i + 1) i)
    (fun m mtx => ∀ r < m, ∀ c < columns,
      (⟨mtx r c⟩ : Gf) = point rows r ^ (columns - 1 - c)) (fun r hr => ?_)
    (fun i hi mtx h r hr c hcc => ?_) r hr c hcc
  · exact absurd hr (Nat.not_lt_zero r)
  have hx : rows i + 1 < 256 := Nat.succ_lt_succ (hrows i hi)
  obtain ⟨hrow, hrest⟩ := powersRow_eq hc hx i mtx
  by_cases hri : r = i
  · subst hri
    exact hrow c hcc
  · rw [hrest r hri c]
    exact h r (by omega) c hcc

/-- The matrix of the powers. -/
noncomputable def powers (columns : ℕ) (rows : ℕ → ℕ) : Matrix (Fin columns) (Fin columns) Gf :=
  fun r c => point rows r ^ (columns - 1 - (c : ℕ))

variable {columns : ℕ} {rows : ℕ → ℕ}

private lemma toNat_point {i : ℕ} (h : rows i < 255) : (point rows i).bits.toNat = rows i + 1 := by
  exact Nat.mod_eq_of_lt (show rows i + 1 < 256 by omega)

private lemma point_ne_zero {i : ℕ} (h : rows i < 255) : point rows i ≠ 0 := by
  intro hzero
  have hnat := toNat_point h
  rw [hzero] at hnat
  exact absurd hnat (Nat.succ_ne_zero _).symm

/-- The third loop leaves the inverse, with the ones behind its rows. -/
lemma invert_eq (hc : 0 < columns) (hrows : ∀ i < columns, rows i < 255)
    (hinj : ∀ i < columns, ∀ j < columns, rows i = rows j → i = j) :
    (∀ r c : Fin columns, ∑ t : Fin columns, (⟨(invert columns rows).inv r t⟩ : Gf) *
        powers columns rows t c = if r = c then 1 else 0) ∧
      ∀ r < columns, (invert columns rows).inv r columns = 1#8 := by
  have hregular : Regular (powers columns rows) := by
    refine regular_powers (fun r r' h => Fin.ext (hinj r r.isLt r' r'.isLt ?_))
      fun r => point_ne_zero (hrows r r.isLt)
    have hnat := toNat_point (hrows r r.isLt)
    rw [h, toNat_point (hrows r' r'.isLt)] at hnat
    omega
  have hstart : toSweep columns ⟨initMtx columns rows, initInv columns⟩ =
      ⟨powers columns rows, fun r c => if r = c then 1 else 0⟩ := by
    refine Sweep.ext (Matrix.ext fun r c => initMtx_eq hc hrows r.isLt c.isLt)
      (Matrix.ext fun r c => ?_)
    show (⟨initInv columns r c⟩ : Gf) = if r = c then 1 else 0
    rw [initInv_eq]
    by_cases hrc : r = c
    · rw [if_pos ⟨r.isLt, .inl (congrArg Fin.val hrc.symm)⟩, if_pos hrc]
      rfl
    · rw [if_neg (by omega), if_neg hrc]
      rfl
  obtain ⟨hswept, hones⟩ := runAll_range (eliminate columns)
    (fun k s => Swept (powers columns rows) k (toSweep columns s) ∧
      ∀ r < columns, s.inv r columns = 1#8)
   
    ⟨hstart ▸ Swept.start _, fun r hr => (initInv_eq columns r columns).trans
      (if_pos ⟨hr, .inr rfl⟩)⟩
    fun i hi s h => ⟨toSweep_eliminate hi s ▸ h.1.stage (i := ⟨i, hi⟩) hregular,
      fun r hr => (eliminate_sentinel columns i s r).trans (h.2 r hr)⟩
  exact ⟨hswept.inverse, hones⟩

end

section

/-- An element of a chunk. -/
def element (b : Buffer) (o l : ℕ) : Gf := ⟨lane b o l⟩

/-- The chunks at two offsets do not overlap. -/
def Apart (o o' : ℕ) : Prop := o + ecMethodChunkSize ≤ o' ∨ o' + ecMethodChunkSize ≤ o

variable {out b : Buffer} {dst src l : ℕ}

private lemma element_muladd (c : BitVec 8) (hl : l < ecMethodChunkSize) :
    element (ecGfMuladd c.toNat out dst b src) dst l =
      ⟨c⟩ * element out dst l + element b src l := by
  rw [element, lane_muladd _ _ _ _ _ hl, BitVec.ofNat_toNat, ← gfMul_eq]
  rfl

private lemma element_muladd_other (c : ℕ) {o : ℕ} (ho : Apart o dst) (hl : l < ecMethodChunkSize) :
    element (ecGfMuladd c out dst b src) o l = element out o l :=
  congrArg Gf.mk (lane_muladd_other c out b dst src ho hl)

private lemma element_zero (o l : ℕ) : element (fun _ => 0#8) o l = 0 := by
  refine congrArg Gf.mk (BitVec.eq_of_getLsbD_eq fun i hi => ?_)
  rw [lane, getLsbD_byteOf _ hi, BitVec.getLsbD_zero, BitVec.getLsbD_zero]

end

section

variable {row : ℕ → BitVec 8} {columns : ℕ}

/-- The search stops at the first entry that is not zero, or at the one behind the row. -/
lemma skipZeros_spec (hone : row columns ≠ 0#8) {fuel j : ℕ} (hj : j ≤ columns)
    (hfuel : columns - j < fuel) :
    j ≤ skipZeros row fuel j ∧ skipZeros row fuel j ≤ columns ∧
      row (skipZeros row fuel j) ≠ 0#8 ∧ ∀ t, j ≤ t → t < skipZeros row fuel j → row t = 0#8 := by
  induction fuel generalizing j with
  | zero => omega
  | succ fuel ih =>
    rw [skipZeros]
    split
    · next hzero =>
      have hlt : j < columns := lt_of_le_of_ne hj fun h => hone (h ▸ hzero)
      obtain ⟨hle, hle', hne, hzeros⟩ := ih (j := j + 1) hlt (by omega)
      refine ⟨by omega, hle', hne, fun t ht ht' => ?_⟩
      rcases eq_or_lt_of_le ht with rfl | ht
      · exact hzero
      · exact hzeros t ht ht'
    · next hne => exact ⟨le_rfl, hj, hne, fun t ht ht' => absurd ht' (by omega)⟩

variable {src : ℕ → Buffer} {off dst : ℕ}

/-- The sum that a chunk of the data is, up to some fragment. -/
noncomputable def partialSum (row : ℕ → BitVec 8) (src : ℕ → Buffer) (off l m : ℕ) : Gf :=
  ∑ t ∈ Finset.range m, ⟨row t⟩ * element (src t) off l

/-- Coefficients that are zero are left out. -/
lemma partialSum_skip {j j' l : ℕ} (hj : j ≤ j') (hzeros : ∀ t, j ≤ t → t < j' → row t = 0#8) :
    partialSum row src off l j' = partialSum row src off l j := by
  refine (Finset.sum_subset (Finset.range_subset_range.mpr hj) fun t ht ht' => ?_).symm
  rw [Finset.mem_range] at ht ht'
  rw [hzeros t (by omega) ht]
  exact zero_mul (element (src t) off l)

/-- What the `do` loop has when it ends: the last coefficient times the chunk is the sum. -/
lemma evaluate_spec (hone : row columns ≠ 0#8) (hmax : columns ≤ ecMethodMaxFragments)
    {turns j : ℕ} {last : BitVec 8} {out : Buffer} (hj : j < columns) (hturns : columns - j ≤ turns)
    (hsum : ∀ l < ecMethodChunkSize, ⟨last⟩ * element out dst l = partialSum row src off l j) :
    ∃ last' : BitVec 8, (evaluate columns row src off dst turns j last.toNat out).1 = last'.toNat ∧
      (∀ l < ecMethodChunkSize,
        ⟨last'⟩ * element (evaluate columns row src off dst turns j last.toNat out).2 dst l =
          partialSum row src off l columns) ∧
      ∀ o, Apart o dst → ∀ l < ecMethodChunkSize,
        element (evaluate columns row src off dst turns j last.toNat out).2 o l =
          element out o l := by
  induction turns generalizing j last out with
  | zero => omega
  | succ turns ih =>
    obtain ⟨hle, hle', hne, hzeros⟩ := skipZeros_spec hone hj.le
      (show columns - j < ecMethodMaxFragments + 1 - j by omega)
    simp only [evaluate]
    generalize skipZeros row (ecMethodMaxFragments + 1 - j) j = j' at hle hle' hne hzeros ⊢
    split
    · next hlt =>
      rw [ecMethodDiv_eq last hne]
      generalize hvalue : (⟨last⟩ / ⟨row j'⟩ : Gf) = value
      have hcoeff : (⟨row j'⟩ : Gf) ≠ 0 := fun h => hne (Gf.mk.inj h)
      -- The next coefficient takes the place of the last one.
      have hnext : ∀ l < ecMethodChunkSize,
          ⟨row j'⟩ * element (ecGfMuladd value.bits.toNat out dst (src j') off) dst l =
            partialSum row src off l (j' + 1) := by
        intro l hl
        rw [element_muladd _ hl, ← hvalue, mul_quotient_add hcoeff, hsum l hl,
          ← partialSum_skip hle hzeros, partialSum, partialSum, Finset.sum_range_succ]
      have hother : ∀ o, Apart o dst → ∀ l < ecMethodChunkSize,
          element (ecGfMuladd value.bits.toNat out dst (src j') off) o l = element out o l :=
        fun o ho l hl => element_muladd_other _ ho hl
      split
      · next hlt' =>
        obtain ⟨last', hlast, hsum', hother'⟩ := ih hlt' (by omega) hnext
        exact ⟨last', hlast, hsum', fun o ho l hl => (hother' o ho l hl).trans (hother o ho l hl)⟩
      · next hlt' =>
        obtain rfl : j' + 1 = columns := by omega
        exact ⟨row j', rfl, hnext, hother⟩
    · next hlt =>
      obtain rfl : j' = columns := by omega
      exact ⟨last, rfl, fun l hl => (hsum l hl).trans (partialSum_skip hle hzeros).symm,
        fun o _ l _ => rfl⟩

/-- A chunk of the data is the sum with the coefficients of its row; the other chunks stay. -/
lemma decodeChunk_spec {inv : ℕ → ℕ → BitVec 8} {i : ℕ} (src : ℕ → Buffer)
    (hone : inv i columns ≠ 0#8) (hc : 0 < columns) (hmax : columns ≤ ecMethodMaxFragments)
    (s : Decoding) :
    (∀ l < ecMethodChunkSize, element (decodeChunk columns inv src i s).out s.dst l =
        partialSum (inv i) src s.off l columns) ∧
      ∀ o, Apart o s.dst → ∀ l < ecMethodChunkSize,
        element (decodeChunk columns inv src i s).out o l = element s.out o l := by
  have hstart : ∀ l < ecMethodChunkSize, ⟨0#8⟩ * element s.out s.dst l =
      partialSum (inv i) src s.off l 0 := fun l _ => zero_mul (element s.out s.dst l)
  obtain ⟨last, hlast, hsum, hother⟩ :=
    evaluate_spec hone hmax hc (Nat.sub_le columns 0) hstart
  refine ⟨fun l hl => ?_, fun o ho l hl => ?_⟩
  · show element (ecGfMuladd
      (evaluate columns (inv i) src s.off s.dst columns 0 (0#8).toNat s.out).1 _ s.dst
        (fun _ => 0#8) 0) s.dst l = _
    rw [hlast, element_muladd _ hl, element_zero, add_zero]
    exact hsum l hl
  · exact (element_muladd_other _ ho hl).trans (hother o ho l hl)

end

section

variable {columns : ℕ}

/-- The value of the polynomial of a stripe. -/
noncomputable def stripeValue (x : Gf) (data : Buffer) (src l m : ℕ) : Gf :=
  ∑ t ∈ Finset.range m, x ^ (m - 1 - t) * element data (src + ecMethodChunkSize * t) l

private lemma stripeValue_succ (x : Gf) (data : Buffer) (src l m : ℕ) :
    stripeValue x data src l (m + 1) =
      x * stripeValue x data src l m + element data (src + ecMethodChunkSize * m) l :=
  sum_falling_succ x (fun t => element data (src + ecMethodChunkSize * t) l) m

/-- A chunk of a fragment has the values of the polynomials of its stripe. -/
lemma encodeStripe_spec (hc : 0 < columns) (x : BitVec 8) (data : Buffer) (s : Encoding) :
    (encodeStripe columns x.toNat data s).src = s.src + ecMethodChunkSize * columns ∧
      (encodeStripe columns x.toNat data s).dst = s.dst + ecMethodChunkSize ∧
      (∀ l < ecMethodChunkSize, element (encodeStripe columns x.toNat data s).out s.dst l =
        stripeValue ⟨x⟩ data s.src l columns) ∧
      ∀ o, Apart o s.dst → ∀ l < ecMethodChunkSize,
        element (encodeStripe columns x.toNat data s).out o l = element s.out o l := by
  have hloop := runAll_range' (fun _ => encodeColumn data x.toNat)
    (fun i s' => s'.src = s.src + ecMethodChunkSize * i ∧ s'.dst = s.dst ∧
      (∀ l < ecMethodChunkSize, element s'.out s.dst l = stripeValue ⟨x⟩ data s.src l i) ∧
      ∀ o, Apart o s.dst → ∀ l < ecMethodChunkSize, element s'.out o l = element s.out o l)
    (m := 1) (n := columns - 1) (s := encodeColumn data 0 s)
    ⟨by rfl, rfl, fun l hl => ?_, fun o ho l hl => element_muladd_other 0 ho hl⟩
    fun i _ _ s' h => ?_
  · rw [Nat.add_sub_cancel' hc] at hloop
    obtain ⟨hsrc, hdst, hvalue, hother⟩ := hloop
    exact ⟨hsrc, congrArg (· + ecMethodChunkSize) hdst, hvalue, hother⟩
  · have hfirst : element (encodeColumn data 0 s).out s.dst l =
        ⟨0#8⟩ * element s.out s.dst l + element data s.src l := element_muladd 0#8 hl
    have hempty : stripeValue ⟨x⟩ data s.src l 0 = 0 := Finset.sum_empty
    rw [hfirst, stripeValue_succ, hempty, mul_zero, Nat.mul_zero]
    exact congrArg (· + element data s.src l) (zero_mul (element s.out s.dst l))
  · obtain ⟨hsrc, hdst, hvalue, hother⟩ := h
    refine ⟨?_, hdst, fun l hl => ?_, fun o ho l hl => ?_⟩
    · show s'.src + ecMethodChunkSize = s.src + ecMethodChunkSize * (i + 1)
      rw [hsrc, Nat.mul_succ, add_assoc]
    · show element (ecGfMuladd x.toNat s'.out s'.dst data s'.src) s.dst l = _
      rw [hdst, hsrc, element_muladd x hl, hvalue l hl, stripeValue_succ]
    · show element (ecGfMuladd x.toNat s'.out s'.dst data s'.src) o l = _
      rw [hdst, element_muladd_other _ ho hl, hother o ho l hl]

/-- A fragment has the values of the polynomials of all stripes. -/
lemma ecMethodEncode_spec (hc : 0 < columns) {stripes row : ℕ} (hrow : row < 255)
    (data out : Buffer) {j l : ℕ} (hj : j < stripes) (hl : l < ecMethodChunkSize) :
    element (ecMethodEncode (ecMethodChunkSize * columns * stripes) columns row data out).2
        (ecMethodChunkSize * j) l =
      stripeValue ⟨BitVec.ofNat 8 (row + 1)⟩ data (ecMethodChunkSize * columns * j) l columns := by
  have hnat : row + 1 = (BitVec.ofNat 8 (row + 1)).toNat :=
    (Nat.mod_eq_of_lt (show row + 1 < 256 by omega)).symm
  have hsize : ecMethodChunkSize * columns * stripes / (ecMethodChunkSize * columns) = stripes :=
    Nat.mul_div_cancel_left stripes (Nat.mul_pos (by decide) hc)
  simp only [ecMethodEncode, hsize]
  generalize BitVec.ofNat 8 (row + 1) = x at hnat ⊢
  rw [hnat]
  refine (runAll_range (fun _ => encodeStripe columns x.toNat data)
    (fun m s => s.src = ecMethodChunkSize * columns * m ∧ s.dst = ecMethodChunkSize * m ∧
      ∀ j < m, ∀ l < ecMethodChunkSize, element s.out (ecMethodChunkSize * j) l =
        stripeValue ⟨x⟩ data (ecMethodChunkSize * columns * j) l columns)
    ⟨rfl, rfl, fun j hj => absurd hj (Nat.not_lt_zero j)⟩
    fun m _ s h => ?_).2.2 j hj l hl
  obtain ⟨hsrc, hdst, hdone⟩ := h
  obtain ⟨hsrc', hdst', hvalue, hother⟩ := encodeStripe_spec hc x data s
  refine ⟨by rw [hsrc', hsrc, Nat.mul_succ], by rw [hdst', hdst, Nat.mul_succ], fun j hj l hl => ?_⟩
  rcases Nat.lt_succ_iff_lt_or_eq.mp hj with hlt | rfl
  · have hapart : Apart (ecMethodChunkSize * j) s.dst := by
      rw [hdst]
      exact .inl (by exact Nat.mul_le_mul_left _ hlt)
    rw [hother _ hapart l hl]
    exact hdone j hlt l hl
  · rw [← hdst, hvalue l hl, hsrc]

/-- The chunks of a stripe of the data are the sums with the coefficients of their rows. -/
lemma decodeStripe_spec {inv : ℕ → ℕ → BitVec 8} (src : ℕ → Buffer)
    (hone : ∀ i < columns, inv i columns ≠ 0#8) (hc : 0 < columns)
    (hmax : columns ≤ ecMethodMaxFragments) (s : Decoding) :
    (decodeStripe columns inv src s).off = s.off + ecMethodChunkSize ∧
      (decodeStripe columns inv src s).dst = s.dst + ecMethodChunkSize * columns ∧
      (∀ i < columns, ∀ l < ecMethodChunkSize,
        element (decodeStripe columns inv src s).out (s.dst + ecMethodChunkSize * i) l =
          partialSum (inv i) src s.off l columns) ∧
      ∀ o, o + ecMethodChunkSize ≤ s.dst → ∀ l < ecMethodChunkSize,
        element (decodeStripe columns inv src s).out o l = element s.out o l := by
  have hloop := runAll_range (decodeChunk columns inv src)
    (fun m s' => s'.off = s.off ∧ s'.dst = s.dst + ecMethodChunkSize * m ∧
      (∀ i < m, ∀ l < ecMethodChunkSize, element s'.out (s.dst + ecMethodChunkSize * i) l =
        partialSum (inv i) src s.off l columns) ∧
      ∀ o, o + ecMethodChunkSize ≤ s.dst → ∀ l < ecMethodChunkSize,
        element s'.out o l = element s.out o l)
    (n := columns)
    ⟨rfl, rfl, fun i hi => absurd hi (Nat.not_lt_zero i), fun _ _ _ _ => rfl⟩ fun m hm s' h => ?_
  · obtain ⟨hoff, hdst, hdone, hother⟩ := hloop
    exact ⟨congrArg (· + ecMethodChunkSize) hoff, hdst, hdone, hother⟩
  · obtain ⟨hoff, hdst, hdone, hother⟩ := h
    obtain ⟨hsum, hrest⟩ := decodeChunk_spec src (hone m hm) hc hmax s'
    refine ⟨hoff, ?_, fun i hi l hl => ?_, fun o ho l hl => ?_⟩
    · show s'.dst + ecMethodChunkSize = s.dst + ecMethodChunkSize * (m + 1)
      rw [hdst, Nat.mul_succ, Nat.add_assoc]
    · rcases Nat.lt_succ_iff_lt_or_eq.mp hi with hlt | rfl
      · have hapart : Apart (s.dst + ecMethodChunkSize * i) s'.dst := by
          rw [hdst]
          refine .inl ?_
          rw [Nat.add_assoc]
          exact Nat.add_le_add_left (Nat.mul_le_mul_left _ hlt) _
        rw [hrest _ hapart l hl]
        exact hdone i hlt l hl
      · rw [← hdst, hsum l hl, hoff]
    · have hapart : Apart o s'.dst := by
        rw [hdst]
        exact .inl (Nat.le_add_right_of_le ho)
      rw [hrest o hapart l hl, hother o ho l hl]

/-- All chunks of the data are the sums with the coefficients of their rows. -/
lemma ecMethodDecode_spec {rows : ℕ → ℕ} {src : ℕ → Buffer} {stripes : ℕ}
    (hone : ∀ i < columns, (invert columns rows).inv i columns ≠ 0#8) (hc : 0 < columns)
    (hmax : columns ≤ ecMethodMaxFragments) (out : Buffer) {f i l : ℕ} (hf : f < stripes)
    (hi : i < columns) (hl : l < ecMethodChunkSize) :
    element (ecMethodDecode (ecMethodChunkSize * stripes) columns rows src out).2
        (ecMethodChunkSize * columns * f + ecMethodChunkSize * i) l =
      partialSum ((invert columns rows).inv i) src (ecMethodChunkSize * f) l columns := by
  have hsize : ecMethodChunkSize * stripes / ecMethodChunkSize = stripes :=
    Nat.mul_div_cancel_left stripes (by decide)
  simp only [ecMethodDecode, hsize]
  generalize (invert columns rows).inv = inv at hone ⊢
  refine (runAll_range (fun _ => decodeStripe columns inv src)
    (fun m s => s.off = ecMethodChunkSize * m ∧ s.dst = ecMethodChunkSize * columns * m ∧
      ∀ f < m, ∀ i < columns, ∀ l < ecMethodChunkSize,
        element s.out (ecMethodChunkSize * columns * f + ecMethodChunkSize * i) l =
          partialSum (inv i) src (ecMethodChunkSize * f) l columns)
    ⟨rfl, rfl, fun f hf => absurd hf (Nat.not_lt_zero f)⟩
    fun m _ s h => ?_).2.2 f hf i hi l hl
  obtain ⟨hoff, hdst, hdone⟩ := h
  obtain ⟨hoff', hdst', hsum, hother⟩ := decodeStripe_spec src hone hc hmax s
  refine ⟨by rw [hoff', hoff, Nat.mul_succ], by rw [hdst', hdst, Nat.mul_succ],
    fun f hf i hi l hl => ?_⟩
  rcases Nat.lt_succ_iff_lt_or_eq.mp hf with hlt | rfl
  · have hle : ecMethodChunkSize * columns * f + ecMethodChunkSize * i + ecMethodChunkSize ≤
        s.dst := by
      rw [hdst, Nat.add_assoc]
      calc ecMethodChunkSize * columns * f + ecMethodChunkSize * (i + 1)
        _ ≤ ecMethodChunkSize * columns * f + ecMethodChunkSize * columns :=
          Nat.add_le_add_left (Nat.mul_le_mul_left _ hi) _
        _ = ecMethodChunkSize * columns * (f + 1) := (Nat.mul_succ _ _).symm
        _ ≤ ecMethodChunkSize * columns * m := Nat.mul_le_mul_left _ hlt
    rw [hother _ hle l hl]
    exact hdone f hlt i hi l hl
  · rw [← hdst, hsum i hi l hl, hoff]

end

variable {columns : ℕ} {rows : ℕ → ℕ}

/-- The sums over the fragments with the coefficients of the inverse are the elements of the
stripe. -/
lemma partialSum_eq (hc : 0 < columns) (hrows : ∀ i < columns, rows i < 255)
    (hinj : ∀ i < columns, ∀ j < columns, rows i = rows j → i = j) {src : ℕ → Buffer}
    {data : Buffer} {off o l i : ℕ} (hi : i < columns)
    (hsrc : ∀ t < columns, element (src t) off l = stripeValue (point rows t) data o l columns) :
    partialSum ((invert columns rows).inv i) src off l columns =
      element data (o + ecMethodChunkSize * i) l := by
  let d : Fin columns → Gf := fun c => element data (o + ecMethodChunkSize * c) l
  calc partialSum ((invert columns rows).inv i) src off l columns
    _ = ∑ t : Fin columns, (⟨(invert columns rows).inv i t⟩ : Gf) *
        ∑ c : Fin columns, powers columns rows t c * d c := by
      rw [partialSum, Finset.sum_range]
      refine Finset.sum_congr rfl fun t _ => ?_
      rw [hsrc t t.isLt, stripeValue, Finset.sum_range]
      rfl
    _ = ∑ c : Fin columns, (∑ t : Fin columns, (⟨(invert columns rows).inv i t⟩ : Gf) *
        powers columns rows t c) * d c := by
      simp only [Finset.mul_sum, Finset.sum_mul, ← mul_assoc]
      exact Finset.sum_comm
    _ = ∑ c : Fin columns, (if (⟨i, hi⟩ : Fin columns) = c then 1 else 0) * d c :=
      Finset.sum_congr rfl fun c _ =>
        congrArg (· * d c) ((invert_eq hc hrows hinj).1 ⟨i, hi⟩ c)
    _ = element data (o + ecMethodChunkSize * i) l := by
      simp only [ite_mul, one_mul, zero_mul, Finset.sum_ite_eq, Finset.mem_univ]
      rfl

/-- The fragments of four bricks, in any order, and two stripes. -/
def fourRows (i : ℕ) : ℕ := [5, 0, 3, 2].getD i 0

end TagItGluster.Ec
