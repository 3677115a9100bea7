import TagItGluster.Ec.Writev

/-!
# Dispersed files are flat files

The stripes of a file have its bytes, and zeros from its end to the end of the last stripe. Each
write submits the bytes of the flat file, so this is kept by writes, and by truncations whose last
stripe is filled up with zeros. A truncation to the size of one fragment does not do that, since its
new size is compared to that of a fragment.
-/

namespace TagItGluster.Ec

open Base List

namespace Disperse

variable (ec : Disperse) {s : Dispersed} {f : File} {offset : Nat}

private lemma stripeSize_pos : 0 < ec.stripeSize := mul_pos (by decide) ec.pos

private lemma fragments_dvd : ec.fragments ∣ ec.stripeSize := dvd_mul_left ..

private lemma adjustOffset_false (offset : Nat) :
    ec.adjustOffset offset false = offset - offset % ec.stripeSize := rfl

private lemma dvd_adjustOffset (offset : Nat) : ec.stripeSize ∣ ec.adjustOffset offset false :=
  Nat.dvd_sub_mod offset

private lemma adjustOffset_add (offset : Nat) :
    ec.adjustOffset offset false + offset % ec.stripeSize = offset :=
  Nat.sub_add_cancel (Nat.mod_le ..)

variable {k n start : Nat} {isChild isAppend : Bool} {bytes : List UInt8} {iobuf : Nat → UInt8}

private lemma le_adjustOffset (hdvd : ec.stripeSize ∣ k) (hle : k ≤ offset) :
    k ≤ ec.adjustOffset offset false := by
  obtain ⟨a, rfl⟩ := hdvd
  have hsplit := Nat.div_add_mod offset ec.stripeSize
  have hquot : a ≤ offset / ec.stripeSize := by
    rw [Nat.le_div_iff_mul_le ec.stripeSize_pos, Nat.mul_comm]
    exact hle
  have := Nat.mul_le_mul_left ec.stripeSize hquot
  rw [adjustOffset_false]
  omega

private lemma adjustOffset_mul (offset : Nat) :
    ec.adjustOffset offset true * ec.fragments = ec.adjustOffset offset false :=
  Nat.div_mul_cancel (ec.fragments_dvd.trans (ec.dvd_adjustOffset offset))

private lemma dvd_adjustSize (size : Nat) : ec.stripeSize ∣ ec.adjustSize size false :=
  Nat.dvd_sub_mod _

private lemma adjustSize_mul (size : Nat) :
    ec.adjustSize size true * ec.fragments = ec.adjustSize size false :=
  Nat.div_mul_cancel (ec.fragments_dvd.trans (ec.dvd_adjustSize size))

private lemma le_adjustSize (size : Nat) : size ≤ ec.adjustSize size false := by
  have hpos := ec.stripeSize_pos
  have hmod := Nat.mod_lt (size + ec.stripeSize - 1) hpos
  simp only [adjustSize]
  rw [if_neg Bool.false_ne_true]
  omega

private lemma adjustSize_lt (size : Nat) : ec.adjustSize size false < size + ec.stripeSize := by
  have hpos := ec.stripeSize_pos
  simp only [adjustSize]
  rw [if_neg Bool.false_ne_true]
  omega

/-- The size is rounded up to the next multiple. -/
lemma adjustSize_le {size : Nat} (hdvd : ec.stripeSize ∣ k) (hle : size ≤ k) :
    ec.adjustSize size false ≤ k := by
  obtain ⟨a, ha⟩ := ec.dvd_adjustSize size
  obtain ⟨b, rfl⟩ := hdvd
  have hlt := ec.adjustSize_lt size
  rw [ha] at hlt ⊢
  refine Nat.mul_le_mul_left _ (Nat.le_of_lt_succ ?_)
  refine Nat.lt_of_mul_lt_mul_left (a := ec.stripeSize) ?_
  rw [Nat.mul_succ]
  omega

private lemma adjustSize_of_dvd (h : ec.stripeSize ∣ k) : ec.adjustSize k false = k :=
  le_antisymm (ec.adjustSize_le h (le_refl k)) (ec.le_adjustSize k)

private lemma adjustSize_add (h : ec.stripeSize ∣ k) (size : Nat) :
    ec.adjustSize (k + size) false = k + ec.adjustSize size false := by
  refine Nat.le_antisymm ?_ ?_
  · exact ec.adjustSize_le (Nat.dvd_add h (ec.dvd_adjustSize size))
      (Nat.add_le_add_left (ec.le_adjustSize size) k)
  · have hle := ec.le_adjustSize (k + size)
    have hdvd : ec.stripeSize ∣ ec.adjustSize (k + size) false - k :=
      Nat.dvd_sub (ec.dvd_adjustSize _) h
    have := ec.adjustSize_le hdvd (show size ≤ ec.adjustSize (k + size) false - k by omega)
    omega

/-- A dispersed file has the size of a flat one, and stripes with its bytes up to there. -/
structure Agrees (s : Dispersed) (f : File) : Prop where
  size_eq : s.size = f.size
  stripes_eq : s.stripes.size = ec.adjustSize f.size false
  byte_eq : ∀ p < f.size, s.stripes.byte p = f.byte p

/-- A dispersed file stands for a flat one: there are zeros behind its end. -/
structure Holds (s : Dispersed) (f : File) : Prop extends ec.Agrees s f where
  padding : ∀ p, f.size ≤ p → s.stripes.byte p = 0

variable {ec}

/-- A read, unless it starts behind the end but in the last stripe. -/
lemma Agrees.readv (h : ec.Agrees s f) (hin : offset ≤ s.size ∨ s.stripes.size ≤ offset)
    (n : Nat) : ec.readv s offset n = f.read offset n := by
  have hsplit := ec.adjustOffset_add offset
  have hasked := ec.le_adjustSize (n + offset % ec.stripeSize)
  have hle := ec.le_adjustSize f.size
  unfold Disperse.readv
  dsimp only
  rw [ec.adjustOffset_mul, ec.adjustSize_mul]
  have hlen := s.stripes.length_read (ec.adjustOffset offset false)
    (ec.adjustSize (n + offset % ec.stripeSize) false)
  rw [h.stripes_eq] at hlen hin
  rw [h.size_eq] at hin ⊢
  split
  · next hzero =>
    refine (eq_nil_of_length_eq_zero ?_).symm
    rw [File.length_read]
    omega
  next hdata =>
  have hstart : offset ≤ f.size := by
    refine hin.resolve_right fun hbehind => ?_
    have := ec.le_adjustOffset (ec.dvd_adjustSize f.size) hbehind
    omega
  rw [sizeSub, if_pos (by omega)]
  refine ext_getElem ?_ fun i hi hi' => ?_
  · simp only [length_take, length_drop, File.length_read, h.stripes_eq]
    omega
  · rw [File.length_read] at hi'
    rw [getElem_take, getElem_drop, File.getElem_read, File.getElem_read, ← add_assoc, hsplit]
    exact h.byte_eq _ (by omega)

private lemma Agrees.readv_stripe (h : ec.Agrees s f) (hdvd : ec.stripeSize ∣ offset) (n : Nat) :
    ec.readv s offset n = f.read offset n := by
  refine h.readv ?_ n
  rw [h.size_eq, h.stripes_eq]
  by_cases hle : offset ≤ f.size
  · exact .inl hle
  · exact .inr (ec.adjustSize_le hdvd (by omega))

variable {userSize head tail : Nat} {buf : List UInt8}

/-- The tail is what the file has there. -/
lemma mergeTail_eq (f : File) (offset : Nat) (htail : tail ≤ ec.stripeSize)
    (hend : start + ec.stripeSize = offset + head + userSize + tail) :
    ec.mergeTail (head + userSize + tail) userSize head (f.read start ec.stripeSize) buf =
      buf.take (head + userSize) ++ f.bytes (offset + head + userSize) tail := by
  have hfilled := f.read_filled start (ec.stripeSize - tail) tail (m := ec.stripeSize) (by omega)
  generalize f.read start ec.stripeSize = data at hfilled ⊢
  have htmp : (if ec.stripeSize - tail < data.length then
      min (data.length - (ec.stripeSize - tail)) tail else 0) =
        min tail (data.length - (ec.stripeSize - tail)) := by
    split
    · omega
    · omega
  have htake : (data.drop (ec.stripeSize - tail)).take
      (min tail (data.length - (ec.stripeSize - tail))) =
        (data.drop (ec.stripeSize - tail)).take tail := by
    rw [take_eq_take_iff, length_drop]
    omega
  unfold mergeTail
  dsimp only
  rw [show head + userSize + tail - userSize - head = tail by omega, Nat.add_sub_cancel, htmp,
    htake, append_assoc, show tail - min tail (data.length - (ec.stripeSize - tail)) =
      tail - (data.length - (ec.stripeSize - tail)) by omega, hfilled,
    show start + (ec.stripeSize - tail) = offset + head + userSize by omega]

/-- The head is what the file has there, and so is the tail of a single stripe. -/
lemma mergeHead_eq (f : File) (hhead : head ≤ ec.stripeSize) (htail : tail ≤ ec.stripeSize) :
    ec.mergeHead (head + userSize + tail) userSize head (f.read offset ec.stripeSize) buf =
      if 0 < tail ∧ head + userSize + tail = ec.stripeSize then
        f.bytes offset head ++ (buf.drop head).take userSize ++
          f.bytes (offset + head + userSize) tail
      else f.bytes offset head ++ buf.drop head := by
  have hfilled := f.read_filled offset 0 head (m := ec.stripeSize) (by omega)
  rw [drop_zero, Nat.sub_zero, Nat.add_zero] at hfilled
  have htake : (f.read offset ec.stripeSize).take (min (f.read offset ec.stripeSize).length head) =
        (f.read offset ec.stripeSize).take head := by
    rw [take_eq_take_iff]
    omega
  unfold mergeHead
  dsimp only
  rw [show head + userSize + tail - userSize - head = tail by omega, htake,
    show head - min (f.read offset ec.stripeSize).length head =
      head - (f.read offset ec.stripeSize).length by omega, hfilled]
  split
  · next hone =>
    have hlen := f.length_bytes offset head
    rw [mergeTail_eq f offset htail (by omega), take_append, hlen, Nat.add_sub_cancel_left,
      take_of_length_le (by omega)]
  · rfl

/-- The buffer of a write after its head: it is complete if it is a single stripe. -/
lemma head_eq (f : File) (bytes : List UInt8) (iobuf : Nat → UInt8) (hhead : head ≤ ec.stripeSize)
    (htail : tail ≤ ec.stripeSize) :
    (if 0 < head then
      ec.mergeHead (head + bytes.length + tail) bytes.length head (f.read offset ec.stripeSize)
        ((List.range head).map iobuf ++ bytes ++ (List.range' (head + bytes.length) tail).map iobuf)
    else
      (List.range head).map iobuf ++ bytes ++ (List.range' (head + bytes.length) tail).map iobuf) =
      f.bytes offset head ++ bytes ++
        if 0 < head ∧ 0 < tail ∧ head + bytes.length + tail = ec.stripeSize then
          f.bytes (offset + head + bytes.length) tail
        else (List.range' (head + bytes.length) tail).map iobuf := by
  have hlen : ((List.range head).map iobuf).length = head := by simp
  by_cases hpos : 0 < head
  · rw [if_pos hpos, mergeHead_eq f hhead htail,
      append_assoc ((List.range head).map iobuf), drop_left' hlen]
    simp only [hpos, true_and]
    split
    · rw [take_left]
    · rw [append_assoc]
  · obtain rfl : head = 0 := by omega
    rfl

/-- The stripes that a write submits have the bytes of the flat file after it. -/
lemma Agrees.writevStart (h : ec.Agrees s f) (offset : Nat) (bytes : List UInt8)
    (iobuf : Nat → UInt8) :
    ec.writevStart s offset bytes iobuf =
      (f.pwrite offset bytes).bytes (ec.adjustOffset offset false)
        (ec.adjustSize (bytes.length + offset % ec.stripeSize) false) := by
  have hpos := ec.stripeSize_pos
  have hhead := Nat.mod_lt offset hpos
  have hsplit := ec.adjustOffset_add offset
  have hstart := ec.dvd_adjustOffset offset
  have hle := ec.le_adjustSize (bytes.length + offset % ec.stripeSize)
  have hlt := ec.adjustSize_lt (bytes.length + offset % ec.stripeSize)
  have hdvd := ec.dvd_adjustSize (bytes.length + offset % ec.stripeSize)
  unfold Disperse.writevStart
  dsimp only
  generalize ec.adjustOffset offset false = start at hsplit hstart ⊢
  generalize offset % ec.stripeSize = head at hhead hsplit hle hlt hdvd ⊢
  obtain ⟨tail, htail⟩ := Nat.exists_eq_add_of_le hle
  rw [htail, Nat.add_comm bytes.length head] at hlt hdvd ⊢
  subst hsplit
  rw [f.bytes_pwrite_around, show head + bytes.length + tail - bytes.length - head = tail by omega,
    h.readv_stripe hstart, head_eq f bytes iobuf (by omega) (by omega)]
  by_cases hzero : tail = 0
  · subst hzero
    simp [File.bytes]
  -- The stripes are not empty, so there is at least one.
  have hone : ec.stripeSize ≤ head + bytes.length + tail := Nat.le_of_dvd (by omega) hdvd
  by_cases hsingle : 0 < head ∧ 0 < tail ∧ head + bytes.length + tail = ec.stripeSize
  · rw [if_neg (by omega), if_pos hsingle]
  have htake : (f.bytes start head ++ bytes ++
      (List.range' (head + bytes.length) tail).map iobuf).take (head + bytes.length) =
        f.bytes start head ++ bytes := take_left' (by simp)
  have hlast : ec.stripeSize ∣ start + (head + bytes.length + tail) - ec.stripeSize :=
    Nat.dvd_sub (Nat.dvd_add hstart hdvd) (Nat.dvd_refl _)
  rw [if_neg hsingle, if_pos (by omega), h.readv_stripe hlast, h.size_eq,
    mergeTail_eq f start (by omega) (by omega), Nat.add_sub_cancel, htake]
  split
  · rfl
  · next hend => rw [f.bytes_beyond (Nat.not_lt.mp hend)]

/-- The stripes after a write. -/
lemma Agrees.stripes_writev (h : ec.Agrees s f)
    (hstart : start = if isAppend then s.size else offset) :
    (ec.writev s isChild isAppend offset bytes iobuf).stripes =
      s.stripes.pwrite (ec.adjustOffset start false)
        ((f.pwrite start bytes).bytes (ec.adjustOffset start false)
          (ec.adjustSize (bytes.length + start % ec.stripeSize) false)) := by
  unfold writev
  dsimp only
  rw [← hstart, h.writevStart,
    Nat.div_mul_cancel (ec.fragments_dvd.trans (ec.dvd_adjustOffset start))]

/-- The stripes of a write end where the stripe with its last byte ends. -/
lemma adjustOffset_add_adjustSize (start len : Nat) :
    ec.adjustOffset start false + ec.adjustSize (len + start % ec.stripeSize) false =
      ec.adjustSize (start + len) false := by
  have hsplit := ec.adjustOffset_add start
  rw [← ec.adjustSize_add (ec.dvd_adjustOffset start)]
  congr 1
  omega

private lemma Agrees.size_writev (h : ec.Agrees s f)
    (hstart : start = if isAppend then s.size else offset) (hok : bytes ≠ [] ∨ start ≤ f.size) :
    (ec.writev s isChild isAppend offset bytes iobuf).stripes.size =
      ec.adjustSize (max f.size (start + bytes.length)) false := by
  have hend := ec.adjustOffset_add_adjustSize start bytes.length
  have hmono : Monotone fun size => ec.adjustSize size false := fun _ n h =>
    ec.adjustSize_le (ec.dvd_adjustSize n) (h.trans (ec.le_adjustSize n))
  have hmax := hmono.map_max (a := f.size) (b := start + bytes.length)
  rw [h.stripes_writev hstart, hmax, ← hend, ← h.stripes_eq]
  by_cases hzero : ec.adjustSize (bytes.length + start % ec.stripeSize) false = 0
  · -- Nothing is written at the start of a stripe.
    have hle := ec.le_adjustSize (bytes.length + start % ec.stripeSize)
    have hnil : bytes = [] := eq_nil_of_length_eq_zero (by omega)
    have hin := hok.resolve_left (not_not.mpr hnil)
    have hsplit := ec.adjustOffset_add start
    have hstripes := ec.le_adjustSize f.size
    rw [← h.stripes_eq] at hstripes
    rw [hzero, max_eq_left (by omega)]
    simp [File.bytes]
  · rw [File.size_pwrite _ _ (by simpa [File.bytes] using hzero), File.length_bytes]

private lemma Holds.byte (h : ec.Holds s f) (p : Nat) : s.stripes.byte p = f.byte p := by
  by_cases hp : p < f.size
  · exact h.byte_eq p hp
  · rw [h.padding p (by omega), f.beyond p (by omega)]

private lemma Holds.writev (h : ec.Holds s f) (iobuf : Nat → UInt8)
    (hstart : start = if isAppend then s.size else offset) (hok : bytes ≠ [] ∨ start ≤ f.size) :
    ec.Holds (ec.writev s false isAppend offset bytes iobuf) (f.pwrite start bytes) := by
  have hsize : (f.pwrite start bytes).size = max f.size (start + bytes.length) := by
    by_cases hnil : bytes = []
    · subst hnil
      have := hok.resolve_left (not_not.mpr rfl)
      rw [File.pwrite_nil, length_nil, add_zero, max_eq_left this]
    · exact f.size_pwrite _ hnil
  have hbyte : ∀ p, (ec.writev s false isAppend offset bytes iobuf).stripes.byte p =
      (f.pwrite start bytes).byte p := by
    intro p
    rw [h.stripes_writev hstart, File.byte_pwrite_bytes, adjustOffset_add_adjustSize]
    split
    · rfl
    · next hout =>
      have hsplit := ec.adjustOffset_add start
      have hend := ec.le_adjustSize (start + bytes.length)
      rw [h.byte, File.byte_pwrite_of_not _ (by omega)]
  refine ⟨⟨?_, ?_, fun p _ => hbyte p⟩, fun p hp => ?_⟩
  · have hsplit := ec.adjustOffset_add start
    unfold Disperse.writev
    rw [← hstart, h.size_eq]
    simp only [Bool.not_false, and_true]
    split
    · omega
    · omega
  · rw [h.size_writev hstart hok, hsize]
  · rw [hbyte, File.beyond _ p hp]

/-- The size of a fragment is that of the file only for one fragment or one chunk. -/
lemma adjustSize_eq_self (h : n = ec.adjustSize n true)
    (hok : n = ecMethodChunkSize → ec.fragments = 1) : ec.adjustSize n false = n := by
  by_cases hone : ec.fragments = 1
  · have hmul := ec.adjustSize_mul n
    rw [← h, hone, mul_one] at hmul
    exact hmul.symm
  have hpos := ec.pos
  obtain ⟨q, hq⟩ := ec.dvd_adjustSize n
  have hmul := ec.adjustSize_mul n
  rw [← h, hq, stripeSize, mul_right_comm] at hmul
  have hn : n = ecMethodChunkSize * q := Nat.eq_of_mul_eq_mul_right hpos hmul
  -- A second stripe would be more than is added to the size.
  have hfew : q < 2 := by
    by_contra hmany
    have hlt := ec.adjustSize_lt n
    rw [hq, stripeSize, hn, ← mul_add, mul_assoc] at hlt
    have hlt := lt_of_mul_lt_mul_left hlt
    obtain ⟨a, ha⟩ := Nat.exists_eq_add_of_le (show 2 ≤ ec.fragments by omega)
    obtain ⟨b, hb⟩ := Nat.exists_eq_add_of_le (Nat.not_lt.mp hmany)
    rw [ha, hb] at hlt
    have : (2 + a) * (2 + b) = 4 + 2 * a + 2 * b + a * b := by ring
    omega
  have hzero : q = 0 := by
    by_contra hne
    obtain rfl : q = 1 := by omega
    exact hone (hok (hn.trans (mul_one _)))
  rw [hq, hn, hzero]
  rfl

private lemma Holds.cut (h : ec.Holds s f) (n : Nat) :
    ec.Agrees ⟨s.stripes.truncate (ec.adjustSize n true * ec.fragments), n⟩ (f.truncate n) := by
  have hle := ec.le_adjustSize n
  refine ⟨rfl, ec.adjustSize_mul n, fun p hp => ?_⟩
  have hp : p < n := hp
  rw [ec.adjustSize_mul, File.byte_truncate, File.byte_truncate, if_pos (by omega), if_pos hp,
    h.byte]

/-- A truncation, unless the file was larger and the new size is that of one fragment of many. -/
lemma Holds.truncate (h : ec.Holds s f) (iobuf : Nat → UInt8)
    (hok : n < s.size → n = ecMethodChunkSize → ec.fragments = 1) :
    ec.Holds (ec.truncate s isAppend n iobuf) (f.truncate n) := by
  have hcut := h.cut n
  have hle := ec.le_adjustSize n
  unfold Disperse.truncate
  dsimp only
  split
  · rw [ec.adjustSize_mul] at hcut ⊢
    have hstart : n = if isAppend then n else n := (ite_self n).symm
    have hend : ec.adjustSize
        (n + (List.replicate (ec.adjustSize n false - n) (0 : UInt8)).length) false =
          ec.adjustSize n false := by
      rw [length_replicate, Nat.add_sub_cancel' hle]
      exact ec.adjustSize_of_dvd (ec.dvd_adjustSize n)
    have hbyte : ∀ p, (ec.writev ⟨s.stripes.truncate (ec.adjustSize n false), n⟩ true isAppend n
        (List.replicate (ec.adjustSize n false - n) 0) iobuf).stripes.byte p =
          (f.truncate n).byte p := by
      intro p
      rw [hcut.stripes_writev hstart, File.byte_pwrite_bytes, adjustOffset_add_adjustSize,
        File.byte_pwrite_zeros _ (le_refl n)]
      split
      · rfl
      next hout =>
      have hsplit := ec.adjustOffset_add n
      by_cases hp : p < n
      · exact hcut.byte_eq p hp
      · rw [File.beyond _ p (show (f.truncate n).size ≤ p by simpa using hp)]
        exact if_neg (by omega)
    refine ⟨⟨?_, ?_, fun p _ => hbyte p⟩, fun p hp => ?_⟩
    · unfold Disperse.writev
      simp
    · rw [hcut.size_writev hstart (.inr (le_refl n)), length_replicate,
        File.size_truncate, Nat.add_sub_cancel' hle, max_eq_right hle]
      exact ec.adjustSize_of_dvd (ec.dvd_adjustSize n)
    · rw [hbyte, File.beyond _ p hp]
  · next hclean =>
    refine ⟨hcut, fun p hp => ?_⟩
    have hp : n ≤ p := hp
    rw [ec.adjustSize_mul, File.byte_truncate, h.byte]
    by_cases hlt : n < s.size
    · have heq : n = ec.adjustSize n true := by
        by_contra hne
        exact hclean ⟨hlt, hne⟩
      rw [adjustSize_eq_self heq (hok hlt), if_neg (by omega)]
    · rw [f.beyond p (by rw [← h.size_eq]; omega), ite_self]

variable (ec)

private lemma holds_empty : ec.Holds .empty .empty := by
  refine ⟨⟨rfl, ?_, fun p _ => rfl⟩, fun p _ => rfl⟩
  exact (ec.adjustSize_of_dvd (dvd_zero _)).symm

/-- A write has a byte or starts in the file, and a larger file is not truncated to the size of one
fragment of many. -/
def Keeps : DisperseOp → Dispersed → Prop
  | .writev isAppend offset bytes _, s =>
    bytes ≠ [] ∨ (if isAppend then s.size else offset) ≤ s.size
  | .truncate _ size _, s => size < s.size → size = ecMethodChunkSize → ec.fragments = 1

instance : ∀ op s, Decidable (ec.Keeps op s)
  | .writev isAppend offset bytes _, s =>
    inferInstanceAs (Decidable (bytes ≠ [] ∨ (if isAppend then s.size else offset) ≤ s.size))
  | .truncate _ size _, s =>
    inferInstanceAs (Decidable (size < s.size → size = ecMethodChunkSize → ec.fragments = 1))

variable {ec}

private lemma Holds.step (h : ec.Holds s f) {op : DisperseOp} (hok : ec.Keeps op s) :
    ec.Holds (ec.step op s) (op.apply f) := by
  cases op with
  | writev isAppend offset bytes iobuf =>
    refine h.writev iobuf ?_ ?_
    · rw [h.size_eq]
    · unfold Keeps at hok
      dsimp only at hok
      rwa [h.size_eq] at hok
  | truncate isAppend size iobuf => exact h.truncate iobuf hok

private lemma Holds.run (h : ec.Holds s f) {ops : List DisperseOp}
    (hops : Throughout ec.step ec.Keeps ops s) :
    ec.Holds (runAll ec.step ops s) (runAll DisperseOp.apply ops f) := by
  induction ops generalizing s f with
  | nil => exact h
  | cons op ops ih => exact ih (h.step hops.1) hops.2

end Disperse

/-- A dispersed file is the flat file: it has its size, its bytes and zeros behind them up to the
end of the last stripe. Each write submits the bytes that the flat file has after it, and a read
gets those that the flat file has, unless it starts behind the end but in the last stripe. -/
theorem disperse_refines_flat (ec : Disperse) {ops : List DisperseOp}
    (hops : Throughout ec.step ec.Keeps ops .empty) :
    let s := runAll ec.step ops .empty
    let f := runAll DisperseOp.apply ops .empty
    s.size = f.size ∧ (∀ p, s.size ≤ p → s.stripes.byte p = 0) ∧
      (∀ offset bytes iobuf, ec.writevStart s offset bytes iobuf =
        (f.pwrite offset bytes).bytes (ec.adjustOffset offset false)
          (ec.adjustSize (bytes.length + offset % ec.stripeSize) false)) ∧
      ∀ offset n, offset ≤ s.size ∨ s.stripes.size ≤ offset →
        ec.readv s offset n = f.read offset n := by
  have h := ec.holds_empty.run hops
  refine ⟨h.size_eq, fun p hp => ?_, h.writevStart, fun offset n hin => h.readv hin n⟩
  exact h.padding p (h.size_eq ▸ hp)

/-- A write behind a hole is cut and something is appended, with two fragments. -/
theorem disperse_refines_flat_append :
    Disperse.readv ⟨2, by decide⟩ (runAll (Disperse.step ⟨2, by decide⟩)
      [.writev false 5 [1, 2, 3] fun _ => 255, .truncate false 6 fun _ => 255,
        .writev true 0 [9] fun _ => 255] .empty) 0 20 = [0, 0, 0, 0, 0, 1, 9] := by
  have hops : Throughout (Disperse.step ⟨2, by decide⟩) (Disperse.Keeps ⟨2, by decide⟩)
      [.writev false 5 [1, 2, 3] fun _ => 255, .truncate false 6 fun _ => 255,
        .writev true 0 [9] fun _ => 255] .empty := by decide
  obtain ⟨-, -, -, hread⟩ := disperse_refines_flat ⟨2, by decide⟩ hops
  exact (hread 0 20 (.inl (Nat.zero_le _))).trans (by decide)

/-- With two fragments a byte is still there after the file has been truncated to 512 bytes and
extended. A read behind the end gets the zeros of the last stripe, and an empty write moves the
end. -/
theorem disperse_not_flat :
    let cut : List DisperseOp := [.writev false 600 [7] fun _ => 255,
      .truncate false 512 fun _ => 255, .truncate false 601 fun _ => 255]
    let one : List DisperseOp := [.writev false 0 [7] fun _ => 255]
    let nothing : List DisperseOp := [.writev false 5 [] fun _ => 255]
    let ec : Disperse := ⟨2, by decide⟩
    (ec.readv (runAll ec.step cut .empty) 600 1 = [7] ∧
      (runAll DisperseOp.apply cut .empty).read 600 1 = [0]) ∧
    (ec.readv (runAll ec.step one .empty) 2 3 = [0, 0, 0] ∧
      (runAll DisperseOp.apply one .empty).read 2 3 = []) ∧
    (runAll ec.step nothing .empty).size = 5 ∧
      (runAll DisperseOp.apply nothing .empty).size = 0 := by
  decide +kernel

end TagItGluster.Ec
