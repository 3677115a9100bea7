import Mathlib.Tactic.Ring
import TagItGluster.Base.File

/-!
# Coalesced striping

A file is cut into chunks of the stripe size, which are dealt out to the members in turn. In
coalesced mode each member has its chunks one behind the other, so an offset in the file is mapped
to an offset in the file of a member, and the size of a member's file back to the size of the whole.
An array of replies that is too short is written beyond its end, which is not defined; a read that
winds nothing gets no answer. Line numbers: `xlators/cluster/stripe/src/stripe.c`.
-/

namespace TagItGluster.Stripe

open Base

/-- The macro `roof` (common-utils.h:53). -/
def roof (a b : Nat) : Nat := (a + b - 1) / b * b

/-- The macro `floor` (common-utils.h:54). -/
def floor (a b : Nat) : Nat := a / b * b

/-- The layout of a file over its members. -/
structure Layout where
  stripeSize : Nat
  stripeCount : Nat
  size_pos : 0 < stripeSize
  count_pos : 0 < stripeCount

/-- The files of the members. -/
abbrev Members := Nat → File

namespace Layout

variable (c : Layout)

/-- `coalesced_offset` (stripe-helpers.c:623). -/
def coalescedOffset (offset : Nat) : Nat :=
  offset / (c.stripeSize * c.stripeCount) * c.stripeSize + offset % c.stripeSize

/-- `uncoalesced_size` (stripe-helpers.c:639). -/
def uncoalescedSize (size index : Nat) : Nat :=
  if size = 0 then size
  else
    let chunks := size / c.stripeSize * c.stripeCount
    let mod := size % c.stripeSize
    if mod = 0 then (chunks - (c.stripeCount - (index + 1))) * c.stripeSize
    else (chunks + index) * c.stripeSize + mod

/-- The offset to which `stripe_truncate` cuts a member. -/
def destOffset (offset i : Nat) : Nat :=
  let eofIdx := offset / c.stripeSize % c.stripeCount
  c.coalescedOffset <| if i < eofIdx then roof offset (c.stripeSize * c.stripeCount)
    else if eofIdx < i then floor offset (c.stripeSize * c.stripeCount)
    else offset

/-- `stripe_truncate` (642) and `stripe_ftruncate` (3019). -/
def truncate (m : Members) (offset : Nat) : Members := fun i =>
  if i < c.stripeCount then (m i).truncate (c.destOffset offset i) else m i

/-- The number of chunks in a range, as `stripe_readv` and `stripe_writev` count them. -/
def chunks (offset size : Nat) : Nat :=
  (roof (offset + size) c.stripeSize - floor offset c.stripeSize) / c.stripeSize

/-- The loop of `stripe_writev`, with the replies that are left in the array. -/
def writeFrom : Nat → Nat → List UInt8 → Members → Option Members
  | 0, _, _, _ => none
  | room + 1, offset, bytes, m =>
    let idx := offset / c.stripeSize % c.stripeCount
    let fillSize := min (c.stripeSize - offset % c.stripeSize) bytes.length
    let m := Function.update m idx ((m idx).pwrite (c.coalescedOffset offset) (bytes.take fillSize))
    if bytes.drop fillSize = [] then some m
    else writeFrom room (offset + fillSize) (bytes.drop fillSize) m

/-- `stripe_writev` (3633). -/
def writev (m : Members) (offset : Nat) (bytes : List UInt8) : Option Members :=
  c.writeFrom (c.chunks offset bytes.length) offset bytes m

/-- The size of the file: the largest one over the members. -/
def fileSize (m : Members) : Nat :=
  ((List.range c.stripeCount).map fun i => c.uncoalescedSize (m i).size i).foldl max 0

/-- The loop of `stripe_readv`: the requested sizes and the replies. -/
def readFrom (m : Members) (offset size : Nat) : Nat → Nat → Nat → List (Nat × List UInt8)
  | 0, _, _ => []
  | num + 1, index, frameOffset =>
    let frameSize := min (roof (frameOffset + 1) c.stripeSize) (offset + size) - frameOffset
    let reply := (m (index % c.stripeCount)).read (c.coalescedOffset frameOffset) frameSize
    (frameSize, reply) :: readFrom m offset size num (index + 1) (frameOffset + frameSize)

/-- The loop of `stripe_readv_fstat_cbk` (3181), which puts zeros behind short replies. -/
def fillIn (stbufSize offset : Nat) : Nat → List (Nat × List UInt8) → List UInt8
  | _, [] => []
  | opRet, (requested, reply) :: replies =>
    let opRet := opRet + reply.length
    if reply.length < requested ∧ offset + opRet < stbufSize then
      let len := requested - reply.length
      reply ++ List.replicate len 0 ++ fillIn stbufSize offset (opRet + len) replies
    else reply ++ fillIn stbufSize offset opRet replies

/-- `stripe_readv` (3429) with its callbacks. -/
def readv (m : Members) (offset size : Nat) : Option (List UInt8) :=
  let numStripe := c.chunks offset size
  let replies := c.readFrom m offset size numStripe (offset / c.stripeSize % c.stripeCount) offset
  if numStripe = 0 then none
  else if replies.any fun r => r.2.length < r.1 then
    some (fillIn (c.fileSize m) offset 0 replies)
  else some (replies.flatMap Prod.snd)

end Layout

/-- Numbers in a base compare first by the high digit. -/
lemma mul_add_lt_iff {n x y a b : Nat} (hy : y < n) (hb : b < n) :
    x * n + y < a * n + b ↔ x < a ∨ x = a ∧ y < b := by
  rcases Nat.lt_trichotomy x a with h | h | h
  · have := Nat.mul_le_mul_right n h
    rw [Nat.succ_mul] at this
    omega
  · subst h
    omega
  · have := Nat.mul_le_mul_right n h
    rw [Nat.succ_mul] at this
    omega

private lemma mul_add_eq_iff {n x y a b : Nat} (hy : y < n) (hb : b < n) :
    x * n + y = a * n + b ↔ x = a ∧ y = b := by
  have hlt := mul_add_lt_iff (x := x) (a := a) hy hb
  have hgt := mul_add_lt_iff (x := a) (a := x) hb hy
  omega

private lemma lt_mul_add_iff {n j a b : Nat} (hb : b < n) :
    j < a * n + b ↔ j / n < a ∨ j / n = a ∧ j % n < b := by
  have h := mul_add_lt_iff (x := j / n) (a := a) (Nat.mod_lt j (Nat.zero_lt_of_lt hb)) hb
  rwa [Nat.div_add_mod'] at h

private lemma roof_eq {a b : Nat} (h : 0 < a % b) (hb : 0 < b) : roof a b = (a / b + 1) * b := by
  have hsplit := Nat.div_add_mod' a b
  have hlt := Nat.mod_lt a hb
  have hdiv : (a + b - 1) / b = a / b + 1 := by
    refine Nat.div_eq_of_lt_le ?_ ?_
    · rw [Nat.succ_mul]
      omega
    · rw [Nat.succ_mul, Nat.succ_mul]
      omega
  rw [roof, hdiv]

variable (c : Layout) {p k i j : Nat}

namespace Layout

/-- The member that has the byte at an offset of the file. -/
def member (p : Nat) : Nat := p / c.stripeSize % c.stripeCount

/-- The offset in the file of the byte `j` of member `i`. -/
def position (i j : Nat) : Nat :=
  (j / c.stripeSize * c.stripeCount + i) * c.stripeSize + j % c.stripeSize

lemma member_lt (p : Nat) : c.member p < c.stripeCount := Nat.mod_lt _ c.count_pos

private lemma coalescedOffset_div (p : Nat) :
    c.coalescedOffset p / c.stripeSize = p / c.stripeSize / c.stripeCount := by
  rw [coalescedOffset, add_comm, Nat.add_mul_div_right _ _ c.size_pos,
    Nat.div_eq_of_lt (Nat.mod_lt _ c.size_pos), zero_add, Nat.div_div_eq_div_mul]

private lemma coalescedOffset_mod (p : Nat) :
    c.coalescedOffset p % c.stripeSize = p % c.stripeSize := by
  rw [coalescedOffset, add_comm, Nat.add_mul_mod_self_right, Nat.mod_mod]

lemma position_member (p : Nat) : c.position (c.member p) (c.coalescedOffset p) = p := by
  rw [position, coalescedOffset_div, coalescedOffset_mod, member, Nat.div_add_mod',
    Nat.div_add_mod']

lemma position_lt (hi : i < c.stripeCount) {j' : Nat} :
    c.position i j < c.position i j' ↔ j < j' := by
  have hdiv : ∀ x y, x * c.stripeCount + i < y * c.stripeCount + i ↔ x < y := by
    intro x y
    rw [mul_add_lt_iff hi hi]
    omega
  have hlex := mul_add_lt_iff (x := j / c.stripeSize) (a := j' / c.stripeSize)
    (Nat.mod_lt j c.size_pos) (Nat.mod_lt j' c.size_pos)
  rw [Nat.div_add_mod', Nat.div_add_mod'] at hlex
  rw [position, position, mul_add_lt_iff (Nat.mod_lt _ c.size_pos) (Nat.mod_lt _ c.size_pos), hdiv,
    hlex, Nat.add_right_cancel_iff, Nat.mul_left_inj (Nat.ne_of_gt c.count_pos)]

/-- Within a chunk the offset in the member moves with the offset in the file. -/
lemma coalescedOffset_add (h : p % c.stripeSize + k < c.stripeSize) :
    c.coalescedOffset (p + k) = c.coalescedOffset p + k ∧ c.member (p + k) = c.member p := by
  have hdiv : (p + k) / c.stripeSize = p / c.stripeSize := by
    rw [Nat.add_div c.size_pos, Nat.div_eq_of_lt (Nat.lt_of_le_of_lt (Nat.le_add_left k _) h),
      Nat.mod_eq_of_lt (Nat.lt_of_le_of_lt (Nat.le_add_left k _) h), if_neg (by omega)]
    rfl
  have hmod : (p + k) % c.stripeSize = p % c.stripeSize + k := by
    have h₁ := Nat.div_add_mod' (p + k) c.stripeSize
    have h₂ := Nat.div_add_mod' p c.stripeSize
    rw [hdiv] at h₁
    omega
  constructor
  · rw [coalescedOffset, coalescedOffset, ← Nat.div_div_eq_div_mul, ← Nat.div_div_eq_div_mul, hdiv,
      hmod, Nat.add_assoc]
  · rw [member, member, hdiv]

variable (hi : i < c.stripeCount)
include hi

/-- The uncoalesced size of a member ends behind its last byte. -/
lemma uncoalescedSize_eq {size : Nat} (hsize : 0 < size) :
    c.uncoalescedSize size i = c.position i (size - 1) + 1 := by
  have hpos := c.size_pos
  have hsplit := Nat.div_add_mod' size c.stripeSize
  have hmod := Nat.mod_lt size hpos
  unfold uncoalescedSize
  rw [if_neg (by omega)]
  dsimp only
  split
  · next hzero =>
    -- The last chunk is full, and is the one before the quotient.
    obtain ⟨a, ha⟩ : ∃ a, size / c.stripeSize = a + 1 := by
      refine Nat.exists_eq_succ_of_ne_zero fun h => ?_
      rw [h] at hsplit
      omega
    rw [ha] at hsplit ⊢
    rw [Nat.succ_mul] at hsplit
    obtain ⟨hdiv, hrem⟩ := (Nat.div_mod_unique hpos).mpr
      ⟨show c.stripeSize - 1 + c.stripeSize * a = size - 1 by rw [mul_comm]; omega,
        Nat.sub_lt hpos one_pos⟩
    have hchunks : (a + 1) * c.stripeCount - (c.stripeCount - (i + 1)) =
        a * c.stripeCount + i + 1 := by
      rw [Nat.succ_mul]
      omega
    rw [position, hdiv, hchunks, Nat.succ_mul]
    omega
  · next hrest =>
    obtain ⟨hdiv, hrem⟩ := (Nat.div_mod_unique hpos).mpr
      ⟨show size % c.stripeSize - 1 + c.stripeSize * (size / c.stripeSize) = size - 1 by
        rw [mul_comm]; omega, show size % c.stripeSize - 1 < c.stripeSize by omega⟩
    rw [position, hdiv]
    omega

/-- Offsets are compared by line, then by member, then within the chunk. -/
lemma position_lt_iff {offset : Nat} : c.position i j < offset ↔
      j / c.stripeSize < offset / c.stripeSize / c.stripeCount ∨
        j / c.stripeSize = offset / c.stripeSize / c.stripeCount ∧ (i < c.member offset ∨
            i = c.member offset ∧ j % c.stripeSize < offset % c.stripeSize) := by
  have hcol := Nat.mod_lt (offset / c.stripeSize) c.count_pos
  have hchunk := mul_add_lt_iff (x := j / c.stripeSize)
    (a := offset / c.stripeSize / c.stripeCount) hi hcol
  have heq := mul_add_eq_iff (x := j / c.stripeSize)
    (a := offset / c.stripeSize / c.stripeCount) hi hcol
  have hwhole := mul_add_lt_iff (x := j / c.stripeSize * c.stripeCount + i)
    (a := offset / c.stripeSize) (Nat.mod_lt j c.size_pos) (Nat.mod_lt offset c.size_pos)
  rw [Nat.div_add_mod'] at hchunk heq hwhole
  tauto

/-- A member keeps the bytes in front of the offset to which the file is cut. -/
lemma lt_destOffset {offset : Nat} : j < c.destOffset offset i ↔ c.position i j < offset := by
  have hpos := c.size_pos
  have hline : 0 < c.stripeSize * c.stripeCount := Nat.mul_pos hpos c.count_pos
  have hdiv : offset / (c.stripeSize * c.stripeCount) =
      offset / c.stripeSize / c.stripeCount := (Nat.div_div_eq_div_mul ..).symm
  have hmultiple : ∀ a, c.coalescedOffset (a * (c.stripeSize * c.stripeCount)) =
      a * c.stripeSize + 0 := by
    intro a
    rw [coalescedOffset, Nat.mul_div_cancel _ hline, Nat.mul_left_comm, Nat.mul_mod_right]
  rw [c.position_lt_iff hi]
  change j < c.coalescedOffset (if i < c.member offset then _ else if c.member offset < i then _
    else _) ↔ _
  rcases Nat.lt_trichotomy i (c.member offset) with hlt | heq | hgt
  · have hrest : 0 < offset % (c.stripeSize * c.stripeCount) := by
      refine Nat.pos_of_ne_zero fun hzero => ?_
      obtain ⟨a, rfl⟩ := Nat.dvd_of_mod_eq_zero hzero
      rw [member, Nat.mul_assoc, Nat.mul_div_cancel_left _ hpos, Nat.mul_mod_right] at hlt
      cases hlt
    rw [if_pos hlt, roof_eq hrest hline, hmultiple, lt_mul_add_iff hpos]
    omega
  · rw [if_neg (by omega), if_neg (by omega), coalescedOffset, lt_mul_add_iff (Nat.mod_lt _ hpos)]
    omega
  · rw [if_neg (by omega), if_pos hgt, floor, hmultiple, lt_mul_add_iff hpos]
    omega

end Layout

end TagItGluster.Stripe
