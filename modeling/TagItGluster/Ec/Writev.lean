import TagItGluster.Base.File
import TagItGluster.Ec.Method

/-!
# Reads, writes and truncations of dispersed files

A dispersed file is read and written in whole stripes, one fragment of which is on each brick. Its
size is kept apart. A write reads the stripes that it does not fill, and a truncation to a smaller
size writes zeros up to the end of the last stripe. All bricks are good and what is decoded is what
has been encoded, so the bricks are one file of stripes here. Line numbers:
`xlators/cluster/ec/src/ec-inode-write.c`.
-/

namespace TagItGluster.Ec

open Base

/-- The fragments of a stripe that have data. -/
structure Disperse where
  fragments : Nat
  pos : 0 < fragments

/-- A file: the stripes on the bricks, and the size in the context of the inode. -/
structure Dispersed where
  stripes : File
  size : Nat

/-- The difference of two values of type `size_t`. -/
def sizeSub (a b : Nat) : Nat := if b ≤ a then a - b else a + 2 ^ 64 - b

namespace Disperse

variable (ec : Disperse)

/-- The field `stripe_size`, as `ec_parse_options` (ec.c:44) sets it. -/
def stripeSize : Nat := ecMethodChunkSize * ec.fragments

/-- What `ec_adjust_offset` (ec-helpers.c:713) leaves in the offset. -/
def adjustOffset (offset : Nat) (scale : Bool) : Nat :=
  let tmp := offset - offset % ec.stripeSize
  if scale then tmp / ec.fragments else tmp

/-- `ec_adjust_size` (ec-helpers.c:730). -/
def adjustSize (size : Nat) (scale : Bool) : Nat :=
  let size := size + ec.stripeSize - 1
  let size := size - size % ec.stripeSize
  if scale then size / ec.fragments else size

/-- `ec_manager_readv` (ec-inode-read.c:1408) and `ec_readv_rebuild` (ec-inode-read.c:1173). -/
def readv (s : Dispersed) (offset userSize : Nat) : List UInt8 :=
  let head := offset % ec.stripeSize
  let offset := ec.adjustOffset offset true
  let size := ec.adjustSize (userSize + head) true
  let data := s.stripes.read (offset * ec.fragments) (size * ec.fragments)
  if data.length = 0 then []
  else
    let max := min (offset * ec.fragments + data.length) s.size
    let max := min (sizeSub max (offset * ec.fragments + head)) userSize
    (data.drop head).take max

/-- `ec_writev_merge_tail` (1320). -/
def mergeTail (size userSize head : Nat) (data buf : List UInt8) : List UInt8 :=
  let tail := size - userSize - head
  let base := ec.stripeSize - tail
  let tmp := if base < data.length then min (data.length - base) tail else 0
  buf.take (size - tail) ++ (data.drop base).take tmp ++ List.replicate (tail - tmp) 0

/-- `ec_writev_merge_head` (1353). -/
def mergeHead (size userSize head : Nat) (data buf : List UInt8) : List UInt8 :=
  let base := min data.length head
  let buf := data.take base ++ List.replicate (head - base) 0 ++ buf.drop head
  if 0 < size - userSize - head ∧ size = ec.stripeSize then
    ec.mergeTail size userSize head data buf
  else buf

/-- The stripes that `ec_writev_start` (1392) submits, where the new buffer had some content. -/
def writevStart (s : Dispersed) (offset : Nat) (bytes : List UInt8) (iobuf : Nat → UInt8) :
    List UInt8 :=
  let userSize := bytes.length
  let head := offset % ec.stripeSize
  let offset := ec.adjustOffset offset false
  let size := ec.adjustSize (userSize + head) false
  let tail := size - userSize - head
  let buf := (List.range head).map iobuf ++ bytes ++ (List.range' (head + userSize) tail).map iobuf
  let buf :=
    if 0 < head then
      ec.mergeHead size userSize head (ec.readv s offset ec.stripeSize) buf
    else buf
  if 0 < tail ∧ (head = 0 ∨ ec.stripeSize < size) then
    if offset + head + userSize < s.size then
      ec.mergeTail size userSize head (ec.readv s (offset + size - ec.stripeSize) ec.stripeSize) buf
    else buf.take (size - tail) ++ List.replicate tail 0
  else buf

/-- `ec_manager_writev` (1567); the size is left alone if the write is a part of another call. -/
def writev (s : Dispersed) (isChild isAppend : Bool) (offset : Nat) (bytes : List UInt8)
    (iobuf : Nat → UInt8) : Dispersed :=
  let offset := if isAppend then s.size else offset
  let vector := ec.writevStart s offset bytes iobuf
  let head := offset % ec.stripeSize
  let offset := ec.adjustOffset offset false
  let size := offset + head + bytes.length
  { stripes := s.stripes.pwrite (offset / ec.fragments * ec.fragments) vector
    size := if s.size < size ∧ !isChild then size else s.size }

/-- `ec_manager_truncate` (1016) with `ec_truncate_write` (912). -/
def truncate (s : Dispersed) (isAppend : Bool) (userSize : Nat) (iobuf : Nat → UInt8) : Dispersed :=
  let offset := ec.adjustSize userSize true
  let cut : Dispersed :=
    { stripes := s.stripes.truncate (offset * ec.fragments)
      size := userSize }
  if userSize < s.size ∧ userSize ≠ offset then
    ec.writev cut true isAppend userSize (List.replicate (offset * ec.fragments - userSize) 0) iobuf
  else cut

end Disperse

/-- A call that changes a file, with what is in the buffers that it gets. -/
inductive DisperseOp where
  | writev (isAppend : Bool) (offset : Nat) (bytes : List UInt8) (iobuf : Nat → UInt8)
  | truncate (isAppend : Bool) (size : Nat) (iobuf : Nat → UInt8)

/-- A call on a dispersed file. -/
def Disperse.step (ec : Disperse) : DisperseOp → Dispersed → Dispersed
  | .writev isAppend offset bytes iobuf, s => ec.writev s false isAppend offset bytes iobuf
  | .truncate isAppend size iobuf, s => ec.truncate s isAppend size iobuf

/-- The call on a flat file. -/
def DisperseOp.apply : DisperseOp → File → File
  | .writev isAppend offset bytes _, f => f.pwrite (if isAppend then f.size else offset) bytes
  | .truncate _ size _, f => f.truncate size

/-- A new file. -/
def Dispersed.empty : Dispersed := ⟨.empty, 0⟩

/-- What `ec_writev_cbk` (1492) and the end of `ec_manager_writev` make of the number of bytes that
each brick has written for a call: the number returned, and the size recorded. A count that does not
end with a chunk is an error. The counts are those of an `int32_t`: `opRet * fragments` is below
`2 ^ 31`. -/
def Disperse.writevAnswer (ec : Disperse) (current offset userSize opRet : Nat) :
    Option (Nat × Nat) :=
  if opRet % ecMethodChunkSize ≠ 0 then none
  else
    let head := offset % ec.stripeSize
    let size := ec.adjustOffset offset false + head + userSize
    let opRet := opRet * ec.fragments
    let opRet := if opRet < head then 0 else opRet - head
    some (if userSize < opRet then userSize else opRet, if current < size then size else current)

/-- The size follows the number returned if all bytes are written, or end within the old size. -/
theorem recorded_size_iff (ec : Disperse) (current offset userSize opRet : Nat) :
    (∀ count size, ec.writevAnswer current offset userSize opRet = some (count, size) →
      size = max current (offset + count)) ↔
    (opRet % ecMethodChunkSize = 0 →
      offset % ec.stripeSize + userSize ≤ opRet * ec.fragments ∨ offset + userSize ≤ current ∨
        userSize = 0) := by
  have hoffset : ec.adjustOffset offset false + offset % ec.stripeSize = offset :=
    Nat.sub_add_cancel (Nat.mod_le _ _)
  simp only [Disperse.writevAnswer, hoffset]
  generalize offset % ec.stripeSize = head
  generalize opRet * ec.fragments = written
  have hcut : (if written < head then 0 else written - head) = written - head := by
    split <;> omega
  have hcount : (if userSize < written - head then userSize else written - head) =
      min userSize (written - head) := by
    split <;> omega
  have hsize : (if current < offset + userSize then offset + userSize else current) =
      max current (offset + userSize) := by
    split <;> omega
  rw [hcut, hcount]
  split
  · next herr => simp [herr]
  next hok =>
  constructor
  · intro h _
    have := h _ _ rfl
    omega
  · rintro h count size heq
    cases heq
    omega

/-- Half of the stripes are written, and the size is that of all of them. -/
theorem recorded_size_short :
    Disperse.writevAnswer ⟨2, by decide⟩ 0 0 2048 512 = some (1024, 2048) ∧
      2048 ≠ max 0 (0 + 1024) := by decide

/-! ### Copies out of io-vectors -/

/-- Second loop of `ec_iov_copy_to`, from the first vector that has a byte at the offset on: how
much is copied, and what is at the destination then. -/
def iovCopy : List (List UInt8) → Nat → Nat → List UInt8 → Nat × List UInt8
  | [], _, _, dst => (0, dst)
  | v :: vector, offset, size, dst =>
    if size = 0 then (0, dst)
    else
      let len := min size (v.length - offset)
      let r := iovCopy vector 0 (size - len) (dst.drop len)
      (len + r.1, (v.drop offset).take len ++ r.2)

/-- `ec_iov_copy_to` (ec-helpers.c:127), with the vectors by their bytes and an offset that is not
negative. -/
def ecIovCopyTo (dst : List UInt8) : List (List UInt8) → Nat → Nat → Nat × List UInt8
  | [], _, _ => (0, dst)
  | v :: vector, offset, size =>
    if offset < v.length then iovCopy (v :: vector) offset size dst
    else ecIovCopyTo dst vector (offset - v.length) size

/-- The bytes are put at the destination. -/
def copied (bytes dst : List UInt8) : Nat × List UInt8 :=
  (bytes.length, bytes ++ dst.drop bytes.length)

private lemma iovCopy_eq {vector : List (List UInt8)} {offset : Nat}
    (h : ∀ v ∈ vector.head?, offset ≤ v.length) (size : Nat) (dst : List UInt8) :
    iovCopy vector offset size dst = copied ((vector.flatten.drop offset).take size) dst := by
  induction vector generalizing offset size dst with
  | nil => simp [iovCopy, copied]
  | cons v vector ih =>
    have hv : offset ≤ v.length := h v rfl
    unfold iovCopy
    split
    · next hzero => simp [hzero, copied]
    have hlen : size - min size (v.length - offset) = size - (v.length - offset) := by omega
    have htake : (v.drop offset).take (min size (v.length - offset)) =
        (v.drop offset).take size := by
      rw [← List.length_drop, ← List.take_take, List.take_length]
    dsimp only
    rw [ih (fun _ _ => Nat.zero_le _), htake, hlen, List.drop_zero, List.flatten_cons,
      List.drop_append_of_le_length hv, List.take_append, List.length_drop]
    simp [copied, List.drop_drop]

/-- `ec_iov_copy_to` puts the bytes from the offset on at the destination, up to the size or the end
of the vectors, and returns how many. -/
theorem ec_iov_copy_exact (dst : List UInt8) (vector : List (List UInt8)) (offset size : Nat) :
    let bytes := (vector.flatten.drop offset).take size
    ecIovCopyTo dst vector offset size = (bytes.length, bytes ++ dst.drop bytes.length) := by
  induction vector generalizing offset with
  | nil => simp [ecIovCopyTo]
  | cons v vector ih =>
    unfold ecIovCopyTo
    split
    · next hlt => exact iovCopy_eq (fun _ hw => (Option.some.inj hw) ▸ hlt.le) size dst
    · next hge =>
      rw [ih, List.flatten_cons, List.drop_append, List.drop_eq_nil_of_le (not_lt.mp hge),
        List.nil_append]

end TagItGluster.Ec
