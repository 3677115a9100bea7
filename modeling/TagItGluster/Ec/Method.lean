import TagItGluster.Base.Elimination
import TagItGluster.Ec.Gf

/-!
# Encoding and decoding of chunks

A chunk of 512 bytes holds 512 elements of GF(256), one bit of each in every one of eight planes of
64 bytes. A fragment is a chunk for each stripe of the data: the value of the polynomial with the
chunks of the stripe as coefficients at the number of the fragment. To decode as many fragments as
there are chunks in a stripe, the matrix of the powers is inverted in place, and each chunk is the
sum of the fragments with the coefficients of a row. The sum is computed by multiplying what there
is by the quotient of the last coefficient and the next one. Line numbers:
`xlators/cluster/ec/src/ec-method.c`.
-/

namespace TagItGluster.Ec

open Base

/-- `EC_METHOD_MAX_FRAGMENTS`. -/
def ecMethodMaxFragments : ℕ := 16

/-- `EC_METHOD_MAX_NODES`: there is an `ec_gf_muladd` for the number of each row. -/
def ecMethodMaxNodes : ℕ := ecGfSize - 1

/-- `EC_METHOD_WORD_SIZE`. -/
def ecMethodWordSize : ℕ := 64

/-- `EC_METHOD_CHUNK_SIZE`: a word for each bit of an element. -/
def ecMethodChunkSize : ℕ := ecMethodWordSize * 8

/-- A buffer by offset. -/
abbrev Buffer := ℕ → BitVec 8

/-- The byte with these bits, the lowest one first. -/
def byteOf (f : ℕ → Bool) : BitVec 8 :=
  BitVec.ofBoolListLE [f 0, f 1, f 2, f 3, f 4, f 5, f 6, f 7]

lemma getLsbD_byteOf (f : ℕ → Bool) {i : ℕ} (hi : i < 8) : (byteOf f).getLsbD i = f i := by
  rw [byteOf, BitVec.getLsbD_ofBoolListLE]
  match i, hi with
  | 0, _ | 1, _ | 2, _ | 3, _ | 4, _ | 5, _ | 6, _ | 7, _ => rfl

/-- An element of the chunk at an offset: a bit of a byte of each plane. -/
def lane (b : Buffer) (o l : ℕ) : BitVec 8 :=
  byteOf fun i => (b (o + ecMethodWordSize * i + l / 8)).getLsbD (l % 8)

/-- A byte of the chunk with these elements. -/
def fromLanes (v : ℕ → BitVec 8) (r : ℕ) : BitVec 8 :=
  byteOf fun i => (v (8 * (r % ecMethodWordSize) + i)).getLsbD (r / ecMethodWordSize)

/-- `ec_gf_muladd[c]`: in the chunk at `dst`, every element is multiplied by `c`, and that of the
chunk at `src` is added. -/
def ecGfMuladd (c : ℕ) (out : Buffer) (dst : ℕ) (b : Buffer) (src : ℕ) : Buffer := fun q =>
  if dst ≤ q ∧ q < dst + ecMethodChunkSize then
    fromLanes (fun l => gfMul (BitVec.ofNat 8 c) (lane out dst l) ^^^ lane b src l) (q - dst)
  else out q

/-- What `ec_gf_muladd` does to an element. -/
lemma lane_muladd (c : ℕ) (out b : Buffer) (dst src : ℕ) {l : ℕ} (hl : l < ecMethodChunkSize) :
    lane (ecGfMuladd c out dst b src) dst l =
      gfMul (BitVec.ofNat 8 c) (lane out dst l) ^^^ lane b src l := by
  have hsize : ecMethodChunkSize = 512 := rfl
  have hword : ecMethodWordSize = 64 := rfl
  apply BitVec.eq_of_getLsbD_eq
  intro i hi
  have hq : dst ≤ dst + ecMethodWordSize * i + l / 8 ∧
      dst + ecMethodWordSize * i + l / 8 < dst + ecMethodChunkSize := by
    rw [hword]
    omega
  have hplane : (dst + ecMethodWordSize * i + l / 8 - dst) / ecMethodWordSize = i := by
    rw [hword]
    omega
  have hlane : 8 * ((dst + ecMethodWordSize * i + l / 8 - dst) % ecMethodWordSize) + l % 8 = l := by
    rw [hword]
    omega
  rw [lane, getLsbD_byteOf _ hi, ecGfMuladd, if_pos hq, fromLanes,
    getLsbD_byteOf _ (Nat.mod_lt l (by decide)), hplane, hlane]

/-- The other chunks stay. -/
lemma lane_muladd_other (c : ℕ) (out b : Buffer) (dst src : ℕ) {o : ℕ}
    (ho : o + ecMethodChunkSize ≤ dst ∨ dst + ecMethodChunkSize ≤ o) {l : ℕ}
    (hl : l < ecMethodChunkSize) : lane (ecGfMuladd c out dst b src) o l = lane out o l := by
  have hsize : ecMethodChunkSize = 512 := rfl
  have hword : ecMethodWordSize = 64 := rfl
  apply BitVec.eq_of_getLsbD_eq
  intro i hi
  have hq : ¬(dst ≤ o + ecMethodWordSize * i + l / 8 ∧
      o + ecMethodWordSize * i + l / 8 < dst + ecMethodChunkSize) := by
    rw [hword]
    omega
  rw [lane, lane, getLsbD_byteOf _ hi, getLsbD_byteOf _ hi, ecGfMuladd, if_neg hq]

/-- A chunk is given by its elements. -/
lemma eq_of_lanes {b b' : Buffer} {o : ℕ}
    (h : ∀ l < ecMethodChunkSize, lane b o l = lane b' o l) {r : ℕ} (hr : r < ecMethodChunkSize) :
    b (o + r) = b' (o + r) := by
  have hsize : ecMethodChunkSize = 512 := rfl
  apply BitVec.eq_of_getLsbD_eq
  intro i hi
  have hbit : ∀ b : Buffer, (lane b o (8 * (r % 64) + i)).getLsbD (r / 64) =
      (b (o + r)).getLsbD i := by
    intro b
    rw [lane, getLsbD_byteOf _ (by omega)]
    have hbyte : o + ecMethodWordSize * (r / 64) + (8 * (r % 64) + i) / 8 = o + r := by
      show o + 64 * (r / 64) + (8 * (r % 64) + i) / 8 = o + r
      omega
    have hpos : (8 * (r % 64) + i) % 8 = i := by omega
    rw [hbyte, hpos]
  rw [← hbit b, ← hbit b', h _ (by omega)]

/-- The pointers of `ec_method_encode`, and the fragment. -/
structure Encoding where
  src : ℕ
  dst : ℕ
  out : Buffer

/-- One chunk of data goes into the chunk of the fragment. -/
def encodeColumn (data : Buffer) (c : ℕ) (s : Encoding) : Encoding :=
  { s with
    out := ecGfMuladd c s.out s.dst data s.src
    src := s.src + ecMethodChunkSize }

/-- The body of the outer loop of `ec_method_encode`. -/
def encodeStripe (columns row : ℕ) (data : Buffer) (s : Encoding) : Encoding :=
  let s := runAll (fun _ => encodeColumn data row) (List.range' 1 (columns - 1))
    (encodeColumn data 0 s)
  { s with dst := s.dst + ecMethodChunkSize }

/-- `ec_method_encode` (60): the size of the fragment, and the fragment. -/
def ecMethodEncode (size columns row : ℕ) (data out : Buffer) : ℕ × Buffer :=
  let size := size / (ecMethodChunkSize * columns)
  (size * ecMethodChunkSize,
    (runAll (fun _ => encodeStripe columns (row + 1) data) (List.range size) ⟨0, 0, out⟩).out)

/-- The arrays of `ec_method_decode`. -/
structure Arrays where
  mtx : ℕ → ℕ → BitVec 8
  inv : ℕ → ℕ → BitVec 8

/-- An entry of an array is set. -/
def setCell (m : ℕ → ℕ → BitVec 8) (i j : ℕ) (v : BitVec 8) : ℕ → ℕ → BitVec 8 :=
  Function.update m i (Function.update (m i) j v)

/-- The first loop: the identity, with a one behind each row. -/
def initInv (columns : ℕ) : ℕ → ℕ → BitVec 8 :=
  runAll (fun i inv => setCell (setCell inv i i 1#8) i columns 1#8) (List.range columns)
    (fun _ _ => 0#8)

/-- A row of the second loop: falling powers of the number of the fragment. -/
def powersRow (columns x i : ℕ) (mtx : ℕ → ℕ → BitVec 8) : ℕ → ℕ → BitVec 8 :=
  runAll (fun j mtx => setCell mtx i (j - 1) (BitVec.ofNat 8 (ecMethodMul (mtx i j).toNat x)))
    (List.range' 1 (columns - 1)).reverse (setCell mtx i (columns - 1) 1#8)

/-- The second loop. -/
def initMtx (columns : ℕ) (rows : ℕ → ℕ) : ℕ → ℕ → BitVec 8 :=
  runAll (fun i => powersRow columns (rows i + 1) i) (List.range columns) (fun _ _ => 0#8)

/-- A loop over a row of both arrays. -/
def rowLoop (columns r : ℕ) (f g : Arrays → ℕ → BitVec 8) (s : Arrays) : Arrays :=
  runAll (fun k s => ⟨setCell s.mtx r k (f s k), setCell s.inv r k (g s k)⟩) (List.range columns) s

/-- The row is divided by its pivot. -/
def divideRow (columns i : ℕ) (s : Arrays) : Arrays :=
  let f := (s.mtx i i).toNat
  rowLoop columns i (fun s j => BitVec.ofNat 8 (ecMethodDiv (s.mtx i j).toNat f))
    (fun s j => BitVec.ofNat 8 (ecMethodDiv (s.inv i j).toNat f)) s

/-- The column of the pivot is cleared in another row. -/
def clearRow (columns i j : ℕ) (s : Arrays) : Arrays :=
  let f := (s.mtx j i).toNat
  rowLoop columns j (fun s k => s.mtx j k ^^^ BitVec.ofNat 8 (ecMethodMul (s.mtx i k).toNat f))
    (fun s k => s.inv j k ^^^ BitVec.ofNat 8 (ecMethodMul (s.inv i k).toNat f)) s

/-- The body of the third loop. -/
def eliminate (columns i : ℕ) (s : Arrays) : Arrays :=
  runAll (fun j s => if i ≠ j then clearRow columns i j s else s) (List.range columns)
    (divideRow columns i s)

/-- The arrays after the third loop. -/
def invert (columns : ℕ) (rows : ℕ → ℕ) : Arrays :=
  runAll (eliminate columns) (List.range columns) ⟨initMtx columns rows, initInv columns⟩

/-- `while (inv[i][j] == 0) j++`, as far as the row of the array goes. -/
def skipZeros (row : ℕ → BitVec 8) : ℕ → ℕ → ℕ
  | 0, j => j
  | fuel + 1, j => if row j = 0#8 then skipZeros row fuel (j + 1) else j

/-- The `do` loop for a chunk, with at most as many turns as given: the coefficient of the last
fragment added, and the buffer. -/
def evaluate (columns : ℕ) (row : ℕ → BitVec 8) (src : ℕ → Buffer) (off dst : ℕ) :
    ℕ → ℕ → ℕ → Buffer → ℕ × Buffer
  | 0, _, last, out => (last, out)
  | turns + 1, j, last, out =>
    let j := skipZeros row (ecMethodMaxFragments + 1 - j) j
    if j < columns then
      let value := ecMethodDiv last (row j).toNat
      let out := ecGfMuladd value out dst (src j) off
      if j + 1 < columns then evaluate columns row src off dst turns (j + 1) (row j).toNat out
      else ((row j).toNat, out)
    else (last, out)

/-- The pointers of `ec_method_decode`, and the data. The offset is a `uint32_t` there, for
fragments below 4 GB. -/
structure Decoding where
  off : ℕ
  dst : ℕ
  out : Buffer

/-- The body of the inner loop: a chunk of the data. -/
def decodeChunk (columns : ℕ) (inv : ℕ → ℕ → BitVec 8) (src : ℕ → Buffer) (i : ℕ)
    (s : Decoding) : Decoding :=
  let r := evaluate columns (inv i) src s.off s.dst columns 0 0 s.out
  { s with
    out := ecGfMuladd r.1 r.2 s.dst (fun _ => 0#8) 0
    dst := s.dst + ecMethodChunkSize }

/-- The body of the outer loop: a stripe of the data. -/
def decodeStripe (columns : ℕ) (inv : ℕ → ℕ → BitVec 8) (src : ℕ → Buffer) (s : Decoding) :
    Decoding :=
  let s := runAll (decodeChunk columns inv src) (List.range columns) s
  { s with off := s.off + ecMethodChunkSize }

/-- `ec_method_decode` (82): the size of the data, and the data. -/
def ecMethodDecode (size columns : ℕ) (rows : ℕ → ℕ) (src : ℕ → Buffer) (out : Buffer) :
    ℕ × Buffer :=
  let size := size / ecMethodChunkSize
  let inv := (invert columns rows).inv
  (size * ecMethodChunkSize * columns,
    (runAll (fun _ => decodeStripe columns inv src) (List.range size) ⟨0, 0, out⟩).out)

end TagItGluster.Ec
