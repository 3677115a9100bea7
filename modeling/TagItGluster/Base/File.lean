import Mathlib.Data.List.Basic
import Mathlib.Order.Lattice

/-!
# Files as sequences of bytes

A file has a size and a byte at each position, zero from the size on. A write beyond the end leaves
a hole of zeros, and so does a truncation to a larger size; a write of nothing changes nothing. A
read ends at the end of the file.
-/

namespace TagItGluster.Base

open List

/-- A file; there are zeros from its end on. -/
@[ext]
structure File where
  size : Nat
  byte : Nat → UInt8
  beyond : ∀ i, size ≤ i → byte i = 0

namespace File

/-- A new file. -/
def empty : File := ⟨0, fun _ => 0, fun _ _ => rfl⟩

/-- The bytes are written at an offset. -/
def pwrite (f : File) (off : Nat) (bytes : List UInt8) : File where
  size := if bytes = [] then f.size else max f.size (off + bytes.length)
  byte i := if i < off then f.byte i else bytes[i - off]?.getD (f.byte i)
  beyond i hi := by
    split at hi
    · next hnil =>
      subst hnil
      simpa using f.beyond i hi
    · rw [if_neg (by omega), getElem?_eq_none (by omega)]
      exact f.beyond i (by omega)

/-- The file is cut, or is filled up with zeros. -/
def truncate (f : File) (size : Nat) : File where
  size := size
  byte i := if i < size then f.byte i else 0
  beyond i hi := if_neg (by omega)

/-- The bytes of a range, up to the end of the file. -/
def read (f : File) (off n : Nat) : List UInt8 :=
  (List.range' off (min n (f.size - off))).map f.byte

/-- The bytes of a range, with zeros behind the end of the file. -/
def bytes (f : File) (off n : Nat) : List UInt8 := (List.range' off n).map f.byte

variable (f : File) {off n i : Nat} {bytes : List UInt8}

@[simp] lemma size_truncate (size : Nat) : (f.truncate size).size = size := rfl

lemma byte_truncate (size i : Nat) :
    (f.truncate size).byte i = if i < size then f.byte i else 0 := rfl

lemma size_pwrite (off : Nat) (h : bytes ≠ []) :
    (f.pwrite off bytes).size = max f.size (off + bytes.length) := if_neg h

private lemma byte_pwrite_of_lt (h : i < off) : (f.pwrite off bytes).byte i = f.byte i := if_pos h

private lemma byte_pwrite_of_le (h : off + bytes.length ≤ i) :
    (f.pwrite off bytes).byte i = f.byte i := by
  unfold pwrite
  dsimp only
  rw [if_neg (by omega), getElem?_eq_none (by omega)]
  rfl

lemma byte_pwrite_of_not (h : ¬ (off ≤ i ∧ i < off + bytes.length)) :
    (f.pwrite off bytes).byte i = f.byte i := by
  by_cases hlt : i < off
  · exact f.byte_pwrite_of_lt hlt
  · exact f.byte_pwrite_of_le (by omega)

lemma byte_pwrite_add (off : Nat) (h : i < bytes.length) :
    (f.pwrite off bytes).byte (off + i) = bytes[i] := by
  unfold pwrite
  dsimp only
  rw [if_neg (by omega), Nat.add_sub_cancel_left, getElem?_eq_getElem h]
  rfl

@[simp] lemma pwrite_nil (off : Nat) : f.pwrite off [] = f := by
  refine File.ext rfl (funext fun i => ?_)
  exact f.byte_pwrite_of_not (by simp)

lemma byte_pwrite_zeros (h : f.size ≤ off) (n i : Nat) :
    (f.pwrite off (List.replicate n 0)).byte i = f.byte i := by
  by_cases hin : off ≤ i ∧ i < off + n
  · obtain ⟨j, rfl⟩ := Nat.exists_eq_add_of_le hin.1
    rw [byte_pwrite_add _ _ (by rw [length_replicate]; omega), getElem_replicate,
      f.beyond _ (by omega)]
  · exact f.byte_pwrite_of_not (by rwa [length_replicate])

lemma pwrite_append (off : Nat) (as bs : List UInt8) :
    f.pwrite off (as ++ bs) = (f.pwrite off as).pwrite (off + as.length) bs := by
  by_cases has : as = []
  · subst has
    simp
  by_cases hbs : bs = []
  · subst hbs
    simp
  refine File.ext ?_ (funext fun i => ?_)
  · rw [size_pwrite _ _ hbs, size_pwrite _ _ has, size_pwrite _ _ (by simp [has]), length_append]
    omega
  by_cases hlow : i < off
  · rw [byte_pwrite_of_lt _ hlow, byte_pwrite_of_lt _ (by omega), byte_pwrite_of_lt _ hlow]
  obtain ⟨j, rfl⟩ := Nat.exists_eq_add_of_le (Nat.not_lt.mp hlow)
  by_cases hfirst : j < as.length
  · rw [byte_pwrite_add _ _ (by rw [length_append]; omega),
      byte_pwrite_of_lt _ (by omega), byte_pwrite_add _ _ hfirst, getElem_append_left]
  obtain ⟨k, rfl⟩ := Nat.exists_eq_add_of_le (Nat.not_lt.mp hfirst)
  by_cases hsecond : k < bs.length
  · rw [byte_pwrite_add _ _ (by rw [length_append]; omega), ← Nat.add_assoc,
      byte_pwrite_add _ _ hsecond, getElem_append_right (by omega)]
    congr 1
    omega
  · rw [byte_pwrite_of_le _ (by rw [length_append]; omega), byte_pwrite_of_le _ (by omega),
      byte_pwrite_of_le _ (by omega)]

@[simp] lemma length_read (off n : Nat) : (f.read off n).length = min n (f.size - off) := by
  simp [read]

lemma getElem_read (h : i < (f.read off n).length) : (f.read off n)[i] = f.byte (off + i) := by
  simp [read]

lemma read_eq_nil (h : f.size ≤ off) : f.read off n = [] := by
  rw [read, Nat.sub_eq_zero_of_le h, Nat.min_zero]
  rfl

lemma read_add (off m n : Nat) : f.read off (m + n) = f.read off m ++ f.read (off + m) n := by
  by_cases h : off + m ≤ f.size
  · unfold read
    rw [← map_append, show min m (f.size - off) = m by omega,
      show min (m + n) (f.size - off) = m + min n (f.size - (off + m)) by omega,
      ← range'_append, Nat.one_mul]
  · have hnil : f.read (off + m) n = [] := f.read_eq_nil (by omega)
    rw [hnil, append_nil]
    unfold read
    rw [show min (m + n) (f.size - off) = min m (f.size - off) by omega]

/-- Two files give the same read if they have the same bytes in the same range. -/
lemma read_congr {g : File} {off' : Nat} (hlen : min n (f.size - off) = min n (g.size - off'))
    (hbyte : ∀ i < min n (g.size - off'), f.byte (off + i) = g.byte (off' + i)) :
    f.read off n = g.read off' n := by
  refine ext_getElem (by simpa using hlen) fun i hi hi' => ?_
  rw [getElem_read, getElem_read]
  exact hbyte i (by simpa using hi')

@[simp] lemma length_bytes (off n : Nat) : (f.bytes off n).length = n := by
  simp [bytes]

private lemma getElem?_bytes (off : Nat) (h : i < n) :
    (f.bytes off n)[i]? = some (f.byte (off + i)) := by
  simp [bytes, h]

private lemma bytes_add (off m n : Nat) :
    f.bytes off (m + n) = f.bytes off m ++ f.bytes (off + m) n := by
  unfold bytes
  rw [← map_append, ← range'_append, Nat.one_mul]

private lemma bytes_congr {g : File} (h : ∀ i < n, f.byte (off + i) = g.byte (off + i)) :
    f.bytes off n = g.bytes off n := by
  refine ext_getElem? fun i => ?_
  by_cases hi : i < n
  · rw [getElem?_bytes _ _ hi, getElem?_bytes _ _ hi, h i hi]
  · rw [getElem?_eq_none (by simpa using hi), getElem?_eq_none (by simpa using hi)]

lemma bytes_beyond (h : f.size ≤ off) (n : Nat) : f.bytes off n = List.replicate n 0 := by
  refine ext_getElem? fun i => ?_
  rw [getElem?_replicate]
  split
  · next hi => rw [getElem?_bytes _ _ hi, f.beyond _ (by omega)]
  · next hi => exact getElem?_eq_none (by simpa using hi)

/-- A part of a read, filled up with zeros. -/
lemma read_filled (off start n : Nat) {m : Nat} (h : start + n ≤ m) :
    ((f.read off m).drop start).take n ++
        List.replicate (n - ((f.read off m).length - start)) 0 = f.bytes (off + start) n := by
  refine ext_getElem? fun i => ?_
  have hlen : (((f.read off m).drop start).take n).length =
      min n ((f.read off m).length - start) := by simp
  rw [length_read] at hlen ⊢
  by_cases hi : i < n
  · rw [getElem?_bytes _ _ hi]
    by_cases hread : i < min m (f.size - off) - start
    · rw [getElem?_append_left (by omega), getElem?_take_of_lt hi, getElem?_drop,
        getElem?_eq_getElem (by rw [length_read]; omega), getElem_read, Nat.add_assoc]
    · rw [getElem?_append_right (by omega), getElem?_replicate, if_pos (by omega),
        f.beyond _ (by omega)]
  · rw [getElem?_eq_none (by rw [length_append, length_replicate]; omega),
      getElem?_eq_none (by simpa using hi)]

private lemma bytes_pwrite (off : Nat) (bytes : List UInt8) :
    (f.pwrite off bytes).bytes off bytes.length = bytes := by
  refine ext_getElem (by simp) fun i hi hi' => ?_
  have hget := getElem?_bytes (f.pwrite off bytes) off hi'
  rw [getElem?_eq_getElem hi, byte_pwrite_add _ _ hi'] at hget
  exact Option.some.inj hget

/-- A range around what has been written. -/
lemma bytes_pwrite_around (off m n : Nat) (bytes : List UInt8) :
    (f.pwrite (off + m) bytes).bytes off (m + bytes.length + n) =
      f.bytes off m ++ bytes ++ f.bytes (off + m + bytes.length) n := by
  have hbefore : (f.pwrite (off + m) bytes).bytes off m = f.bytes off m :=
    bytes_congr _ fun i hi => byte_pwrite_of_lt _ (by omega)
  have hbehind : (f.pwrite (off + m) bytes).bytes (off + m + bytes.length) n =
      f.bytes (off + m + bytes.length) n :=
    bytes_congr _ fun i _ => byte_pwrite_of_le _ (by omega)
  rw [bytes_add, bytes_add, bytes_pwrite, hbefore, ← Nat.add_assoc, hbehind]

/-- The bytes of a range are written where they are. -/
lemma byte_pwrite_bytes (g : File) (off n i : Nat) : (f.pwrite off (g.bytes off n)).byte i =
      if off ≤ i ∧ i < off + n then g.byte i else f.byte i := by
  split
  · next h =>
    obtain ⟨j, rfl⟩ := Nat.exists_eq_add_of_le h.1
    have hj : j < (g.bytes off n).length := by
      rw [length_bytes]
      omega
    have hget := getElem?_bytes g off (show j < n by omega)
    rw [getElem?_eq_getElem hj] at hget
    rw [byte_pwrite_add _ _ hj]
    exact Option.some.inj hget
  · next h => exact byte_pwrite_of_not _ (by rwa [length_bytes])

end File

/-- A change of a file. -/
inductive FileOp where
  | pwrite (off : Nat) (bytes : List UInt8)
  | truncate (size : Nat)

/-- The file after a change. -/
def File.apply : FileOp → File → File
  | .pwrite off bytes, f => f.pwrite off bytes
  | .truncate size, f => f.truncate size

end TagItGluster.Base
