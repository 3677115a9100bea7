import Mathlib.Algebra.Group.Int.Defs
import Mathlib.Data.List.AList
import TagItGluster.Base.Text

/-!
# Integers as dictionary values

The setters print an integer in decimal and store the text with its terminating zero; every
reader copies the text and has the C library parse it in base 0. `long` has 64 bits, so
`strtol` is `strtoll`. There is a reader for `uint8_t` and no setter. Line numbers:
`libglusterfs/src/dict.c`.
-/

namespace TagItGluster.Libglusterfs

open Base List

/-- The value of a digit in the bases up to 36; no digit has the value 36. -/
def digitOf (c : Char) : Nat :=
  if c.isDigit then c.toNat - '0'.toNat
  else if c.isLower then c.toNat - 'a'.toNat + 10
  else if c.isUpper then c.toNat - 'A'.toNat + 10
  else 36

/-- The base that a numeral chooses by its first characters, and its digits. -/
def numeralBase : Text → Nat × Text
  | '0' :: 'x' :: s => (16, s)
  | '0' :: 'X' :: s => (16, s)
  | '0' :: s => (8, s)
  | s => (10, s)

/-- The value of a numeral without a sign, up to the first character that is no digit. -/
def magnitude (s : Text) : Nat :=
  let base := (numeralBase s).1
  ((numeralBase s).2.takeWhile (fun c => digitOf c < base)).foldl
    (fun n c => base * n + digitOf c) 0

/-- `strtol` and `strtoll`: the number, and whether `errno` is left as `ERANGE`. -/
def strtol (s : Text) : Int × Bool :=
  let scan := scanSign (s.dropWhile isSpace)
  let z := scan.1 * magnitude scan.2
  if z < -2 ^ 63 then (-2 ^ 63, true) else if 2 ^ 63 ≤ z then (2 ^ 63 - 1, true) else (z, false)

/-- `strtoul` and `strtoull`: a negative number is taken modulo 2^64. -/
def strtoul (s : Text) : Int × Bool :=
  let scan := scanSign (s.dropWhile isSpace)
  let n := magnitude scan.2
  if 2 ^ 64 ≤ n then (2 ^ 64 - 1, true) else (scan.1 * n % 2 ^ 64, false)

/-- The integer types that the dictionary has setters for. -/
inductive IntType where
  | int8 | int16 | int32 | int64 | uint16 | uint32 | uint64
deriving DecidableEq

namespace IntType

/-- Width of the type. -/
def bits : IntType → Nat
  | int8 => 8
  | int16 | uint16 => 16
  | int32 | uint32 => 32
  | int64 | uint64 => 64

/-- Conversion of an integer to the type. -/
def convert (t : IntType) (z : Int) : Int :=
  match t with
  | int8 | int16 | int32 | int64 => z.bmod (2 ^ t.bits)
  | uint16 | uint32 | uint64 => z % 2 ^ t.bits

/-- The values of the type. -/
def Holds (t : IntType) (z : Int) : Prop := t.convert z = z

instance (t : IntType) (z : Int) : Decidable (t.Holds z) := inferInstanceAs (Decidable (_ = _))

/-- `data_from_int8` (746) to `data_from_uint64` (766). -/
def dataFrom (z : Int) : Text :=
  (if z < 0 then '-' :: dec z.natAbs else dec z.natAbs) ++ ['\x00']

/-- The copy that a reader makes, up to the first zero. -/
def copied (data : Text) : Text := data.takeWhile (fun c => c != '\x00')

/-- `data_to_int8` (1057) to `data_to_uint64`. The overflow checks of the 8 and 16 bit readers look
at the converted number and never fail. -/
def dataTo (t : IntType) (data : Text) : Int :=
  match t with
  | int32 | int64 => t.convert (strtoul (copied data)).1
  | int8 | int16 | uint16 | uint32 | uint64 => t.convert (strtol (copied data)).1

/-- `_data_to_int8` (1489) to `_data_to_uint64` (1657); `none` is an error that `errno` told. -/
def dataToVal (t : IntType) (data : Text) : Option Int :=
  let parsed := match t with
    | int8 | int16 | int32 | int64 => strtol (copied data)
    | uint16 | uint32 | uint64 => strtoul (copied data)
  if parsed.2 then none else some (t.convert parsed.1)

/-- A dictionary, with its values as the texts they are. -/
abbrev Texts := AList (fun _ : Text => Text)

/-- `dict_set_int8` (1738) to `dict_set_uint64`. -/
def dictSet (d : Texts) (key : Text) (z : Int) : Texts := d.insert key (dataFrom z)

/-- `dict_get_int8` (1713) to `dict_get_uint64`. -/
def dictGet (t : IntType) (d : Texts) (key : Text) : Option Int :=
  (d.lookup key).bind t.dataToVal

end IntType

open IntType

private lemma magnitude_dec (n : Nat) : magnitude (dec n) = n := by
  by_cases hn : n = 0
  · rw [hn]
    decide
  have hbase : numeralBase (dec n) = (10, dec n) := by
    unfold numeralBase
    split
    next h => exact absurd h (dec_ne_zero_cons hn _)
    next h => exact absurd h (dec_ne_zero_cons hn _)
    next h => exact absurd h (dec_ne_zero_cons hn _)
    next => rfl
  have hvalue : ∀ c ∈ dec n, digitOf c = c.toNat - '0'.toNat :=
    fun c hc => if_pos (isDigit_of_mem_dec hc)
  have hall : (dec n).takeWhile (fun c => digitOf c < 10) = dec n := by
    refine takeWhile_eq_self_iff.mpr (fun c hc => decide_eq_true ?_)
    have hle : c.toNat ≤ 57 := (Char.isDigit_iff_toNat.mp (isDigit_of_mem_dec hc)).2
    rw [hvalue c hc]
    change c.toNat - 48 < 10
    omega
  simp only [magnitude, hbase, hall]
  calc (dec n).foldl (fun m c => 10 * m + digitOf c) 0
      = digitsValue (dec n) := foldl_ext _ _ 0 (fun m c hc => by rw [hvalue c hc])
    _ = n := Nat.ofDigitChars_ten_toDigits

/-- What the readers find in a stored number: its sign and its digits. -/
lemma scan_dataFrom (z : Int) : scanSign ((copied (dataFrom z)).dropWhile isSpace) =
      (if z < 0 then -1 else 1, dec z.natAbs) := by
  have hdigit : ∀ c ∈ dec z.natAbs, (c != '\x00') := by
    intro c hc
    have hd := isDigit_of_mem_dec hc
    rw [bne_iff_ne]
    rintro rfl
    cases hd
  have hcopy : ∀ s : Text, (∀ c ∈ s, (c != '\x00')) → copied (s ++ ['\x00']) = s := by
    intro s hs
    rw [copied, takeWhile_append_of_pos hs]
    exact append_nil s
  unfold dataFrom
  split
  next => rw [hcopy _ (forall_mem_cons.mpr ⟨rfl, hdigit⟩)]; rfl
  next => rw [hcopy _ hdigit, scanSign_dec]

section

variable {z : Int}

private lemma strtol_dataFrom (hlo : -2 ^ 63 ≤ z) :
    strtol (copied (dataFrom z)) = if 2 ^ 63 ≤ z then (2 ^ 63 - 1, true) else (z, false) := by
  have hz : (if z < 0 then -1 else 1) * z.natAbs = z := by split <;> omega
  simp only [strtol, scan_dataFrom, magnitude_dec, hz]
  exact if_neg (by omega)

private lemma strtoul_dataFrom (hlo : -2 ^ 63 ≤ z) (hhi : z < 2 ^ 64) :
    strtoul (copied (dataFrom z)) = (z % 2 ^ 64, false) := by
  have hz : (if z < 0 then -1 else 1) * z.natAbs = z := by split <;> omega
  simp only [strtoul, scan_dataFrom, magnitude_dec, hz]
  exact if_neg (by omega)

variable {t : IntType}

private lemma IntType.Holds.bounds (h : t.Holds z) :
    -2 ^ 63 ≤ z ∧ z < 2 ^ 64 ∧ (t ≠ .uint64 → z < 2 ^ 63) := by
  unfold Holds convert at h
  cases t <;> simp only [bits, Int.bmod_def] at h <;> (try split at h) <;> simp <;> omega

/-- No type is wider than the number that `strtoul` returns. -/
lemma IntType.convert_emod (t : IntType) (z : Int) : t.convert (z % 2 ^ 64) = t.convert z := by
  cases t <;> simp only [convert, bits, Int.bmod_def] <;> omega

/-- The readers of `dict_get` return every number. -/
lemma IntType.Holds.dictGet_dictSet (h : t.Holds z) (d : Texts) (key : Text) :
    t.dictGet (dictSet d key z) key = some z := by
  obtain ⟨hlo, hhi, hsigned⟩ := h.bounds
  rw [dictGet, dictSet, AList.lookup_insert]
  change t.dataToVal (dataFrom z) = some z
  cases t with
  | int8 | int16 | int32 | int64 =>
    have hz : ¬ 2 ^ 63 ≤ z := Int.not_le.mpr (hsigned (by decide))
    rw [dataToVal, strtol_dataFrom hlo, if_neg hz]
    exact congrArg some h
  | uint16 | uint32 | uint64 =>
    rw [dataToVal, strtoul_dataFrom hlo hhi]
    exact congrArg some ((convert_emod _ z).trans h)

/-- What the readers of `data_to` return: all of them read a number below 2^63 as it is. -/
lemma IntType.Holds.dataTo_dataFrom (h : t.Holds z) (hz : z < 2 ^ 63) :
    t.dataTo (dataFrom z) = z := by
  obtain ⟨hlo, hhi, -⟩ := h.bounds
  cases t with
  | int32 | int64 =>
    rw [dataTo, strtoul_dataFrom hlo hhi]
    exact (convert_emod _ z).trans h
  | int8 | int16 | uint16 | uint32 | uint64 =>
    rw [dataTo, strtol_dataFrom hlo, if_neg (Int.not_le.mpr hz)]
    exact h

end

/-- The number `2 ^ 63` of an unsigned 64 bit value comes back one smaller. -/
theorem uint64_saturates :
    IntType.uint64.Holds (2 ^ 63) ∧ uint64.dataTo (dataFrom (2 ^ 63)) = 2 ^ 63 - 1 := by
  decide

/-- An integer of a type is returned by both families of readers, exactly if it is below 2^63
when the type is `uint64_t`: `data_to_uint64` parses with `strtoll`. -/
theorem integer_returned_iff (t : IntType) (z : Int) (h : t.Holds z) (d : Texts) (key : Text) :
    (t.dataTo (dataFrom z) = z ∧ t.dictGet (dictSet d key z) key = some z) ↔
      (t = .uint64 → z < 2 ^ 63) := by
  obtain ⟨hlo, -, hsigned⟩ := h.bounds
  constructor
  · rintro ⟨hback, -⟩ rfl
    by_contra hz
    rw [dataTo, strtol_dataFrom hlo, if_pos (Int.not_lt.mp hz)] at hback
    have hmax : uint64.convert (2 ^ 63 - 1) = 2 ^ 63 - 1 := by decide
    rw [hmax] at hback
    omega
  · intro hcond
    have hz : z < 2 ^ 63 := if ht : t = .uint64 then hcond ht else hsigned ht
    exact ⟨h.dataTo_dataFrom hz, h.dictGet_dictSet d key⟩

theorem integer_returned_iff_min : int64.dataTo (dataFrom (-2 ^ 63)) = -2 ^ 63 ∧
      int64.dictGet (dictSet ∅ "k".toList (-2 ^ 63)) "k".toList = some (-2 ^ 63) :=
  (integer_returned_iff .int64 (-2 ^ 63) (by decide) ∅ "k".toList).mpr (fun h => by cases h)

end TagItGluster.Libglusterfs
