import Mathlib.Data.UInt

/-!
# Versions and sizes of fragments

Each brick keeps the versions and the size of its fragment in attributes, as numbers in network
order. An older release stored one version where there are two now. Line numbers:
`xlators/cluster/ec/src/ec-helpers.c`.
-/

namespace TagItGluster.Ec

open List

/-- `hton64`, as bytes. -/
def hton64 (v : UInt64) : List UInt8 :=
  (List.range 8).map fun i => UInt8.ofNat (v.toNat / 256 ^ (7 - i))

/-- `ntoh64` of eight bytes. -/
def ntoh64 (bytes : List UInt8) : UInt64 :=
  UInt64.ofNat (bytes.foldl (fun n b => 256 * n + b.toNat) 0)

/-- The value that `ec_dict_set_array` (161) stores. -/
def ecDictSetArray (value : List UInt64) : List UInt8 := value.flatMap hton64

/-- The first numbers of a stored value. -/
def storedNumbers : Nat → List UInt8 → List UInt64
  | 0, _ => []
  | n + 1, ptr => ntoh64 (ptr.take 8) :: storedNumbers n (ptr.drop 8)

/-- `ec_dict_del_array` (179) for a stored value, where `before` is the number in front of the
array. -/
def ecDictDelArray (before : UInt64) (ptr : List UInt8) (size : Nat) : Option (List UInt64) :=
  if size * 8 < ptr.length ∨ ptr.length % 8 ≠ 0 then none
  else
    let oldSize := min size (ptr.length / 8)
    let value := storedNumbers oldSize ptr
    some (value ++ replicate (size - oldSize) (value.getLastD before))

private lemma ntoh64_hton64 (v : UInt64) : ntoh64 (hton64 v) = v := by
  apply UInt64.toNat_inj.mp
  have := v.toNat_lt
  simp [ntoh64, hton64, List.range, List.range.loop]
  omega

private lemma storedNumbers_setArray (value : List UInt64) :
    storedNumbers value.length (ecDictSetArray value) = value := by
  induction value with
  | nil => rfl
  | cons v value ih =>
    have hlen : (hton64 v).length = 8 := rfl
    rw [length_cons, storedNumbers, ecDictSetArray, flatMap_cons, ← hlen, take_left, ntoh64_hton64]
    exact congrArg _ ih

/-- An array is read as it should be, unless the value is empty. -/
theorem del_array_iff (before : UInt64) (ptr : List UInt8) (m : Nat) (hm : 0 < m) :
    (((ecDictDelArray before ptr m).isSome ↔ ∃ n, 1 ≤ n ∧ n ≤ m ∧ ptr.length = 8 * n) ∧
      (∀ n, 1 ≤ n → n ≤ m → ptr.length = 8 * n → ecDictDelArray before ptr m =
        some (storedNumbers n ptr ++ replicate (m - n) ((storedNumbers n ptr).getLastD before))) ∧
      (∀ value, value.length = m → ptr = ecDictSetArray value →
        ecDictDelArray before ptr m = some value)) ↔
    ptr ≠ [] := by
  have hread : ∀ n ≤ m, ptr.length = 8 * n → ecDictDelArray before ptr m =
      some (storedNumbers n ptr ++ replicate (m - n) ((storedNumbers n ptr).getLastD before)) := by
    intro n hn hlen
    have hold : min m (ptr.length / 8) = n := by omega
    rw [ecDictDelArray, if_neg (by omega), hold]
  constructor
  · rintro ⟨hsome, -, -⟩ rfl
    obtain ⟨n, hpos, -, hlen⟩ := hsome.mp (by rfl)
    rw [length_nil] at hlen
    omega
  intro hne
  have hpos := length_pos_iff.mpr hne
  refine ⟨?_, fun n _ hn hlen => hread n hn hlen, ?_⟩
  · unfold ecDictDelArray
    split
    · next hbad =>
      refine ⟨nofun, ?_⟩
      rintro ⟨n, -, hn, hlen⟩
      omega
    · next hgood =>
      exact ⟨fun _ => ⟨ptr.length / 8, by omega, by omega, by omega⟩, fun _ => rfl⟩
  · rintro value rfl rfl
    rw [hread _ (Nat.le_refl _) (by simp [ecDictSetArray, hton64, mul_comm]),
      storedNumbers_setArray, Nat.sub_self,
      replicate_zero, append_nil]

/-- One number where two are asked for. -/
theorem del_array_iff_one : ecDictDelArray 7 (ecDictSetArray [3]) 2 = some [3, 3] :=
  ((del_array_iff 7 (ecDictSetArray [3]) 2 (by decide)).mpr (by decide)).2.1 1 (by decide)
    (by decide) (by decide)

/-- An empty value is taken for numbers that were in front of the array. -/
theorem del_array_empty : ecDictDelArray 7 [] 2 = some [7, 7] := by decide

end TagItGluster.Ec
