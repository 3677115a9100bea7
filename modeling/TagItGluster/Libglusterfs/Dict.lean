import Mathlib.Algebra.Group.Int.Defs
import Mathlib.Data.List.AList
import TagItGluster.Base.Text

/-!
# Dictionaries as finite maps

A `dict_t` maps key texts to values. Here it is a finite map: the hash chains are not
modelled, nor is a failed allocation. Numbers are kept as the decimal text that the setters
print, so a number written at one width can be read at another one; the text is given by the
number it denotes. No caller reads a value at another kind than it was written at. Line numbers:
`libglusterfs/src/dict.c`.
-/

namespace TagItGluster.Libglusterfs

open Base List

/-- Conversion to `uint64_t`. -/
def toUint64 (z : Int) : Nat := (z % 2 ^ 64).toNat

/-- Conversion to `int32_t`. -/
def toInt32 (z : Int) : Int := z.bmod (2 ^ 32)

lemma toUint64_natCast {n : Nat} (h : n < 2 ^ 64) : toUint64 n = n := by
  unfold toUint64
  omega

lemma toInt32_eq_self {z : Int} (hlo : -2 ^ 31 ≤ z) (hhi : z < 2 ^ 31) : toInt32 z = z := by
  unfold toInt32
  rw [Int.bmod_eq_of_le] <;> omega

lemma toInt32_bounds (z : Int) : -2 ^ 31 ≤ toInt32 z ∧ toInt32 z < 2 ^ 31 := by
  rw [toInt32, Int.bmod_def]
  split <;> omega

/-- A value of a dictionary: a number in decimal, a time in microseconds, or a text. -/
inductive Data where
  | num (z : Int)
  | dbl (usec : Int)
  | str (s : Text)
deriving DecidableEq

/-- A dictionary. -/
abbrev Dict := AList (fun _ : Text => Data)

namespace Dict

/-- `dict_get_uint64` (1984), through `strtoull`. -/
def getUint64 (d : Dict) (key : Text) : Option Nat :=
  match d.lookup key with
  | some (.num z) => some (toUint64 z)
  | _ => none

/-- `dict_get_int32` (1803), through `strtol`: a number outside of `long` is an error, any other is
cut to 32 bits. -/
def getInt32 (d : Dict) (key : Text) : Option Int :=
  match d.lookup key with
  | some (.num z) => if -2 ^ 63 ≤ z ∧ z < 2 ^ 63 then some (toInt32 z) else none
  | _ => none

/-- `dict_get_double` (2029). -/
def getDouble (d : Dict) (key : Text) : Option Int :=
  match d.lookup key with
  | some (.dbl t) => some t
  | _ => none

/-- `dict_get_str` (2192). -/
def getStr (d : Dict) (key : Text) : Option Text :=
  match d.lookup key with
  | some (.str s) => some s
  | _ => none

/-- `dict_set_uint64` (2009). -/
def setUint64 (d : Dict) (key : Text) (n : Nat) : Dict := d.insert key (.num (n % 2 ^ 64 : Nat))

/-- `dict_set_int32` (1828). -/
def setInt32 (d : Dict) (key : Text) (z : Int) : Dict := d.insert key (.num (toInt32 z))

/-- `dict_set_double` (2053). -/
def setDouble (d : Dict) (key : Text) (usec : Int) : Dict := d.insert key (.dbl usec)

/-- `dict_set_str` (2219) and its variants that copy or take over the text. -/
def setStr (d : Dict) (key s : Text) : Dict := d.insert key (.str s)

/-- The members whose key satisfies `p`, as `dict_foreach_match` visits them. -/
def members (d : Dict) (p : Text → Bool) : List (Text × Data) :=
  (d.entries.filter (fun e => p e.1)).map (fun e => (e.1, e.2))

section

variable {d : Dict} {key : Text}

lemma getUint64_of_lookup {z : Int} (h : d.lookup key = some (.num z)) :
    d.getUint64 key = some (toUint64 z) := by
  rw [getUint64, h]

lemma getInt32_of_lookup {z : Int} (h : d.lookup key = some (.num z)) (hlo : -2 ^ 63 ≤ z)
    (hhi : z < 2 ^ 63) : d.getInt32 key = some (toInt32 z) := by
  rw [getInt32, h]
  exact if_pos ⟨hlo, hhi⟩

lemma getDouble_of_lookup {t : Int} (h : d.lookup key = some (.dbl t)) :
    d.getDouble key = some t := by
  rw [getDouble, h]

lemma getStr_of_lookup {s : Text} (h : d.lookup key = some (.str s)) :
    d.getStr key = some s := by
  rw [getStr, h]

lemma getUint64_lt {n : Nat} (h : d.getUint64 key = some n) : n < 2 ^ 64 := by
  unfold getUint64 at h
  split at h
  · cases h
    unfold toUint64
    omega
  · cases h

variable {k : Text}

lemma lookup_setUint64 (n : Nat) :
    (d.setUint64 key n).lookup key = some (.num (n % 2 ^ 64 : Nat)) :=
  AList.lookup_insert d

lemma lookup_setUint64_ne {n : Nat} (h : k ≠ key) :
    (d.setUint64 key n).lookup k = d.lookup k :=
  AList.lookup_insert_ne h

lemma lookup_setInt32_ne {z : Int} (h : k ≠ key) :
    (d.setInt32 key z).lookup k = d.lookup k :=
  AList.lookup_insert_ne h

lemma lookup_setDouble (t : Int) : (d.setDouble key t).lookup key = some (.dbl t) :=
  AList.lookup_insert d

lemma lookup_setDouble_ne {t : Int} (h : k ≠ key) :
    (d.setDouble key t).lookup k = d.lookup k :=
  AList.lookup_insert_ne h

lemma lookup_setStr (s : Text) : (d.setStr key s).lookup key = some (.str s) :=
  AList.lookup_insert d

lemma lookup_setStr_ne {s : Text} (h : k ≠ key) :
    (d.setStr key s).lookup k = d.lookup k :=
  AList.lookup_insert_ne h

end

section

variable {d : Dict} {p : Text → Bool} {key : Text}

private lemma filter_kerase (hp : p key = false) (l : List (Sigma fun _ : Text => Data)) :
    (l.kerase key).filter (fun e => p e.1) = l.filter (fun e => p e.1) := by
  induction l with
  | nil => rfl
  | cons e l ih =>
    by_cases he : key = e.1
    · rw [kerase_cons_eq he, filter_cons_of_neg]
      rw [← he, hp]
      decide
    · rw [kerase_cons_ne he, filter_cons, filter_cons, ih]

/-- A member that does not match changes nothing for a walk. -/
lemma members_insert_of_not (v : Data) (hp : p key = false) :
    Dict.members (d.insert key v) p = d.members p := by
  unfold members
  rw [AList.entries_insert, filter_cons_of_neg (by simp [hp]), filter_kerase hp]

/-- A new member that matches is visited once. -/
lemma members_insert_of_new (v : Data) (hp : p key) (hnew : d.lookup key = none) :
    Dict.members (d.insert key v) p = (key, v) :: d.members p := by
  unfold members
  rw [AList.entries_insert_of_notMem (AList.lookup_eq_none.mp hnew),
    filter_cons_of_pos (by exact hp), map_cons]

lemma lookup_eq_none_of_members (hp : p key) (h : key ∉ (d.members p).map Prod.fst) :
    d.lookup key = none := by
  rw [AList.lookup_eq_none]
  intro hmem
  obtain ⟨e, he, rfl⟩ := mem_map.mp (AList.mem_keys.mp hmem)
  refine h (mem_map.mpr ⟨(e.1, e.2), ?_, rfl⟩)
  exact mem_map.mpr ⟨e, mem_filter.mpr ⟨he, hp⟩, rfl⟩

end

/-- The dictionary has these rows under the keys `0`, `1`, …, and nothing under any other
numeral. -/
def HasRows (d : Dict) (rows : List Text) : Prop :=
  ∀ i, d.lookup (dec i) = rows[i]?.map Data.str

variable {d : Dict} {rows : List Text}

lemma hasRows_empty : HasRows (∅ : Dict) [] := fun _ => rfl

variable (h : HasRows d rows)
include h

lemma HasRows.insert_other {key : Text} (v : Data) (hk : ∀ n, dec n ≠ key) :
    HasRows (d.insert key v) rows := by
  intro i
  rw [AList.lookup_insert_ne (hk i)]
  exact h i

lemma HasRows.snoc (row : Text) :
    HasRows (d.insert (dec rows.length) (.str row)) (rows ++ [row]) := by
  intro i
  by_cases hi : i = rows.length
  · subst hi
    rw [AList.lookup_insert, getElem?_concat_length]
    rfl
  · rw [AList.lookup_insert_ne (fun he => hi (dec_inj he)), h i]
    by_cases hlt : i < rows.length
    · rw [getElem?_append_left hlt]
    · rw [getElem?_eq_none (by omega), getElem?_eq_none (by simp; omega)]

lemma HasRows.getStr (i : Nat) : d.getStr (dec i) = rows[i]? := by
  rw [Dict.getStr, h i]
  cases rows[i]? <;> rfl

end Dict

end TagItGluster.Libglusterfs
