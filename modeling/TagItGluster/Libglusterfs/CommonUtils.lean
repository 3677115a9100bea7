import TagItGluster.Base.Text

/-!
# Paths and byte sizes

`gf_canonicalize_path` rewrites a path in place from the components that `strtok_r` finds in a
copy of it. `gf_string2bytesize_range` reads a number of bytes with a unit. Line numbers:
`libglusterfs/src/common-utils.c`.
-/

namespace TagItGluster.Libglusterfs

open Base List

/-- The components that `strtok_r` returns one after the other. -/
def components (path : Text) : List Text := (path.splitOn '/').filter (· ≠ [])

/-- `strncpy` of `dir` to the position; `none` is a zero byte. -/
def strncpy (path : List (Option Char)) (pos : Nat) (dir : Text) : List (Option Char) :=
  path.take pos ++ dir.map some ++ path.drop (pos + dir.length)

/-- The text up to the first zero byte. -/
def cString : List (Option Char) → Text
  | some c :: path => c :: cString path
  | _ => []

/-- The loop of `gf_canonicalize_path`, which returns `path_len` and the bytes at `path`. -/
def copyDirs : List Text → Nat → List (Option Char) → Nat × List (Option Char)
  | [], pathLen, path => (pathLen, path)
  | dir :: dirs, pathLen, path =>
    let copied := strncpy path (pathLen + 1) dir
    let pathLen := pathLen + (dir.length + 1)
    copyDirs dirs pathLen (if dirs = [] then copied else strncpy copied pathLen ['/'])

/-- `gf_canonicalize_path` (2663); `alloc` tells whether `gf_strdup` gets memory. -/
def gfCanonicalizePath (alloc : Bool) (path : Text) : Option Text :=
  if path.head? ≠ some '/' then none
  else if path = ['/'] then some path
  else if alloc then
    let (pathLen, bytes) := copyDirs (components path) 0 (some '/' :: replicate path.length none)
    some (cString (bytes.set pathLen none))
  else none

/-- What the caller expects of the path that is left in place of another one. -/
structure Canonical (path out : Text) : Prop where
  slash : out.head? = some '/'
  nonempty : out = ['/'] ∨ [] ∉ out.tail.splitOn '/'
  same : components out = components path
  stays : gfCanonicalizePath true out = some out

section

variable {dirs : List Text}

private lemma slash_notMem (s : Text) : ∀ dir ∈ s.splitOn '/', '/' ∉ dir := by
  induction s with
  | nil => simp
  | cons c s ih =>
    obtain ⟨d, ds, h⟩ := exists_cons_of_ne_nil (splitOn_ne_nil '/' s)
    rw [h] at ih
    rw [splitOn_cons_eq_if_modifyHead, h]
    split
    · simpa using ih
    · next hc =>
      have hne : '/' ≠ c := fun h => hc (beq_iff_eq.mpr h.symm)
      simpa [hne] using ih

private lemma components_slash (s : Text) : components ('/' :: s) = components s := by
  simp [components, splitOn_cons_eq_if_modifyHead]

private lemma components_eq_nil_iff (s : Text) : components s = [] ↔ ∀ c ∈ s, c = '/' := by
  induction s with
  | nil => simp [components]
  | cons c s ih =>
    by_cases hc : c = '/'
    · rw [hc, components_slash, ih]
      simp
    · obtain ⟨d, ds, h⟩ := exists_cons_of_ne_nil (splitOn_ne_nil '/' s)
      simp [components, splitOn_cons_eq_if_modifyHead, h, hc]

private lemma components_intercalate (hne : dirs ≠ [])
    (hdirs : ∀ dir ∈ dirs, dir ≠ [] ∧ '/' ∉ dir) : components (['/'].intercalate dirs) = dirs := by
  rw [components, splitOn_intercalate '/' (fun dir h => (hdirs dir h).2) hne]
  exact filter_eq_self.mpr fun dir h => by simpa using (hdirs dir h).1

private lemma cString_append (s : Text) (n : Nat) :
    cString (s.map some ++ replicate n none) = s := by
  induction s with
  | nil => cases n <;> rfl
  | cons c s ih => exact congrArg (cons c) ih

private lemma strncpy_end (s dir : Text) (n : Nat) :
    strncpy (s.map some ++ replicate n none) s.length dir =
      (s ++ dir).map some ++ replicate (n - dir.length) none := by
  simp [strncpy, drop_append]

/-- The loop puts the components behind the slash that it starts from. -/
lemma copyDirs_eq (hne : dirs ≠ []) (s : Text) (n : Nat) : ∃ m,
    copyDirs dirs s.length ((s ++ ['/']).map some ++ replicate n none) =
      ((s ++ '/' :: ['/'].intercalate dirs).length,
        (s ++ '/' :: ['/'].intercalate dirs).map some ++ replicate m none) := by
  induction dirs generalizing s n with
  | nil => contradiction
  | cons dir dirs ih =>
    have hcopy := strncpy_end (s ++ ['/']) dir n
    have hslash := strncpy_end (s ++ ['/'] ++ dir) ['/'] (n - dir.length)
    have hlen : s.length + (dir.length + 1) = (s ++ ['/'] ++ dir).length := by
      simp
    rw [length_append, length_singleton] at hcopy
    rw [copyDirs, hlen, hcopy]
    cases dirs with
    | nil => exact ⟨n - dir.length, by simp [copyDirs]⟩
    | cons next dirs =>
      obtain ⟨m, hm⟩ := ih (cons_ne_nil _ _) (s ++ ['/'] ++ dir) (n - dir.length - 1)
      refine ⟨m, ?_⟩
      rw [if_neg (cons_ne_nil _ _), hslash]
      refine hm.trans ?_
      simp [intercalate_cons_cons]

/-- What is left of a path with a component. -/
lemma gfCanonicalizePath_eq (s : Text) (h : components s ≠ []) :
    gfCanonicalizePath true ('/' :: s) = some ('/' :: ['/'].intercalate (components s)) := by
  have hs : s ≠ [] := by
    rintro rfl
    exact h rfl
  obtain ⟨m, hm⟩ := copyDirs_eq h [] ('/' :: s).length
  have hend := cString_append ('/' :: ['/'].intercalate (components s)) m
  simp only [gfCanonicalizePath, components_slash]
  rw [if_neg (by simp), if_neg (by simpa using hs), if_pos trivial]
  rw [show copyDirs _ 0 (some '/' :: replicate ('/' :: s).length none) = _ from hm]
  dsimp only
  rw [nil_append, set_append_right _ _ (by simp), set_replicate_self, hend]

end

/-- Two slashes leave the empty text. -/
theorem two_slashes : gfCanonicalizePath true "//".toList = some [] := by
  decide

/-- A path is left in its canonical form exactly if it has a component or is the root. -/
theorem canonical_path_iff (s : Text) :
    (∃ out, gfCanonicalizePath true ('/' :: s) = some out ∧ Canonical ('/' :: s) out) ↔
      s = [] ∨ ∃ c ∈ s, c ≠ '/' := by
  by_cases hnil : components s = []
  · have hall := (components_eq_nil_iff s).mp hnil
    by_cases hs : s = []
    · subst hs
      exact iff_of_true ⟨['/'], rfl, by constructor <;> decide⟩ (.inl rfl)
    · refine iff_of_false ?_ (by simpa [hs] using hall)
      rintro ⟨out, hout, hcanon⟩
      have hempty : gfCanonicalizePath true ('/' :: s) = some [] := by
        simp [gfCanonicalizePath, components_slash, hnil, copyDirs, hs, cString]
      rw [hempty] at hout
      cases hout
      cases hcanon.slash
  · have hdirs : ∀ dir ∈ components s, dir ≠ [] ∧ '/' ∉ dir := by
      intro dir h
      obtain ⟨hmem, hne⟩ := mem_filter.mp h
      exact ⟨of_decide_eq_true hne, slash_notMem s dir hmem⟩
    have hsame := components_intercalate hnil hdirs
    refine iff_of_true ⟨_, gfCanonicalizePath_eq s hnil, rfl, .inr ?_, ?_, ?_⟩ (.inr ?_)
    · rw [tail_cons, splitOn_intercalate '/' (fun dir h => (hdirs dir h).2) hnil]
      exact fun h => (hdirs [] h).1 rfl
    · rw [components_slash, components_slash, hsame]
    · rw [gfCanonicalizePath_eq _ (by rwa [hsame]), hsame]
    · simpa [components_eq_nil_iff] using hnil

/-- The units by their names; a number of bytes stays as it is. -/
def units : List (Text × UInt64) := [("KB".toList, 1024), ("MB".toList, 1048576),
  ("GB".toList, 1073741824), ("TB".toList, 1099511627776), ("PB".toList, 1125899906842624),
  ("B".toList, 0)]

/-- The unit that stands behind a number, in small or capital letters; it may be left out. -/
def unitOf (tail : Text) : Option UInt64 :=
  if tail = [] then some 0
  else (units.find? fun u => u.1 = tail.map Char.toUpper).map Prod.snd

/-- `gf_string2bytesize_range` (1467), with `*n` in case of success. What it makes of a number with
a fraction is left open. -/
def gfString2bytesizeRange (fraction : Text → UInt64 → Option UInt64) (str : Text)
    (max : UInt64) : Option UInt64 :=
  let scan := scanSign (str.dropWhile isSpace)
  if scan.1 = -1 then none
  else if '.' ∈ str then fraction str max
  else
    let intValue := digitsValue (leadDigits str)
    -- `EINVAL` and `ERANGE`
    if leadDigits str = [] ∨ 2 ^ 63 ≤ intValue then none
    else do
      let unit ← unitOf (scan.2.dropWhile Char.isDigit)
      let intValue := if unit > 0 then UInt64.ofNat intValue * unit else UInt64.ofNat intValue
      -- The difference is unsigned, like its operands.
      if max - intValue < 0 then none else some intValue

/-- `gf_string2bytesize_range` and its wrappers `gf_string2bytesize_size` (1552),
`gf_string2bytesize` (1562), `gf_string2bytesize_uint64` (1568) and `gf_string2bytesize_int64`
(1574). -/
inductive Sizes where
  | range (max : UInt64)
  | size | bytesize | uint64 | int64

/-- The maximum that is passed on. -/
def Sizes.max : Sizes → UInt64
  | range max => max
  | size | bytesize | uint64 => UInt64.ofNat (2 ^ 64 - 1)
  | int64 => UInt64.ofNat (2 ^ 63 - 1)

/-- What is stored. -/
def Sizes.parse (fraction : Text → UInt64 → Option UInt64) (w : Sizes) (str : Text) : Option Int :=
  (gfString2bytesizeRange fraction str w.max).map fun n =>
    match w with
    | int64 => (n.toNat : Int).bmod (2 ^ 64)
    | _ => n.toNat

/-- The exact product of the integer and the unit. -/
def product (ds : Text) (unit : UInt64) : Nat := digitsValue ds * Nat.max 1 unit.toNat

section

variable {c : Char} {ds tail : Text} {unit : UInt64}

-- The letters come after the digits and the point.
private lemma letters_of_unitOf (h : unitOf tail = some unit) (hc : c ∈ tail) : 57 < c.toNat := by
  have hunits : ∀ u ∈ units, ∀ c ∈ u.1, 57 < c.toNat := by simp [units]
  rw [unitOf, if_neg (ne_nil_of_mem hc)] at h
  obtain ⟨u, hu, -⟩ := Option.map_eq_some_iff.mp h
  have hname : u.1 = tail.map Char.toUpper := by simpa using find?_some hu
  have hupper := hunits u (mem_of_find?_eq_some hu) c.toUpper (hname ▸ mem_map_of_mem hc)
  by_contra hle
  have hsame : c.toUpper = c := dif_neg fun h => hle (lt_of_lt_of_le (by decide) h.1)
  exact hle (hsame ▸ hupper)

private lemma gfString2bytesizeRange_eq (hne : ds ≠ []) (hds : ∀ c ∈ ds, c.isDigit)
    (hunit : unitOf tail = some unit) (fraction : Text → UInt64 → Option UInt64) (max : UInt64) :
    gfString2bytesizeRange fraction (ds ++ tail) max =
      if 2 ^ 63 ≤ digitsValue ds then none else some (UInt64.ofNat (product ds unit)) := by
  have hscan : scanSign ((ds ++ tail).dropWhile isSpace) = (1, ds ++ tail) := by
    obtain ⟨c, ds, rfl⟩ := exists_cons_of_ne_nil hne
    exact scanSign_digit (hds c mem_cons_self) _
  have hpoint : '.' ∉ ds ++ tail := by
    intro h
    rcases mem_append.mp h with h | h
    · exact absurd (hds _ h) (by decide)
    · exact absurd (letters_of_unitOf hunit h) (by decide)
  have hsplit : (ds ++ tail).takeWhile Char.isDigit = ds ∧
      (ds ++ tail).dropWhile Char.isDigit = tail := by
    have hstop : tail.takeWhile Char.isDigit = [] ∧ tail.dropWhile Char.isDigit = tail := by
      cases tail with
      | nil => exact ⟨rfl, rfl⟩
      | cons c tail =>
        have hc : c.isDigit = false := Bool.eq_false_iff.mpr fun h =>
          Nat.not_lt.mpr (Char.isDigit_iff_toNat.mp h).2 (letters_of_unitOf hunit mem_cons_self)
        simp [hc]
    rw [takeWhile_append_of_pos hds, dropWhile_append_of_pos hds, hstop.1, hstop.2, append_nil]
    exact ⟨rfl, rfl⟩
  have hlead : leadDigits (ds ++ tail) = ds := by rw [leadDigits, hscan, hsplit.1]
  have hproduct : (if unit > 0 then UInt64.ofNat (digitsValue ds) * unit
      else UInt64.ofNat (digitsValue ds)) = UInt64.ofNat (product ds unit) := by
    apply UInt64.toNat_inj.mp
    split
    · next hpos =>
      have hone : Nat.max 1 unit.toNat = unit.toNat := Nat.max_eq_right hpos
      simp [product, hone]
    · next hzero => simp [product, show unit = 0 by simpa using hzero]
  simp [gfString2bytesizeRange, hscan, hpoint, hlead, hsplit.2, hunit, hne, hproduct]

end

/-- A size above the maximum is stored, and one of `2 ^ 64` bytes is stored as zero. -/
theorem size_above_maximum : (Sizes.range 5).parse (fun _ _ => none) "10".toList = some 10 ∧
    Sizes.bytesize.parse (fun _ _ => none) "18014398509481984KB".toList = some 0 := by
  decide

/-- A byte size is exact exactly if it is not above the maximum, or its number is refused because
it does not fit into a `long long`. -/
theorem byte_size_exact_iff (w : Sizes) (ds tail : Text) (unit : UInt64) (hne : ds ≠ [])
    (hds : ∀ c ∈ ds, c.isDigit) (hunit : unitOf tail = some unit)
    (fraction : Text → UInt64 → Option UInt64) :
    (∀ n, w.parse fraction (ds ++ tail) = some n →
        product ds unit ≤ w.max.toNat ∧ n = product ds unit) ↔
      2 ^ 63 ≤ digitsValue ds ∨ product ds unit ≤ w.max.toNat := by
  rw [Sizes.parse, gfString2bytesizeRange_eq hne hds hunit]
  by_cases hrange : 2 ^ 63 ≤ digitsValue ds
  · rw [if_pos hrange]
    exact iff_of_true (by simp) (.inl hrange)
  rw [if_neg hrange]
  have hmax := w.max.toNat_lt
  simp only [Option.map_some, Option.some.injEq, forall_eq', hrange, false_or]
  refine ⟨And.left, fun h => ⟨h, ?_⟩⟩
  have hn : (UInt64.ofNat (product ds unit)).toNat = product ds unit :=
    Nat.mod_eq_of_lt (by omega)
  cases w with
  | int64 =>
    have hint : product ds unit ≤ 2 ^ 63 - 1 := h
    simp only [hn]
    exact Int.bmod_eq_of_le (by omega) (by omega)
  | _ => exact congrArg Nat.cast hn

theorem byte_size_exact_iff_kb :
    product ['4'] 1024 ≤ Sizes.size.max.toNat ∧ 4096 = (product ['4'] 1024 : Int) :=
  (byte_size_exact_iff .size ['4'] "kB".toList 1024 (cons_ne_nil _ _) (forall_mem_singleton.mpr rfl)
    (by decide) fun _ _ => none).mpr (.inr (by decide)) 4096 (by decide)

end TagItGluster.Libglusterfs
