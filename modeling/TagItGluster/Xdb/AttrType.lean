import TagItGluster.Xdb.Operations

/-!
# Types of attribute values

The classifiers of `ims_find_setxattr_kv` (the setxattr path) and `parse_line_to_xattr` (the
output of an extractor). Both copy the value into `data_str`, take it for an integer if it
holds no dot and `sscanf` reads a `%ld` off its start, else for a real if `sscanf` reads a
`%lf`, else for a string. Neither looks at what follows the number, nor at its range. The
conversion `%lf` is the parameter `lf`: the double it stores, or `none` if it stores none. Line
numbers: `xlators/features/imess-server/src/imess-server.h`.
-/

namespace TagItGluster.Xdb

open Base List

/-- `PATH_MAX`, the size of `data_str` in both functions. -/
def pathMax : Nat := 4096

/-- `GF_XATTR_IMESS_KEY`. -/
def imessKey : Text := "user.imess".toList

/-- `LONG_MIN`. -/
def longMin : Int := -9223372036854775808

/-- `LONG_MAX`. -/
def longMax : Int := 9223372036854775807

/-- What `strtol` stores for a number: the nearest `long`. -/
def clampLong (i : Int) : Int := max longMin (min longMax i)

/-- `sscanf (s, "%ld", &ival)`: the stored value, or `none` when nothing is stored. -/
def sscanfLd (s : Text) : Option Int :=
  if leadDigits s = [] then none
  else some (clampLong ((scanSign (s.dropWhile isSpace)).1 * digitsValue (leadDigits s)))

/-- The C string that `memcpy` leaves in the zeroed `data_str`; `none` when the bytes or their
terminator lie outside of it. -/
def copied (v : Text) : Option Text :=
  if byteLen v < pathMax ∨ (byteLen v = pathMax ∧ '\x00' ∈ v) then
    some (v.takeWhile (fun c => c != '\x00'))
  else none

/-- `ims_xattr_filler_t`. -/
structure Filler where
  count : Nat
  xattr : XAttr
  deriving DecidableEq, Repr

/-- `ims_find_setxattr_kv` (249); `none` when the value leaves `data_str`. -/
def imsFindSetxattrKv (lf : Text → Option Dbl) (k v : Text) (filler : Filler) : Option Filler :=
  if !imessKey.isPrefixOf k then some filler
  else
    match copied v with
    | none => none
    | some dataStr =>
      let named := { filler.xattr with name := some k, ival := 0, rval := 0, sval := none }
      let tryReal : XAttr :=
        match lf dataStr with
        | some rval => { named with type := typeReal, rval := rval }
        | none => { named with type := typeString, sval := some dataStr }
      let xattr : XAttr :=
        if '.' ∈ dataStr then tryReal
        else
          match sscanfLd dataStr with
          | some ival => { named with type := typeInteger, ival := ival }
          | none => tryReal
      some ⟨filler.count + 1, xattr⟩

/-- What `parse_line_to_xattr` makes of a line. -/
inductive Parsed where
  | einval
  | ok (xattr : XAttr)
  deriving DecidableEq, Repr

/-- `parse_line_to_xattr` (imess-server-ipc.c:104); `none` when the value leaves `data_str`. -/
def parseLineToXattr (lf : Text → Option Dbl) (line : Text) (xattr : XAttr) : Option Parsed :=
  match line.dropWhile (fun c => c != '=') with
  | [] => some .einval
  | _ :: val =>
    if pathMax ≤ byteLen val then none
    else
      let key := line.takeWhile (fun c => c != '=')
      let typed : Int × Int × Dbl :=
        if '.' ∉ val then
          match sscanfLd val with
          | some ival => (typeInteger, ival, 0)
          | none =>
            match lf val with
            | some rval => (typeReal, 0, rval)
            | none => (typeString, 0, 0)
        else
          match lf val with
          | some rval => (typeReal, 0, rval)
          | none => (typeString, 0, 0)
      let sval := if typed.1 = typeString then some val else none
      some (.ok { xattr with
        name := some key, type := typed.1, ival := typed.2.1, rval := typed.2.2, sval := sval })

/-- An attribute value: a C string. -/
structure AttrValue where
  chars : Text
  noNul : '\x00' ∉ chars
  deriving DecidableEq, Repr

/-- The name of an indexed attribute that a line of an extractor can also set. -/
structure AttrKey where
  chars : Text
  imess : imessKey.isPrefixOf chars = true
  noEqual : '=' ∉ chars
  deriving DecidableEq, Repr

/-- The line by which an extractor sets an attribute. -/
def AttrKey.line (k : AttrKey) (v : AttrValue) : Text := k.chars ++ '=' :: v.chars

/-- The number that a text is, from its first character to its last: an optional sign and
digits. -/
def intLiteral? (s : Text) : Option Int :=
  if (scanSign s).2 ≠ [] ∧ (scanSign s).2.all Char.isDigit = true then
    some ((scanSign s).1 * digitsValue (scanSign s).2)
  else none

/-- The type that the passage common to both functions gives to a text. -/
def attrType (lf : Text → Option Dbl) (s : Text) : Int :=
  if '.' ∉ s ∧ leadDigits s ≠ [] then typeInteger
  else if (lf s).isSome then typeReal
  else typeString

section

variable (lf : Text → Option Dbl) (k : AttrKey) (v : AttrValue)

private lemma copied_value (hlen : byteLen v.chars < pathMax) : copied v.chars = some v.chars := by
  have hall : v.chars.takeWhile (fun c => c != '\x00') = v.chars := by
    apply takeWhile_eq_self_iff.mpr
    intro c hc
    have hne : c ≠ '\x00' := by
      intro h
      exact v.noNul (h ▸ hc)
    simp [hne]
  rw [copied, if_pos (.inl hlen), hall]

private lemma copied_long (hlen : pathMax ≤ byteLen v.chars) : copied v.chars = none := by
  rw [copied, if_neg]
  rintro (h | ⟨_, h⟩)
  · exact absurd hlen (Nat.not_le.mpr h)
  · exact v.noNul h

/-- On the setxattr path a value that fits gets its type, and the number read off its start
if that is an integer. -/
lemma setxattrKv_spec (filler : Filler) (hlen : byteLen v.chars < pathMax) :
    ∃ x, imsFindSetxattrKv lf k.chars v.chars filler = some ⟨filler.count + 1, x⟩ ∧
      x.type = attrType lf v.chars ∧
      (x.type = typeInteger → sscanfLd v.chars = some x.ival) := by
  unfold imsFindSetxattrKv attrType
  simp only [k.imess, copied_value v hlen]
  refine ⟨_, rfl, ?_⟩
  by_cases hdot : '.' ∈ v.chars
  · cases hl : lf v.chars <;> simp [hdot, typeInteger, typeReal, typeString]
  · by_cases hd : leadDigits v.chars = []
    · cases hl : lf v.chars <;> simp [hd, sscanfLd, typeInteger, typeReal, typeString]
    · simp [hdot, hd, sscanfLd]

/-- A line is cut at its first equality sign. -/
lemma line_split : (k.line v).takeWhile (fun c => c != '=') = k.chars ∧
      (k.line v).dropWhile (fun c => c != '=') = '=' :: v.chars := by
  have hk : ∀ c ∈ k.chars, (c != '=') := by
    intro c hc
    have hne : c ≠ '=' := by
      intro h
      exact k.noEqual (h ▸ hc)
    simp [hne]
  rw [AttrKey.line]
  constructor
  · rw [takeWhile_append_of_pos hk]
    simp
  · rw [dropWhile_append_of_pos hk]
    simp

/-- On the extractor's path the same. -/
lemma parseLine_spec (x₀ : XAttr) (hlen : byteLen v.chars < pathMax) :
    ∃ x, parseLineToXattr lf (k.line v) x₀ = some (.ok x) ∧ x.type = attrType lf v.chars ∧
      (x.type = typeInteger → sscanfLd v.chars = some x.ival) := by
  unfold parseLineToXattr attrType
  simp only [(line_split k v).2, Nat.not_le.mpr hlen]
  refine ⟨_, rfl, ?_⟩
  by_cases hdot : '.' ∈ v.chars
  · cases hl : lf v.chars <;> simp [hdot, typeInteger, typeReal, typeString]
  · by_cases hd : leadDigits v.chars = []
    · cases hl : lf v.chars <;> simp [hd, sscanfLd, typeInteger, typeReal, typeString]
    · simp [hdot, hd, sscanfLd]

end

/-- A number starts at its first character. -/
lemma dropWhile_isSpace_of_literal {s : Text} (hne : (scanSign s).2 ≠ [])
    (hall : ∀ c ∈ (scanSign s).2, c.isDigit) : s.dropWhile isSpace = s := by
  have hhead : ∀ c rest, s = c :: rest → isSpace c = false := by
    intro c rest hs
    subst hs
    unfold scanSign at hne hall
    split at hall
    next h =>
      cases h
      decide
    next h =>
      cases h
      decide
    next => exact isSpace_eq_false_of_isDigit (hall c mem_cons_self)
  cases s with
  | nil => rfl
  | cons c rest => rw [dropWhile_cons, hhead c rest rfl, if_neg (by decide)]

/-- Of a number that is the whole text, `%ld` stores the nearest `long`. -/
lemma sscanfLd_of_literal {s : Text} {i : Int} (h : intLiteral? s = some i) :
    sscanfLd s = some (clampLong i) := by
  unfold intLiteral? at h
  split at h
  next hlit =>
    obtain ⟨hne, hdigits⟩ := hlit
    have hall := all_eq_true.mp hdigits
    cases h
    have hs := dropWhile_isSpace_of_literal hne hall
    have hds : leadDigits s = (scanSign s).2 := by
      rw [leadDigits, hs]
      exact takeWhile_eq_self_iff.mpr hall
    rw [sscanfLd, hds, hs, if_neg hne]
  next => cases h

private lemma clampLong_eq_self_iff (i : Int) : clampLong i = i ↔ longMin ≤ i ∧ i ≤ longMax := by
  unfold clampLong longMin longMax
  omega

/-- An attribute record as its callers pass it: all zero. -/
def blankAttr : XAttr := ⟨none, 0, none, 0, 0, none⟩

/-- Both functions give the value a type, and the same one; if it is that of integers, the
value as a whole is a number, and both store that number. -/
def TypedRight (lf : Text → Option Dbl) (k : AttrKey) (v : AttrValue) : Prop :=
  ∀ (filler : Filler) (x₀ : XAttr), ∃ x y,
    imsFindSetxattrKv lf k.chars v.chars filler = some ⟨filler.count + 1, x⟩ ∧
    parseLineToXattr lf (k.line v) x₀ = some (.ok y) ∧
    x.type = y.type ∧
    (x.type = typeInteger → intLiteral? v.chars = some x.ival ∧ intLiteral? v.chars = some y.ival)

/-- A text on which `%ld` goes right: it is not asked because of a dot, it finds no digit
behind white space and a sign, or the text is nothing but a number in the range of `long`. -/
def LdExact (s : Text) : Prop :=
  '.' ∈ s ∨ leadDigits s = [] ∨ ∃ i, intLiteral? s = some i ∧ longMin ≤ i ∧ i ≤ longMax

/-- A text is taken for an integer without a dot and with digits at the start. -/
lemma attrType_eq_integer_iff (lf : Text → Option Dbl) (s : Text) :
    attrType lf s = typeInteger ↔ '.' ∉ s ∧ leadDigits s ≠ [] := by
  unfold attrType
  split
  next h => exact ⟨fun _ => h, fun _ => rfl⟩
  next h =>
    refine ⟨?_, fun h' => absurd h' h⟩
    split <;> simp [typeInteger, typeReal, typeString]

/-- Values are typed alike and without loss exactly if they fit into `data_str` and `%ld` goes
right on them. -/
theorem attr_typing_iff (lf : Text → Option Dbl) (k : AttrKey) (v : AttrValue) :
    TypedRight lf k v ↔ byteLen v.chars < pathMax ∧ LdExact v.chars := by
  constructor
  · intro h
    obtain ⟨x, y, hx, -, -, hint⟩ := h ⟨0, blankAttr⟩ blankAttr
    have hlen : byteLen v.chars < pathMax := by
      apply Nat.not_le.mp
      intro hlong
      unfold imsFindSetxattrKv at hx
      simp [copied_long v hlong] at hx
    refine ⟨hlen, ?_⟩
    obtain ⟨x', hx', htype, hval⟩ := setxattrKv_spec lf k v ⟨0, blankAttr⟩ hlen
    have hxx : x = x' := by
      rw [hx, Option.some.injEq, Filler.mk.injEq] at hx'
      exact hx'.2
    subst hxx
    by_cases hdot : '.' ∈ v.chars
    · exact .inl hdot
    by_cases hd : leadDigits v.chars = []
    · exact .inr (.inl hd)
    have htypeInt : x.type = typeInteger :=
      htype.trans ((attrType_eq_integer_iff lf v.chars).mpr ⟨hdot, hd⟩)
    have hlit := (hint htypeInt).1
    -- the stored value is the literal and its clamped value at once
    have hclamp : clampLong x.ival = x.ival :=
      Option.some.inj ((sscanfLd_of_literal hlit).symm.trans (hval htypeInt))
    exact .inr (.inr ⟨x.ival, hlit, (clampLong_eq_self_iff _).mp hclamp⟩)
  · rintro ⟨hlen, hexact⟩ filler x₀
    obtain ⟨x, hx, hxtype, hxval⟩ := setxattrKv_spec lf k v filler hlen
    obtain ⟨y, hy, hytype, hyval⟩ := parseLine_spec lf k v x₀ hlen
    refine ⟨x, y, hx, hy, hxtype.trans hytype.symm, ?_⟩
    intro hint
    obtain ⟨hdot, hd⟩ := (attrType_eq_integer_iff lf v.chars).mp (hxtype.symm.trans hint)
    rcases hexact with h | h | ⟨i, hlit, hrange⟩
    · exact absurd h hdot
    · exact absurd h hd
    have hscan : sscanfLd v.chars = some i := by
      rw [sscanfLd_of_literal hlit, (clampLong_eq_self_iff i).mpr hrange]
    have hxi : x.ival = i := Option.some.inj ((hxval hint).symm.trans hscan)
    have hyi : y.ival = i :=
      Option.some.inj ((hyval (hytype.trans (hxtype.symm.trans hint))).symm.trans hscan)
    rw [hxi, hyi]
    exact ⟨hlit, hlit⟩

/-- The attribute `user.imess.a`. -/
def imessA : AttrKey := ⟨"user.imess.a".toList, by decide, by decide⟩

/-- The double 12.0, as `%lf` reads it off the start of `12abc`. -/
def readTwelve : Text → Option Dbl := fun _ => some 0x4028000000000000

/-- `12abc` is stored as the integer 12, and a number above the range as the largest one. -/
theorem attr_typing_lossy : parseLineToXattr readTwelve "user.imess.a=12abc".toList blankAttr =
      some (.ok ⟨none, typeInteger, some imessA.chars, 12, 0, none⟩) ∧
    sscanfLd "99999999999999999999".toList = some longMax ∧
    intLiteral? "99999999999999999999".toList = some 99999999999999999999 ∧
    ¬TypedRight readTwelve imessA ⟨"12abc".toList, by decide⟩ := by
  refine ⟨by decide, by decide, by decide, ?_⟩
  intro h
  obtain ⟨x, y, -, hy, htype, hint⟩ := h ⟨0, blankAttr⟩ blankAttr
  have hy' : parseLineToXattr readTwelve (imessA.line ⟨"12abc".toList, by decide⟩) blankAttr =
      some (.ok ⟨none, typeInteger, some imessA.chars, 12, 0, none⟩) := by
    decide
  rw [hy, Option.some.injEq, Parsed.ok.injEq] at hy'
  have hlit := (hint (by rw [htype, hy'])).1
  cases hlit

end TagItGluster.Xdb
