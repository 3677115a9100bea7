import TagItGluster.Changelog.Format

/-!
# Round trip of the ascii format

A record is its letter, the text of its gfid and its fields, each behind a zero. The decoder is
followed field by field; what it fills into the line so far is carried by `inLine`, which is an
overrun as soon as the line is too long, so that the bound is looked at once, on the whole line.
-/

namespace TagItGluster.Changelog

open Base List

/-! ## Texts of gfids -/

private lemma unreserved_hexDigit {n : Nat} (h : n < 16) : unreserved (hexDigit 'a' n) = true := by
  revert n
  decide

private lemma unreserved_hexText (l : Bytes) :
    ∀ b ∈ l.flatMap (hexByte 'a'), unreserved b = true := by
  intro b hb
  obtain ⟨c, -, hc⟩ := mem_flatMap.mp hb
  have hlt := c.toNat_lt
  rcases mem_pair.mp hc with rfl | rfl
  · exact unreserved_hexDigit (by omega)
  · exact unreserved_hexDigit (by omega)

private lemma length_hexText (l : Bytes) : (l.flatMap (hexByte 'a')).length = 2 * l.length := by
  induction l with
  | nil => rfl
  | cons b l ih =>
    rw [flatMap_cons, length_append, length_cons]
    have hlen : (hexByte 'a' b).length = 2 := rfl
    omega

@[simp] lemma length_uuidUtoa (u : Uuid) : (uuidUtoa u).length = uuidCanonicalFormLen := by
  have hsize := u.size
  simp only [uuidUtoa, length_append, length_cons, length_hexText, length_take,
    length_drop, uuidCanonicalFormLen]
  omega

private lemma unreserved_uuidUtoa (u : Uuid) : ∀ b ∈ uuidUtoa u, unreserved b = true := by
  intro b hb
  have hdash : unreserved (chr '-') := by decide
  simp only [uuidUtoa, mem_append, mem_cons] at hb
  rcases hb with ((((h | h | h) | h | h) | h | h) | h | h)
  all_goals
    first
    | exact h ▸ hdash
    | exact unreserved_hexText _ b h

variable {s x file : Bytes} {α : Type} {c : Change} {cs : List Change}

private lemma zero_notMem_uuidUtoa (u : Uuid) : 0 ∉ uuidUtoa u :=
  fun hmem => absurd (unreserved_uuidUtoa u 0 hmem) (by decide)

private lemma zero_notMem_dec (n : Nat) : 0 ∉ asciiBytes (dec n) := by
  intro h
  obtain ⟨c, hc, hzero⟩ := mem_map.mp h
  have hd : 48 ≤ c.toNat ∧ c.toNat ≤ 57 := Char.isDigit_iff_toNat.mp (isDigit_of_mem_dec hc)
  have hmod := congrArg UInt8.toNat hzero
  rw [chr, UInt8.toNat_ofNat'] at hmod
  have hz : (0 : UInt8).toNat = 0 := rfl
  omega

/-! ## Escapes -/

private lemma rfc3986Encode_cons (b : UInt8) (s : Bytes) : gfRfc3986Encode (b :: s) =
      (if unreserved b then [b] else chr '%' :: hexByte 'A' b) ++ gfRfc3986Encode s :=
  flatMap_cons

private lemma length_rfc3986Encode_le (s : Bytes) : (gfRfc3986Encode s).length ≤ 3 * s.length := by
  induction s with
  | nil => exact le_refl _
  | cons b s ih =>
    have hb : (if unreserved b then [b] else chr '%' :: hexByte 'A' b).length ≤ 3 := by
      split <;> simp [hexByte]
    rw [rfc3986Encode_cons, length_append, length_cons]
    omega

/-- An escaped text has room for its final zero exactly if some byte is not escaped. -/
lemma length_rfc3986Encode_lt_iff (s : Bytes) :
    (gfRfc3986Encode s).length < 3 * s.length ↔ s.any unreserved = true := by
  induction s with
  | nil => simp [gfRfc3986Encode]
  | cons b s ih =>
    have hs := length_rfc3986Encode_le s
    rw [rfc3986Encode_cons, length_append, length_cons, any_cons, Bool.or_eq_true, ← ih]
    by_cases hb : unreserved b = true
    · simp only [hb, if_true, length_singleton, true_or, iff_true]
      omega
    have hlen : (if unreserved b then [b] else chr '%' :: hexByte 'A' b).length = 3 := by
      rw [if_neg hb]
      rfl
    rw [hlen]
    simp only [hb, false_or, Bool.false_eq_true]
    omega

private lemma escape_of_any (h : s.any unreserved) : escape s = .done (gfRfc3986Encode s) := by
  have hlt := (length_rfc3986Encode_lt_iff s).mpr h
  exact if_pos hlt

private lemma escape_of_not_any (h : s.any unreserved = false) : escape s = .overrun := by
  refine if_neg ?_
  intro hlt
  rw [(length_rfc3986Encode_lt_iff s).mp hlt] at h
  cases h

/-! ## Fields -/

/-- Fields, each behind a zero, and a last zero before the rest. -/
def fields : List Bytes → Bytes → Bytes
  | [], rest => 0 :: rest
  | f :: fs, rest => 0 :: (f ++ fields fs rest)

private lemma fields_eq_cons (fs : List Bytes) (rest : Bytes) : ∃ t, fields fs rest = 0 :: t := by
  cases fs with
  | nil => exact ⟨rest, rfl⟩
  | cons f fs => exact ⟨_, rfl⟩

private lemma fields_append (fs : List Bytes) (r rest : Bytes) :
    fields fs r ++ rest = fields fs (r ++ rest) := by
  induction fs with
  | nil => rfl
  | cons f fs ih => rw [fields, fields, cons_append, append_assoc, ih]

private lemma lt_length_fields (fs : List Bytes) (rest : Bytes) :
    rest.length < (fields fs rest).length := by
  induction fs with
  | nil => exact Nat.lt_succ_self _
  | cons f fs ih =>
    rw [fields, length_cons, length_append]
    omega

private lemma strAt_fields (hs : 0 ∉ s) (fs : List Bytes) (rest : Bytes) :
    strAt (s ++ fields fs rest) = .done s := by
  obtain ⟨t, ht⟩ := fields_eq_cons fs rest
  rw [ht, strAt, if_pos (mem_append_right s mem_cons_self), takeWhile_ne_zero hs]

private lemma move_append (s rest : Bytes) : move s.length (s ++ rest) = .done rest := by
  rw [move, if_pos (by simp), drop_left]

private lemma move_one (b : UInt8) (rest : Bytes) : move 1 (b :: rest) = .done rest :=
  move_append [b] rest

/-- The result `a`, if the line `x` fits into its buffer. -/
def inLine {α : Type} (x : Bytes) (a : α) : Parse α :=
  if x.length ≤ lineBufsize then .done a else .overrun

lemma inLine_of_le (h : x.length ≤ lineBufsize) (a : α) : inLine x a = .done a := if_pos h

private lemma fill_eq (ascii b : Bytes) : fill ascii b = inLine (ascii ++ b) (ascii ++ b) := rfl

/-- A line that goes on is looked at once, at its end. -/
lemma inLine_bind_bind {β γ : Type} {y : Bytes} {a : α} {b : β} {k : α → Parse γ}
    {k' : β → Parse γ} (hlen : x.length ≤ y.length)
    (hk : x.length ≤ lineBufsize → k a = (inLine y b >>= k')) :
    (inLine x a >>= k) = (inLine y b >>= k') := by
  by_cases hx : x.length ≤ lineBufsize
  · rw [inLine_of_le hx, Parse.done_bind, hk hx]
  · have hy : ¬y.length ≤ lineBufsize := by omega
    rw [inLine, if_neg hx, inLine, if_neg hy]
    rfl

lemma inLine_bind {β : Type} {y : Bytes} {a : α} {b : β} {k : α → Parse β}
    (hlen : x.length ≤ y.length) (hk : x.length ≤ lineBufsize → k a = inLine y b) :
    (inLine x a >>= k) = inLine y b := by
  have hdone : (inLine y b >>= Parse.done) = inLine y b := by
    unfold inLine
    split <;> rfl
  rw [← hdone]
  apply inLine_bind_bind hlen
  rw [hdone]
  exact hk

/-- The target of a record is read and put into the line. -/
lemma parseTarget_eq (ascii : Bytes) (u : Uuid) (fs : List Bytes) (rest : Bytes) :
    parseTarget ascii (uuidUtoa u ++ fields fs rest) =
      inLine (ascii ++ uuidUtoa u) (ascii ++ uuidUtoa u, fields fs rest) := by
  have hsep : (uuidUtoa u ++ fields fs rest)[uuidCanonicalFormLen]? = some 0 := by
    obtain ⟨t, ht⟩ := fields_eq_cons fs rest
    rw [ht, ← length_uuidUtoa u, getElem?_append_right (Nat.le_refl _), Nat.sub_self]
    rfl
  have hgfid : parseGfid (uuidUtoa u ++ fields fs rest) = .done (uuidUtoa u) := by
    rw [parseGfid, hsep]
    exact strAt_fields (zero_notMem_uuidUtoa u) fs rest
  rw [parseTarget, hgfid, Parse.done_bind]
  apply inLine_bind (Nat.le_refl _)
  intro hx
  rw [← length_uuidUtoa u, move_append, inLine_of_le hx]
  rfl

/-- The name of a fop in `gf_fop_list`. -/
def Fop.text (fop : Fop) : Text := gfFopList.getD fop.n []

private lemma Fop.getElem?_text (fop : Fop) : gfFopList[fop.n]? = some fop.text := by
  have hlt : fop.n < gfFopList.length := fop.lt
  rw [Fop.text, getD_eq_getElem?_getD, getElem?_eq_getElem hlt]
  rfl

/-- The text of a fop is read back. -/
lemma parseFop_eq (fop : Fop) (fs : List Bytes) (rest : Bytes) :
    parseFop (asciiBytes (dec fop.n) ++ fields fs rest) =
      .done (fop.n, fop.text, (asciiBytes (dec fop.n)).length) := by
  have hback : (asciiBytes (dec fop.n)).map (fun b => Char.ofNat b.toNat) = dec fop.n := by
    rw [asciiBytes, map_map]
    apply (map_congr_left _).trans (map_id _)
    intro c hc
    have hd : 48 ≤ c.toNat ∧ c.toNat ≤ 57 := Char.isDigit_iff_toNat.mp (isDigit_of_mem_dec hc)
    have hmod : (chr c).toNat = c.toNat := by
      rw [chr, UInt8.toNat_ofNat']
      omega
    simp [hmod, Char.ofNat_toNat]
  rw [parseFop, strAt_fields (zero_notMem_dec _), Parse.done_bind]
  simp only [hback, atoi_dec]
  rw [if_pos (by omega), Int.toNat_natCast, fop.getElem?_text]

/-- The target and the fop of a record are read and put into the line. -/
lemma parseTargetFop_eq (ascii : Bytes) (u : Uuid) (fop : Fop) (fs : List Bytes) (rest : Bytes) :
    parseTargetFop ascii (uuidUtoa u ++ fields (asciiBytes (dec fop.n) :: fs) rest) =
      inLine (ascii ++ uuidUtoa u ++ chr ' ' :: asciiBytes fop.text)
        (fop.n, ascii ++ uuidUtoa u ++ chr ' ' :: asciiBytes fop.text, fields fs rest) := by
  rw [parseTargetFop, parseTarget_eq]
  apply inLine_bind (by simp)
  intro _
  simp only [fill_eq]
  apply inLine_bind (by simp)
  intro _
  simp only [fields, move_one, Parse.done_bind, parseFop_eq, move_append]
  rw [append_assoc _ [chr ' ']]
  apply inLine_bind (le_refl _)
  intro hx
  rw [inLine_of_le hx]
  rfl

/-- The numbers of a creation are copied into the line. -/
lemma extraRecs_eq (ns : List Bytes) (hns : ∀ s ∈ ns, 0 ∉ s) (ascii : Bytes)
    (hx : ascii.length ≤ lineBufsize) (fs : List Bytes) (rest : Bytes) :
    extraRecs ns.length ascii (fields (ns ++ fs) rest) = inLine (ascii ++ ns.flatMap (chr ' ' :: ·))
        (ascii ++ ns.flatMap (chr ' ' :: ·), fields fs rest) := by
  induction ns generalizing ascii with
  | nil =>
    rw [flatMap_nil, append_nil, inLine_of_le hx]
    rfl
  | cons s ns ih =>
    rw [length_cons, extraRecs, cons_append, fields, move_one, Parse.done_bind,
      strAt_fields (hns s mem_cons_self)]
    simp only [flatMap_cons]
    apply inLine_bind (by simp)
    intro _
    apply inLine_bind (by simp)
    intro hx'
    rw [move_append, Parse.done_bind, ih (fun t ht => hns t (mem_cons_of_mem s ht)) _ hx']
    simp [nil_append]

/-- A text with an unreserved byte and without zeros. -/
def EntryOk (s : Bytes) : Prop := s ≠ [] ∧ 0 ∉ s ∧ s.any unreserved = true

/-- Such entries are escaped and put into the line. -/
lemma gfidRecs_eq (es : List Bytes) (hes : ∀ s ∈ es, EntryOk s)
    (n : Nat) (ascii : Bytes) (hx : ascii.length ≤ lineBufsize) (fs : List Bytes) (rest : Bytes) :
    gfidRecs (es.length + n) ascii (fields (es ++ fs) rest) =
      (inLine (ascii ++ es.flatMap (fun s => chr ' ' :: gfRfc3986Encode s))
        (ascii ++ es.flatMap (fun s => chr ' ' :: gfRfc3986Encode s), fields fs rest)) >>= fun p =>
        gfidRecs n p.1 p.2 := by
  induction es generalizing ascii with
  | nil =>
    rw [flatMap_nil, append_nil, inLine_of_le hx, length_nil, Nat.zero_add]
    rfl
  | cons s es ih =>
    obtain ⟨hne, hs, hany⟩ := hes s mem_cons_self
    rw [length_cons, Nat.add_right_comm, gfidRecs, cons_append, fields, move_one,
      Parse.done_bind, strAt_fields hs, Parse.done_bind, if_neg hne]
    simp only [escape_of_any hany]
    apply inLine_bind_bind (by simp)
    intro _
    apply inLine_bind_bind (by simp)
    intro hx'
    rw [move_append, Parse.done_bind, ih (fun t ht => hes t (mem_cons_of_mem s ht)) _ hx']
    simp [nil_append]

/-! ## Records -/

/-- The start of every line: the letter and the gfid. -/
def lineStart (letter : UInt8) (gfid : Uuid) : Bytes := [letter] ++ [chr ' '] ++ uuidUtoa gfid

/-- The line of an entry record up to its end: the fop, numbers, and escaped entries. -/
def entryLine (gfid : Uuid) (fopname : Text) (nums entries : List Bytes) : Bytes :=
  lineStart (chr 'E') gfid ++ chr ' ' :: asciiBytes fopname ++ nums.flatMap (chr ' ' :: ·) ++
    entries.flatMap (fun s => chr ' ' :: gfRfc3986Encode s)

/-- What the switch leaves is finished with a newline. -/
lemma parseAsciiRecord_eq {v : Version} {letter : UInt8} {mover m : Bytes}
    (h : parseFields v letter ([letter] ++ [chr ' ']) mover = inLine x (x, m)) :
    parseAsciiRecord v letter mover = inLine (x ++ [chr '\n']) (x ++ [chr '\n'], m) := by
  have hstart : parseAsciiRecord v letter mover =
      (parseFields v letter ([letter] ++ [chr ' ']) mover >>= fun p =>
        fill p.1 [chr '\n'] >>= fun ascii => pure (ascii, p.2)) := rfl
  rw [hstart, h]
  apply inLine_bind (by simp)
  intro _
  apply inLine_bind (le_refl _)
  intro hx
  rw [inLine_of_le hx]
  rfl

private lemma parseAsciiRecord_overrun {v : Version} {letter : UInt8} {mover : Bytes}
    (h : parseFields v letter ([letter] ++ [chr ' ']) mover = .overrun) :
    parseAsciiRecord v letter mover = .overrun := by
  have hstart : parseAsciiRecord v letter mover =
      (parseFields v letter ([letter] ++ [chr ' ']) mover >>= fun p =>
        fill p.1 [chr '\n'] >>= fun ascii => pure (ascii, p.2)) := rfl
  rw [hstart, h]
  rfl

private lemma parseFields_metadata (v : Version) (gfid : Uuid) (fop : Fop) (rest : Bytes) :
    parseFields v (chr 'M') ([chr 'M'] ++ [chr ' '])
        (uuidUtoa gfid ++ fields [asciiBytes (dec fop.n)] rest) =
      inLine (lineStart (chr 'M') gfid ++ chr ' ' :: asciiBytes fop.text)
        (lineStart (chr 'M') gfid ++ chr ' ' :: asciiBytes fop.text, fields [] rest) := by
  have hswitch : parseFields v (chr 'M') ([chr 'M'] ++ [chr ' '])
      (uuidUtoa gfid ++ fields [asciiBytes (dec fop.n)] rest) =
      (parseTargetFop ([chr 'M'] ++ [chr ' '])
        (uuidUtoa gfid ++ fields [asciiBytes (dec fop.n)] rest) >>= fun p =>
        pure (p.2.1, p.2.2)) := rfl
  rw [hswitch, parseTargetFop_eq]
  apply inLine_bind (le_refl _)
  intro hx
  exact (inLine_of_le hx _).symm

/-- The text of a number. -/
def numText (nr : UInt32) : Bytes := asciiBytes (dec nr.toNat)

private lemma zero_notMem_numTexts (ns : List UInt32) : ∀ s ∈ ns.map numText, 0 ∉ s := by
  intro s hs
  obtain ⟨n, -, rfl⟩ := mem_map.mp hs
  exact zero_notMem_dec n.toNat

section

variable (gfid : Uuid) (fop : Fop) (ns : List UInt32) (hextra : nrExtraRecs fop.n = ns.length)
  (entries : List Bytes) (hentries : ∀ s ∈ entries, EntryOk s)
include hextra hentries

/-- An entry record is followed up to the entries that the decoder has still to read. -/
lemma parseFields_entry {n : Nat} (hgfids : nrGfids .v12 fop.n = entries.length + n)
    (fs : List Bytes) (rest : Bytes) :
    parseFields .v12 (chr 'E') ([chr 'E'] ++ [chr ' ']) (uuidUtoa gfid ++
        fields (asciiBytes (dec fop.n) :: (ns.map numText ++ (entries ++ fs))) rest) =
      (inLine (entryLine gfid fop.text (ns.map numText) entries)
        (entryLine gfid fop.text (ns.map numText) entries, fields fs rest) >>= fun p =>
        gfidRecs n p.1 p.2) := by
  have hswitch : ∀ m, parseFields .v12 (chr 'E') ([chr 'E'] ++ [chr ' ']) m =
      (parseTargetFop ([chr 'E'] ++ [chr ' ']) m >>= fun p =>
        extraRecs (nrExtraRecs p.1) p.2.1 p.2.2 >>= fun q =>
          gfidRecs (nrGfids .v12 p.1) q.1 q.2) := fun _ => rfl
  rw [hswitch, parseTargetFop_eq]
  apply inLine_bind_bind (by simp [entryLine, lineStart])
  intro hx
  rw [hextra, ← length_map numText, extraRecs_eq _ (zero_notMem_numTexts ns) _ hx, hgfids]
  apply inLine_bind_bind (by simp [entryLine, lineStart])
  intro hx'
  exact gfidRecs_eq entries hentries n _ hx' fs rest

/-- Without further entries the line is complete. -/
lemma parse_entries (hgfids : nrGfids .v12 fop.n = entries.length) (rest : Bytes) :
    parseAsciiRecord .v12 (chr 'E') (uuidUtoa gfid ++
        fields (asciiBytes (dec fop.n) :: (ns.map numText ++ entries)) rest) =
      inLine (entryLine gfid fop.text (ns.map numText) entries ++ [chr '\n'])
        (entryLine gfid fop.text (ns.map numText) entries ++ [chr '\n'], fields [] rest) := by
  apply parseAsciiRecord_eq
  have h := parseFields_entry gfid fop ns hextra entries hentries (n := 0) hgfids [] rest
  rw [append_nil] at h
  refine h.trans (inLine_bind (le_refl _) ?_)
  intro hx
  exact (inLine_of_le hx _).symm

end

/-! ## Changes -/

/-- The text of a parent gfid and a name. -/
def entryText (pargfid : Uuid) (bname : Name) : Bytes := entryFn true pargfid bname

private lemma entryText_ok (pargfid : Uuid) (bname : Name) : EntryOk (entryText pargfid bname) := by
  have hsplit : entryText pargfid bname = uuidUtoa pargfid ++ chr '/' :: bname.bytes := rfl
  have hlen := length_uuidUtoa pargfid
  have hne : uuidUtoa pargfid ≠ [] := by
    intro h
    rw [h] at hlen
    cases hlen
  obtain ⟨b, t, hb⟩ := exists_cons_of_ne_nil hne
  refine ⟨?_, ?_, ?_⟩
  · rw [hsplit, hb]
    exact cons_ne_nil b _
  · intro hmem
    rcases mem_append.mp hmem with h | h
    · exact zero_notMem_uuidUtoa pargfid h
    · rcases mem_cons.mp h with h | h
      · exact absurd h (by decide)
      · exact bname.noNul h
  · have hun := unreserved_uuidUtoa pargfid b (hb ▸ mem_cons_self)
    rw [hsplit, hb]
    simp [hun]

/-- The texts that follow the fop of a deletion. -/
def pathTexts (path : DelPath) : List Bytes := if path.bytes = [] then [[], []] else [path.bytes]

/-- The fields of a record, as they are separated by zeros. -/
def Change.fieldTexts : Change → List Bytes
  | .data _ => []
  | .metadata _ fop => [asciiBytes (dec fop.n)]
  | .mknod _ mode uid gid par bname =>
    asciiBytes (dec Fop.mknod.n) :: ([mode, uid, gid].map numText ++ [entryText par bname])
  | .mkdir _ mode uid gid par bname =>
    asciiBytes (dec Fop.mkdir.n) :: ([mode, uid, gid].map numText ++ [entryText par bname])
  | .create _ mode uid gid par bname =>
    asciiBytes (dec Fop.create.n) :: ([mode, uid, gid].map numText ++ [entryText par bname])
  | .symlink _ par bname => [asciiBytes (dec Fop.symlink.n), entryText par bname]
  | .link _ par bname => [asciiBytes (dec Fop.link.n), entryText par bname]
  | .rename _ oldPar oldName newPar newName =>
    [asciiBytes (dec Fop.rename.n), entryText oldPar oldName, entryText newPar newName]
  | .unlink _ par bname path =>
    asciiBytes (dec Fop.unlink.n) :: ([entryText par bname] ++ pathTexts path)
  | .rmdir _ par bname path =>
    asciiBytes (dec Fop.rmdir.n) :: ([entryText par bname] ++ pathTexts path)

/-- What an encoded change looks like in front of the rest of the file. -/
lemma record_append (c : Change) (rest : Bytes) : c.cld.record true (uuidUtoa c.cld.gfid) ++ rest =
      c.cld.type.letter :: (uuidUtoa c.cld.gfid ++ fields c.fieldTexts rest) := by
  have hpath : ∀ (par : Uuid) (bname : Name) (path : DelPath) (r : Bytes),
      delEntryFn true par bname path ++ 0 :: r =
        entryText par bname ++ fields (pathTexts path) r := by
    intro par bname path r
    by_cases hp : path.bytes = [] <;> simp [delEntryFn, pathTexts, entryText, entryFn, fields, hp]
  cases c with
  | unlink | rmdir =>
    simp [Cld.record, Change.cld, changelogEncodeWriteXtra, Change.fieldTexts, fields,
      Opt.convert, fopFn, hpath, fields_append]
  | _ =>
    simp [Cld.record, Change.cld, changelogEncodeWriteXtra, Change.fieldTexts, fields,
      Opt.convert, madeFields, fopFn, numberFn, numText, entryText]

/-- The escaped entries of a deletion. -/
def deletedTexts (par : Uuid) (bname : Name) (path : DelPath) : List Bytes :=
  entryText par bname :: (if path.bytes = [] then [] else [path.bytes])

/-- The line that a change should give: the letter, the gfid, the fop's name, the numbers, and
the escaped entries. -/
def Change.asciiLine : Change → Bytes
  | .data gfid => lineStart (chr 'D') gfid ++ [chr '\n']
  | .metadata gfid fop => lineStart (chr 'M') gfid ++ chr ' ' :: asciiBytes fop.text ++ [chr '\n']
  | .mknod gfid mode uid gid par bname =>
    entryLine gfid Fop.mknod.text ([mode, uid, gid].map numText) [entryText par bname] ++ [chr '\n']
  | .mkdir gfid mode uid gid par bname =>
    entryLine gfid Fop.mkdir.text ([mode, uid, gid].map numText) [entryText par bname] ++ [chr '\n']
  | .create gfid mode uid gid par bname =>
    entryLine gfid Fop.create.text ([mode, uid, gid].map numText) [entryText par bname] ++
      [chr '\n']
  | .symlink gfid par bname =>
    entryLine gfid Fop.symlink.text [] [entryText par bname] ++ [chr '\n']
  | .link gfid par bname => entryLine gfid Fop.link.text [] [entryText par bname] ++ [chr '\n']
  | .rename gfid oldPar oldName newPar newName =>
    entryLine gfid Fop.rename.text [] [entryText oldPar oldName, entryText newPar newName] ++
      [chr '\n']
  | .unlink gfid par bname path =>
    entryLine gfid Fop.unlink.text [] (deletedTexts par bname path) ++ [chr '\n']
  | .rmdir gfid par bname path =>
    entryLine gfid Fop.rmdir.text [] (deletedTexts par bname path) ++ [chr '\n']

/-- The path of a deleted entry, if there is one, has a byte that is not escaped. -/
def DelPath.Spares (path : DelPath) : Prop := path.bytes = [] ∨ path.bytes.any unreserved = true

instance (path : DelPath) : Decidable path.Spares := inferInstanceAs (Decidable (_ ∨ _))

/-- The escapes of all deleted paths fit into their buffers. -/
def Change.PathSpares : Change → Prop
  | .unlink _ _ _ path => path.Spares
  | .rmdir _ _ _ path => path.Spares
  | _ => True

/-- A deletion gives its line, if that fits and its path leaves room for the escapes. -/
lemma parse_deleted (gfid : Uuid) (fop : Fop) (hextra : nrExtraRecs fop.n = 0)
    (hgfids : nrGfids .v12 fop.n = 2) (par : Uuid) (bname : Name) (path : DelPath)
    (rest : Bytes) :
    parseAsciiRecord .v12 (chr 'E') (uuidUtoa gfid ++ fields (asciiBytes (dec fop.n) ::
        ([entryText par bname] ++ pathTexts path)) rest) =
      if path.Spares then
        inLine (entryLine gfid fop.text [] (deletedTexts par bname path) ++ [chr '\n'])
          (entryLine gfid fop.text [] (deletedTexts par bname path) ++ [chr '\n'], fields [] rest)
      else .overrun := by
  have hentry : ∀ s ∈ [entryText par bname], EntryOk s :=
    forall_mem_singleton.mpr (entryText_ok par bname)
  by_cases hnil : path.bytes = []
  · -- the decoder passes over the two zeros of a missing path
    rw [if_pos (.inl hnil), pathTexts, if_pos hnil, deletedTexts, if_pos hnil]
    apply parseAsciiRecord_eq
    have h := parseFields_entry gfid fop [] hextra _ hentry (n := 1) hgfids [[], []] rest
    refine h.trans (inLine_bind (le_refl _) ?_)
    intro hx
    exact (inLine_of_le hx _).symm
  · by_cases hany : path.bytes.any unreserved = true
    · rw [if_pos (.inr hany), pathTexts, if_neg hnil, deletedTexts, if_neg hnil]
      refine parse_entries gfid fop [] hextra [_, path.bytes] ?_ hgfids rest
      exact forall_mem_cons.mpr ⟨entryText_ok par bname,
        forall_mem_singleton.mpr ⟨hnil, path.noNul, hany⟩⟩
    have hno : ¬path.Spares := by
      rintro (h | h)
      · exact hnil h
      · exact hany h
    rw [if_neg hno, pathTexts, if_neg hnil]
    apply parseAsciiRecord_overrun
    have h := parseFields_entry gfid fop [] hextra _ hentry (n := 1) hgfids [path.bytes] rest
    refine h.trans ?_
    unfold inLine
    split
    · -- A path without an unreserved byte overruns the buffer of its escapes.
      show gfidRecs 1 _ (fields [path.bytes] rest) = .overrun
      rw [gfidRecs, fields, move_one, Parse.done_bind, strAt_fields path.noNul, Parse.done_bind,
        if_neg hnil, fill_eq, escape_of_not_any (Bool.eq_false_iff.mpr hany)]
      unfold inLine
      split <;> rfl
    · rfl

/-- Every change gives its line, if that fits and a deleted path leaves room for its escapes. -/
lemma parse_change (c : Change) (rest : Bytes) (hc : c.PathSpares) :
    parseAsciiRecord .v12 c.cld.type.letter (uuidUtoa c.cld.gfid ++ fields c.fieldTexts rest) =
      inLine c.asciiLine (c.asciiLine, fields [] rest) := by
  have hentry (par : Uuid) (bname : Name) : ∀ s ∈ [entryText par bname], EntryOk s :=
    forall_mem_singleton.mpr (entryText_ok par bname)
  cases c with
  | data gfid => exact parseAsciiRecord_eq (parseTarget_eq _ gfid [] rest)
  | metadata gfid fop => exact parseAsciiRecord_eq (parseFields_metadata .v12 gfid fop rest)
  | mknod gfid mode uid gid par bname =>
    exact parse_entries gfid .mknod [mode, uid, gid] rfl _ (hentry par bname) rfl rest
  | mkdir gfid mode uid gid par bname =>
    exact parse_entries gfid .mkdir [mode, uid, gid] rfl _ (hentry par bname) rfl rest
  | create gfid mode uid gid par bname =>
    exact parse_entries gfid .create [mode, uid, gid] rfl _ (hentry par bname) rfl rest
  | symlink gfid par bname =>
    exact parse_entries gfid .symlink [] rfl _ (hentry par bname) rfl rest
  | link gfid par bname => exact parse_entries gfid .link [] rfl _ (hentry par bname) rfl rest
  | rename gfid oldPar oldName newPar newName =>
    refine parse_entries gfid .rename [] rfl [_, _] ?_ rfl rest
    exact forall_mem_cons.mpr ⟨entryText_ok oldPar oldName, hentry newPar newName⟩
  | unlink gfid par bname path =>
    exact (parse_deleted gfid .unlink rfl rfl par bname path rest).trans (if_pos hc)
  | rmdir gfid par bname path =>
    exact (parse_deleted gfid .rmdir rfl rfl par bname path rest).trans (if_pos hc)

/-! ## Buffers of the encoder -/

/-- The digits of the numbers that a creation records. -/
def digits (fop : Fop) (mode uid gid : UInt32) : Nat :=
  (dec fop.n).length + (dec mode.toNat).length + (dec uid.toNat).length + (dec gid.toNat).length

/-- The numbers of a creation take at most the 18 bytes that its buffer leaves for them. -/
def Change.Roomy : Change → Prop
  | .mknod _ mode uid gid _ _ => digits .mknod mode uid gid ≤ 18
  | .mkdir _ mode uid gid _ _ => digits .mkdir mode uid gid ≤ 18
  | .create _ mode uid gid _ _ => digits .create mode uid gid ≤ 18
  | _ => True

@[simp] lemma length_asciiBytes (t : Text) : (asciiBytes t).length = t.length := length_map _

private lemma length_fopText (fop : Fop) : (dec fop.n).length ≤ 2 := by
  have hall : ∀ n, n < gfFopMaxvalue → (dec n).length ≤ 2 := by decide
  exact hall fop.n fop.lt

private lemma length_record (c : Change) : (c.cld.record true (uuidUtoa c.cld.gfid)).length =
      uuidCanonicalFormLen + 2 + (c.cld.xtra.map (fun co => 1 + (co.convert true).length)).sum := by
  have hxtra : ∀ l : List Opt, (changelogEncodeWriteXtra true l).length =
      (l.map (fun co => 1 + (co.convert true).length)).sum := by
    intro l
    induction l with
    | nil => rfl
    | cons co l ih =>
      rw [changelogEncodeWriteXtra, flatMap_cons, length_append, length_cons,
        map_cons, sum_cons, ← ih, changelogEncodeWriteXtra]
      omega
  rw [Cld.record, length_append, length_append, length_cons, hxtra,
    length_uuidUtoa, length_singleton]
  omega

private lemma length_entryFn (par : Uuid) (bname : Name) :
    (entryFn true par bname).length = uuidCanonicalFormLen + 1 + bname.bytes.length := by
  simp [entryFn]
  omega

private lemma length_delEntryFn (par : Uuid) (bname : Name) (path : DelPath) :
    (delEntryFn true par bname path).length = uuidCanonicalFormLen + 2 + bname.bytes.length +
        (if path.bytes = [] then 1 else path.bytes.length) := by
  by_cases hp : path.bytes = []
  · simp [delEntryFn, hp]
    omega
  · simp [delEntryFn, hp]
    omega

/-- The fields of a record fit into what its estimate leaves for them. -/
def FieldsFit (xtra : List Opt) : Prop :=
  (xtra.map (fun co => 1 + (co.convert true).length)).sum ≤ (xtra.map Opt.xlen).sum + 8

private lemma fieldsFit_made (fop : Fop) (mode uid gid : UInt32) (par : Uuid) (bname : Name) :
    FieldsFit (madeFields fop mode uid gid par bname) ↔ digits fop mode uid gid ≤ 18 := by
  simp only [FieldsFit, Opt.convert, Opt.xlen, madeFields, fopFn, numberFn, length_entryFn,
    map_cons, map_nil, sum_cons, if_true, length_asciiBytes, digits]
  omega

private lemma fieldsFit_entry (fop : Fop) (par : Uuid) (bname : Name) :
    FieldsFit [.fop fop, .entry par bname] := by
  have hfop := length_fopText fop
  simp only [FieldsFit, Opt.convert, Opt.xlen, fopFn, length_entryFn, map_cons, map_nil,
    sum_cons, if_true, length_asciiBytes]
  omega

private lemma fieldsFit_delEntry (fop : Fop) (par : Uuid) (bname : Name) (path : DelPath) :
    FieldsFit [.fop fop, .delEntry par bname path] := by
  have hfop := length_fopText fop
  simp only [FieldsFit, Opt.convert, Opt.xlen, fopFn, length_delEntryFn, map_cons,
    map_nil, sum_cons, if_true, length_asciiBytes]
  omega

/-- The estimates are right except for the numbers of creations. -/
lemma fieldsFit_iff (c : Change) : FieldsFit c.cld.xtra ↔ c.Roomy := by
  cases c with
  | data gfid => exact iff_of_true (Nat.zero_le _) trivial
  | metadata gfid fop =>
    have hfop := length_fopText fop
    refine iff_of_true ?_ trivial
    simp only [FieldsFit, Change.cld, Opt.convert, fopFn, map_cons, map_nil,
      sum_cons, if_true, length_asciiBytes]
    omega
  | mknod gfid mode uid gid par bname => exact fieldsFit_made .mknod mode uid gid par bname
  | mkdir gfid mode uid gid par bname => exact fieldsFit_made .mkdir mode uid gid par bname
  | create gfid mode uid gid par bname => exact fieldsFit_made .create mode uid gid par bname
  | symlink gfid par bname => exact iff_of_true (fieldsFit_entry .symlink par bname) trivial
  | link gfid par bname => exact iff_of_true (fieldsFit_entry .link par bname) trivial
  | rename gfid oldPar oldName newPar newName =>
    have hfop := length_fopText .rename
    refine iff_of_true ?_ trivial
    simp only [FieldsFit, Change.cld, Opt.convert, Opt.xlen, fopFn, length_entryFn, map_cons,
      map_nil, sum_cons, if_true, length_asciiBytes]
    omega
  | unlink gfid par bname path =>
    exact iff_of_true (fieldsFit_delEntry .unlink par bname path) trivial
  | rmdir gfid par bname path =>
    exact iff_of_true (fieldsFit_delEntry .rmdir par bname path) trivial

/-- A change is encoded exactly if its numbers fit. -/
lemma encodeAscii_eq (c : Change) (hc : c.Roomy) :
    changelogEncodeAscii c.cld = some (c.cld.record true (uuidUtoa c.cld.gfid)) := by
  have hfit := (fieldsFit_iff c).mpr hc
  unfold FieldsFit at hfit
  refine if_pos ?_
  rw [length_record, length_uuidUtoa, Cld.ptrLen]
  omega

private lemma roomy_of_encodeAscii {b : Bytes} (h : changelogEncodeAscii c.cld = some b) :
    c.Roomy := by
  apply (fieldsFit_iff c).mp
  unfold FieldsFit
  by_contra hno
  have hnone : changelogEncodeAscii c.cld = none := by
    refine if_neg ?_
    rw [length_record, length_uuidUtoa, Cld.ptrLen]
    omega
  rw [hnone] at h
  cases h

/-! ## The round trip -/

/-- Encoding succeeds, and decoding what was written, behind any header, succeeds with one line
for each change, in order, each of which fits into the line buffer. -/
def RoundTripsAscii (cs : List Change) : Prop :=
  ∃ file, encodeAll changelogEncodeAscii cs = some file ∧
    (∀ header, gfChangelogParseAscii .v12 (header ++ file) header.length =
      .done (0, cs.map Change.asciiLine)) ∧
    ∀ c ∈ cs, c.asciiLine.length ≤ lineBufsize

/-- No buffer is too small for the change. -/
def Change.Fits (c : Change) : Prop :=
  c.Roomy ∧ c.PathSpares ∧ c.asciiLine.length ≤ lineBufsize

/-- On any other change the decoder leaves a buffer. -/
lemma turn_of_not_fits (hr : c.Roomy) (hc : ¬c.Fits) (rest : Bytes) :
    parseAsciiRecord .v12 c.cld.type.letter (uuidUtoa c.cld.gfid ++ fields c.fieldTexts rest) =
      .overrun := by
  by_cases hp : c.PathSpares
  · rw [parse_change c rest hp]
    refine if_neg ?_
    intro hle
    exact hc ⟨hr, hp, hle⟩
  · cases c with
    | unlink gfid par bname path =>
      exact (parse_deleted gfid .unlink rfl rfl par bname path rest).trans (if_neg hp)
    | rmdir gfid par bname path =>
      exact (parse_deleted gfid .rmdir rfl rfl par bname path rest).trans (if_neg hp)
    | _ => exact absurd trivial hp

private lemma encodeAll_cons (h : encodeAll changelogEncodeAscii (c :: cs) = some file) :
    c.Roomy ∧ ∃ file', encodeAll changelogEncodeAscii cs = some file' ∧
      file = c.cld.record true (uuidUtoa c.cld.gfid) ++ file' := by
  obtain ⟨b, hb, h⟩ := Option.bind_eq_some_iff.mp h
  obtain ⟨file', hfile', hcat⟩ := Option.map_eq_some_iff.mp h
  have hroomy := roomy_of_encodeAscii hb
  rw [encodeAscii_eq c hroomy] at hb
  cases hb
  exact ⟨hroomy, file', hfile', hcat.symm⟩

/-- The decoder's loop takes one turn for each change. -/
lemma parseLoop_cons (c : Change) (file lines) (fuel : Nat)
    (hfuel : (c.cld.record true (uuidUtoa c.cld.gfid) ++ file).length ≤ fuel) :
    ∃ fuel', file.length ≤ fuel' ∧ (c.Fits → parseLoop (parseAsciiRecord .v12) fuel
          (c.cld.record true (uuidUtoa c.cld.gfid) ++ file) lines =
        parseLoop (parseAsciiRecord .v12) fuel' file (lines ++ [c.asciiLine])) ∧
      (c.Roomy → ¬c.Fits → parseLoop (parseAsciiRecord .v12) fuel
          (c.cld.record true (uuidUtoa c.cld.gfid) ++ file) lines = .overrun) := by
  have hlt := lt_length_fields c.fieldTexts file
  rw [record_append] at hfuel ⊢
  rw [length_cons, length_append] at hfuel
  cases fuel with
  | zero => omega
  | succ fuel =>
    refine ⟨fuel, by omega, ?_, ?_⟩
    · intro hc
      rw [parseLoop, parse_change c _ hc.2.1, inLine_of_le hc.2.2]
      rfl
    · intro hr hc
      rw [parseLoop, turn_of_not_fits hr hc]

section

variable (hfile : encodeAll changelogEncodeAscii cs = some file)
include hfile

/-- Changes that all fit are decoded one after the other. -/
lemma parseLoop_fits (hcs : ∀ c ∈ cs, c.Fits) (fuel : Nat) (hfuel : file.length ≤ fuel)
    (lines : List Bytes) :
    parseLoop (parseAsciiRecord .v12) fuel file lines =
      .done (0, lines ++ cs.map Change.asciiLine) := by
  induction cs generalizing file fuel lines with
  | nil =>
    cases hfile
    rw [map_nil, append_nil]
    cases fuel <;> rfl
  | cons c cs ih =>
    obtain ⟨-, file', hfile', hcat⟩ := encodeAll_cons hfile
    subst hcat
    obtain ⟨fuel', hfuel', hturn, -⟩ := parseLoop_cons c file' lines fuel hfuel
    rw [hturn (hcs c mem_cons_self),
      ih hfile' (fun d hd => hcs d (mem_cons_of_mem c hd)) fuel' hfuel', append_assoc]
    rfl

/-- The first change that does not fit stops the decoder. -/
lemma parseLoop_overrun (hcs : ¬∀ c ∈ cs, c.Fits) (fuel : Nat) (hfuel : file.length ≤ fuel)
    (lines : List Bytes) : parseLoop (parseAsciiRecord .v12) fuel file lines = .overrun := by
  induction cs generalizing file fuel lines with
  | nil => exact absurd (fun c hc => absurd hc not_mem_nil) hcs
  | cons c cs ih =>
    obtain ⟨hroomy, file', hfile', hcat⟩ := encodeAll_cons hfile
    subst hcat
    obtain ⟨fuel', hfuel', hturn, hstop⟩ := parseLoop_cons c file' lines fuel hfuel
    by_cases hc : c.Fits
    · rw [hturn hc]
      apply ih hfile' _ fuel' hfuel'
      intro hall
      exact hcs (forall_mem_cons.mpr ⟨hc, hall⟩)
    · exact hstop hroomy hc

end

private lemma encodeAll_of_roomy (hcs : ∀ c ∈ cs, c.Roomy) :
    ∃ file, encodeAll changelogEncodeAscii cs = some file := by
  induction cs with
  | nil => exact ⟨[], rfl⟩
  | cons c cs ih =>
    obtain ⟨file, hfile⟩ := ih (fun d hd => hcs d (mem_cons_of_mem c hd))
    refine ⟨c.cld.record true (uuidUtoa c.cld.gfid) ++ file, ?_⟩
    rw [encodeAll, encodeAscii_eq c (hcs c mem_cons_self), hfile]
    rfl

/-- The round trip holds exactly for the sequences of changes that fit into every buffer. -/
theorem ascii_round_trip_iff (cs : List Change) :
    RoundTripsAscii cs ↔ ∀ c ∈ cs, c.Fits := by
  have hparse : ∀ header file : Bytes, gfChangelogParseAscii .v12 (header ++ file) header.length =
      parseLoop (parseAsciiRecord .v12) (header ++ file).length file [] := by
    intro header file
    rw [gfChangelogParseAscii, drop_left]
  constructor
  · rintro ⟨file, hfile, hdecode, -⟩
    by_contra hno
    have hdone := hdecode []
    rw [hparse, parseLoop_overrun hfile hno _ (by simp)] at hdone
    cases hdone
  · intro hcs
    obtain ⟨file, hfile⟩ := encodeAll_of_roomy (fun c hc => (hcs c hc).1)
    refine ⟨file, hfile, ?_, fun c hc => (hcs c hc).2.2⟩
    intro header
    rw [hparse, parseLoop_fits hfile hcs _ (by simp)]
    rfl

/-- A gfid. -/
def someGfid : Uuid := ⟨List.replicate 16 1, rfl⟩

/-- The name `a`. -/
def nameA : Name := ⟨[chr 'a'], by decide, by decide⟩

/-- The deleted path `é`, two bytes that are both escaped. -/
def accentPath : DelPath := ⟨[0xc3, 0xa9], by decide⟩

/-- A creation by the user and group 1000000 does not fit into the encoder's buffer, and the
escapes of the deleted path `é` not into the decoder's. -/
theorem ascii_round_trip_broken :
    encodeAll changelogEncodeAscii [.create someGfid 33188 1000000 1000000 someGfid nameA] = none ∧
    (∃ file,
      encodeAll changelogEncodeAscii [.unlink someGfid someGfid nameA accentPath] = some file ∧
      gfChangelogParseAscii .v12 file 0 = .overrun) ∧
    ¬RoundTripsAscii [.create someGfid 33188 1000000 1000000 someGfid nameA] ∧
    ¬RoundTripsAscii [.unlink someGfid someGfid nameA accentPath] := by
  have hnone : encodeAll changelogEncodeAscii
      [.create someGfid 33188 1000000 1000000 someGfid nameA] = none := by
    decide +kernel
  have hover : ∃ file, encodeAll changelogEncodeAscii
      [.unlink someGfid someGfid nameA accentPath] = some file ∧
        gfChangelogParseAscii .v12 file 0 = .overrun := by
    refine ⟨_, rfl, ?_⟩
    decide +kernel
  refine ⟨hnone, hover, ?_, ?_⟩
  · rintro ⟨file, hfile, -⟩
    cases hfile
  rintro ⟨file, hfile, hdecode, -⟩
  obtain ⟨file', hfile', hparse⟩ := hover
  rw [hfile] at hfile'
  cases hfile'
  have hdone := hdecode []
  rw [nil_append, length_nil, hparse] at hdone
  cases hdone

end TagItGluster.Changelog
