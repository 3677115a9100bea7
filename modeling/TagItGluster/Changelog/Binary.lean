import TagItGluster.Changelog.Ascii
import Mathlib.Data.List.Forall2

/-!
# Round trip of the binary format

The encoder ends a record with a zero and puts a zero before each field; the decoder knows no
fields of metadata records and looks for a newline behind the names of entry records. The two
agree on data records only: the first other record makes the decoder fail.
-/

namespace TagItGluster.Changelog

open List Option

/-- The names in a field. -/
def Opt.names : Opt → List Bytes
  | .entry _ bname => [bname.bytes]
  | .delEntry _ bname _ => [bname.bytes]
  | _ => []

/-- A line shows the letter of a change, its gfid and its names. -/
def Change.Shows (c : Change) (line : Bytes) : Prop :=
  ∃ text, line = [c.cld.type.letter, chr ' '] ++ uuidUtoa c.cld.gfid ++ text ++ [chr '\n'] ∧
    ∀ name ∈ c.cld.xtra.flatMap Opt.names, name <:+: text

/-- Encoding succeeds, and decoding what was written, behind any header, succeeds with one line
for each change, in order. -/
def RoundTripsBinary (cs : List Change) : Prop :=
  ∃ file lines, encodeAll changelogEncodeBinary cs = some file ∧
    (∀ header, gfChangelogParseBinary (header ++ file) header.length = .done (0, lines)) ∧
    List.Forall₂ Change.Shows cs lines

/-- A data change. -/
def Change.isData : Change → Bool
  | .data _ => true
  | _ => false

variable {c : Change} {cs : List Change}

private lemma eq_data_of_isData (h : c.isData) : ∃ gfid, c = .data gfid := by
  cases c with
  | data gfid => exact ⟨gfid, rfl⟩
  | _ => cases h

private lemma parseGfidMove_append (u : Uuid) (rest : Bytes) :
    parseGfidMove (u.bytes ++ rest) = .done (uuidUtoa u, rest) := by
  have htake : (u.bytes ++ rest).take 16 = u.bytes := by
    rw [← u.size]
    exact take_left
  have hdrop : (u.bytes ++ rest).drop 16 = rest := by
    rw [← u.size]
    exact drop_left
  have hlen : ((u.bytes ++ rest).take 16).length = 16 := by
    rw [htake, u.size]
  have huuid : (⟨(u.bytes ++ rest).take 16, hlen⟩ : Uuid) = u := by
    rw [Uuid.mk.injEq]
    exact htake
  rw [parseGfidMove, dif_pos hlen, huuid, hdrop]

/-- The line of a record without names. -/
def plainLine (letter : UInt8) (gfid : Uuid) : Bytes :=
  [letter] ++ [chr ' '] ++ uuidUtoa gfid ++ [] ++ [chr '\n']

/-- A data or metadata record is decoded up to the end of its gfid. -/
lemma parseBinaryRecord_plain {letter : UInt8} (hl : letter = chr 'D' ∨ letter = chr 'M')
    (gfid : Uuid) (rest : Bytes) :
    parseBinaryRecord letter (gfid.bytes ++ rest) = .done (plainLine letter gfid, rest) := by
  have hfit : (plainLine letter gfid).length ≤ lineBufsize := by
    simp [plainLine, uuidCanonicalFormLen, lineBufsize, pathMax]
  calc parseBinaryRecord letter (gfid.bytes ++ rest)
    _ = fill [] [letter] >>= fun ascii => fill ascii [chr ' '] >>= fun ascii =>
        fill ascii (uuidUtoa gfid) >>= fun ascii => fill ascii [] >>= fun ascii =>
        fill ascii [chr '\n'] >>= fun ascii => pure (ascii, rest) := by
      rw [parseBinaryRecord, if_pos hl, parseGfidMove_append]
      rfl
    _ = inLine (plainLine letter gfid) (plainLine letter gfid, rest) := by
      apply inLine_bind (by simp [plainLine])
      intro _
      apply inLine_bind (by simp [plainLine])
      intro _
      apply inLine_bind (by simp [plainLine])
      intro _
      apply inLine_bind (by simp [plainLine])
      intro _
      apply inLine_bind (le_refl _)
      intro hx
      exact (inLine_of_le hx _).symm
    _ = .done (plainLine letter gfid, rest) := inLine_of_le hfit _

/-- No fop number is the letter of a record. -/
lemma parseBinaryRecord_fop (fop : Fop) (mover : Bytes) :
    parseBinaryRecord (UInt8.ofNat fop.n) mover = .failed := by
  have hall : ∀ n, n < gfFopMaxvalue → UInt8.ofNat n ≠ chr 'D' ∧ UInt8.ofNat n ≠ chr 'M' ∧
      UInt8.ofNat n ≠ chr 'E' := by
    decide
  obtain ⟨hd, hm, he⟩ := hall fop.n fop.lt
  rw [parseBinaryRecord, if_neg (by rintro (h | h); exact hd h; exact hm h), if_neg he]
  rfl

/-- Every record other than a data record has a fop behind its gfid. -/
lemma record_fop (hc : c.isData = false) :
    ∃ fop xs, (c.cld.type = .metadata ∨ c.cld.type = .entry) ∧ c.cld.xtra = .fop fop :: xs := by
  cases c with
  | data gfid => cases hc
  | metadata gfid fop => exact ⟨fop, _, .inl rfl, rfl⟩
  | _ => exact ⟨_, _, .inr rfl, rfl⟩

private lemma encodeAll_binary_cons {file : Bytes}
    (h : encodeAll changelogEncodeBinary (c :: cs) = some file) :
    ∃ file', encodeAll changelogEncodeBinary cs = some file' ∧
      file = c.cld.record false c.cld.gfid.bytes ++ file' := by
  obtain ⟨b, hb, h⟩ := bind_eq_some_iff.mp h
  obtain ⟨file', hfile', hcat⟩ := map_eq_some_iff.mp h
  unfold changelogEncodeBinary at hb
  split at hb
  · cases hb
    exact ⟨file', hfile', hcat.symm⟩
  · cases hb

private lemma encodeAll_binary_data (hcs : ∀ c ∈ cs, c.isData) :
    ∃ file, encodeAll changelogEncodeBinary cs = some file := by
  induction cs with
  | nil => exact ⟨[], rfl⟩
  | cons c cs ih =>
    obtain ⟨file, hfile⟩ := ih (fun d hd => hcs d (mem_cons_of_mem c hd))
    refine ⟨c.cld.record false c.cld.gfid.bytes ++ file, ?_⟩
    have hroom : changelogEncodeBinary c.cld = some (c.cld.record false c.cld.gfid.bytes) := by
      obtain ⟨gfid, rfl⟩ := eq_data_of_isData (hcs c mem_cons_self)
      refine if_pos ?_
      simp [Cld.record, Change.cld, changelogEncodeWriteXtra, Cld.ptrLen, gfid.size]
    rw [encodeAll, hroom, hfile]
    rfl

/-- The decoder passes over data records. -/
lemma parseLoop_data (gfid : Uuid) (file : Bytes) (fuel : Nat) (lines : List Bytes)
    (hfuel : ((Change.data gfid).cld.record false gfid.bytes ++ file).length ≤ fuel) :
    ∃ fuel', file.length ≤ fuel' ∧
      parseLoop parseBinaryRecord fuel ((Change.data gfid).cld.record false gfid.bytes ++ file)
          lines =
        parseLoop parseBinaryRecord fuel' file (lines ++ [plainLine (chr 'D') gfid]) := by
  have hrec : (Change.data gfid).cld.record false gfid.bytes ++ file =
      chr 'D' :: (gfid.bytes ++ 0 :: file) := by
    simp [Cld.record, Change.cld, changelogEncodeWriteXtra, LogType.letter]
  rw [hrec] at hfuel ⊢
  rw [length_cons, length_append, length_cons] at hfuel
  cases fuel with
  | zero => omega
  | succ fuel =>
    refine ⟨fuel, by omega, ?_⟩
    rw [parseLoop, parseBinaryRecord_plain (.inl rfl)]

/-- The decoder fails at any other record. -/
lemma parseLoop_other (hc : c.isData = false) (file : Bytes) (fuel : Nat) (lines : List Bytes)
    (hfuel : (c.cld.record false c.cld.gfid.bytes ++ file).length ≤ fuel) :
    ∃ lines', parseLoop parseBinaryRecord fuel (c.cld.record false c.cld.gfid.bytes ++ file) lines =
      .done (-1, lines') := by
  obtain ⟨fop, xs, htype, hxtra⟩ := record_fop hc
  -- behind the gfid stand a zero and the lowest byte of the fop
  obtain ⟨rest, hrec⟩ : ∃ rest, c.cld.record false c.cld.gfid.bytes ++ file =
      c.cld.type.letter :: (c.cld.gfid.bytes ++ 0 :: UInt8.ofNat fop.n :: rest) := by
    refine ⟨?_, ?_⟩
    · exact (le32 fop.n).tail ++ changelogEncodeWriteXtra false xs ++ 0 :: file
    · rw [Cld.record, hxtra]
      simp [changelogEncodeWriteXtra, Opt.convert, fopFn, le32]
  rw [hrec] at hfuel ⊢
  rw [length_cons, length_append, length_cons] at hfuel
  obtain ⟨fuel, rfl⟩ : ∃ n, fuel = n + 2 := ⟨fuel - 2, by omega⟩
  rcases htype with h | h
  · have hletter : c.cld.type.letter = chr 'M' := by rw [h]; rfl
    rw [hletter, parseLoop, parseBinaryRecord_plain (.inr rfl)]
    refine ⟨lines ++ [plainLine (chr 'M') c.cld.gfid], ?_⟩
    dsimp only
    rw [parseLoop, parseBinaryRecord_fop]
  · have hletter : c.cld.type.letter = chr 'E' := by rw [h]; rfl
    -- The zero before the fop of an entry record ends the search for a newline.
    rw [hletter, parseLoop, parseBinaryRecord, parseGfidMove_append]
    exact ⟨lines, rfl⟩

/-- A file of data records is decoded, any other is refused. -/
lemma parseLoop_binary {file : Bytes} (hfile : encodeAll changelogEncodeBinary cs = some file)
    (fuel : Nat) (hfuel : file.length ≤ fuel) (lines : List Bytes) :
    ((∀ c ∈ cs, c.isData) → parseLoop parseBinaryRecord fuel file lines =
        .done (0, lines ++ cs.map (fun c => plainLine (chr 'D') c.cld.gfid))) ∧
    ((¬∀ c ∈ cs, c.isData) →
      ∃ lines', parseLoop parseBinaryRecord fuel file lines = .done (-1, lines')) := by
  induction cs generalizing file fuel lines with
  | nil =>
    cases hfile
    refine ⟨?_, fun h => absurd (fun c hc => absurd hc not_mem_nil) h⟩
    intro _
    rw [map_nil, append_nil]
    cases fuel <;> rfl
  | cons c cs ih =>
    obtain ⟨file', hfile', hcat⟩ := encodeAll_binary_cons hfile
    subst hcat
    cases hd : c.isData with
    | false =>
      refine ⟨?_, fun _ => parseLoop_other hd file' fuel lines hfuel⟩
      intro hall
      rw [hall c mem_cons_self] at hd
      cases hd
    | true =>
      obtain ⟨gfid, rfl⟩ := eq_data_of_isData hd
      obtain ⟨fuel', hfuel', hturn⟩ := parseLoop_data gfid file' fuel lines hfuel
      have hrun := ih hfile' fuel' hfuel' (lines ++ [plainLine (chr 'D') gfid])
      have hturn' : parseLoop parseBinaryRecord fuel ((Change.data gfid).cld.record false
          (Change.data gfid).cld.gfid.bytes ++ file') lines =
          parseLoop parseBinaryRecord fuel' file' (lines ++ [plainLine (chr 'D') gfid]) := hturn
      rw [hturn', forall_mem_cons]
      constructor
      · rintro ⟨-, hall⟩
        rw [hrun.1 hall, append_assoc]
        rfl
      · intro hnot
        exact hrun.2 (fun hall => hnot ⟨hd, hall⟩)

/-- The round trip holds exactly for sequences of data changes. -/
theorem binary_round_trip_iff (cs : List Change) :
    RoundTripsBinary cs ↔ ∀ c ∈ cs, c.isData = true := by
  have hparse : ∀ header file : Bytes, gfChangelogParseBinary (header ++ file) header.length =
      parseLoop parseBinaryRecord (header ++ file).length file [] := by
    intro header file
    rw [gfChangelogParseBinary, drop_left]
  constructor
  · rintro ⟨file, lines, hfile, hdecode, -⟩
    by_contra hno
    obtain ⟨lines', hfail⟩ := (parseLoop_binary hfile ([] ++ file).length (by simp) []).2 hno
    have hdone := hdecode []
    rw [hparse, hfail, Parse.done.injEq, Prod.mk.injEq] at hdone
    exact absurd hdone.1 (by decide)
  · intro hcs
    obtain ⟨file, hfile⟩ := encodeAll_binary_data hcs
    refine ⟨file, cs.map (fun c => plainLine (chr 'D') c.cld.gfid), hfile, ?_, ?_⟩
    · intro header
      rw [hparse, (parseLoop_binary hfile _ (by simp) []).1 hcs]
      rfl
    · rw [List.forall₂_map_right_iff, List.forall₂_same]
      intro c hc
      obtain ⟨gfid, rfl⟩ := eq_data_of_isData (hcs c hc)
      exact ⟨[], rfl, by simp [Change.cld]⟩

/-- A single metadata record is not read back: its line is written, and then the decoder fails
on the fop. -/
theorem binary_round_trip_broken :
    (∃ file, encodeAll changelogEncodeBinary [.metadata someGfid ⟨38, by decide⟩] = some file ∧
      gfChangelogParseBinary file 0 = .done (-1, [plainLine (chr 'M') someGfid])) ∧
    (∃ file, encodeAll changelogEncodeBinary [.link someGfid someGfid nameA] = some file ∧
      gfChangelogParseBinary file 0 = .done (-1, [])) ∧
    ¬RoundTripsBinary [.metadata someGfid ⟨38, by decide⟩] := by
  have hmeta : ∃ file, encodeAll changelogEncodeBinary [.metadata someGfid ⟨38, by decide⟩] =
      some file ∧ gfChangelogParseBinary file 0 = .done (-1, [plainLine (chr 'M') someGfid]) :=
    ⟨_, rfl, by decide +kernel⟩
  refine ⟨hmeta, ⟨_, rfl, by decide +kernel⟩, ?_⟩
  rintro ⟨file, lines, hfile, hdecode, -⟩
  obtain ⟨file', hfile', hparse⟩ := hmeta
  rw [hfile] at hfile'
  cases hfile'
  have hdone := hdecode []
  rw [nil_append, length_nil, hparse, Parse.done.injEq, Prod.mk.injEq] at hdone
  exact absurd hdone.1 (by decide)

end TagItGluster.Changelog
