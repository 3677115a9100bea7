import TagItGluster.Libglusterfs.Wire

/-!
# Reading dictionaries back

The pairs that were written are read back into a new dictionary in the same order. Where the lengths
in a buffer are those of its keys and values, a dictionary that is read has the pairs that stand in
the buffer in front of those it had before.
-/

namespace TagItGluster.Libglusterfs

open Base DictT Function Option

section

variable {buf : List UInt8} {size pos : Int} {fill : DictT DataT} {p : Key × List UInt8}

/-- The parts of a pair in the buffer, each at its position. -/
lemma blockAt_encodePair : blockAt buf pos (encodePair p).length = some (encodePair p) ↔
      blockAt buf pos (hton32 p.1.length).length = some (hton32 p.1.length) ∧
      blockAt buf (pos + 4) (hton32 p.2.length).length = some (hton32 p.2.length) ∧
      blockAt buf (pos + 4 + 4) (p.1 ++ [0]).length = some (p.1 ++ [0]) ∧
      blockAt buf (pos + 4 + 4 + (p.1.length + 1)) p.2.length = some p.2 := by
  have hkey : ((p.1 ++ [0]).length : Int) = p.1.length + 1 := by simp
  rw [encodePair, blockAt_append, blockAt_append, blockAt_append]
  simp [hton32_length]

/-- A round reads the pair at its position. -/
lemma unserializePair_eq (hkey : 0 ∉ p.1)
    (hblock : blockAt buf pos (encodePair p).length = some (encodePair p))
    (hin : pos + (encodePair p).length ≤ size) (hsize : size < 2 ^ 31) :
    unserializePair buf size pos fill = (fill.dictSet p.1 (.ofBytes p.2) false).map fun fill =>
      some (pos + (encodePair p).length, fill) := by
  have hpos := (blockAt_bounds hblock).1
  obtain ⟨hkeylen, hvallen, hstring, hvalue⟩ := blockAt_encodePair.mp hblock
  have hlen := encodePair_length p
  have hdup : memdup buf (pos + 4 + 4 + (p.1.length + 1)) p.2.length = some (some p.2) := by
    rw [memdup, hvalue]
    rfl
  unfold unserializePair
  rw [if_neg (by omega), wordAt_of_blockAt (by omega) (by omega) hkeylen, bind_some,
    if_neg (by omega), wordAt_of_blockAt (by omega) (by omega) hvallen, bind_some]
  rw [if_neg (by omega), if_neg (by omega), hdup, stringAt_eq_some.mpr ⟨hkey, hstring⟩]
  have hnext : pos + 4 + 4 + (p.1.length + 1) + p.2.length = pos + (encodePair p).length := by
    omega
  rw [hnext]
  rfl

variable {ps : List (Key × List UInt8)}

/-- All pairs are read, each in front of those before it. -/
lemma unserializeFrom_eq {l : List (Node DataT)} (hfill : fill.Chained l)
    (hkeys : ∀ p ∈ ps, 0 ∉ p.1)
    (hblock : blockAt buf pos (ps.flatMap encodePair).length = some (ps.flatMap encodePair))
    (hin : pos + (ps.flatMap encodePair).length ≤ size) (hsize : size < 2 ^ 31) :
    ∃ fill' l', unserializeFrom buf size ps.length pos fill = some (0, fill') ∧
      fill'.Chained (l' ++ l) ∧ l'.map Node.pair = (ps.map toPair).reverse ∧
      fill'.count = fill.count + ps.length := by
  induction ps generalizing fill pos l with
  | nil => exact ⟨fill, [], rfl, hfill, rfl, by simp⟩
  | cons p ps ih =>
    obtain ⟨hkey, hkeys⟩ := List.forall_mem_cons.mp hkeys
    rw [List.flatMap_cons] at hblock hin
    obtain ⟨hfirst, hrest⟩ := blockAt_append.mp hblock
    rw [List.length_append] at hin
    obtain ⟨fill₁, ptr, hadd, hcount₁, hfill₁⟩ := hfill.add p.1 (.ofBytes p.2)
    obtain ⟨fill₂, l', hread, hfill₂, hl', hcount₂⟩ := ih hfill₁ hkeys hrest (by omega)
    refine ⟨fill₂, l' ++ [⟨ptr, p.1, .ofBytes p.2⟩], ?_, ?_, ?_, ?_⟩
    · rw [List.length_cons, unserializeFrom, unserializePair_eq hkey hfirst (by omega) hsize, hadd]
      exact hread
    · rw [List.append_assoc]
      exact hfill₂
    · rw [List.map_append, hl', List.map_cons (f := toPair), List.reverse_cons]
      rfl
    · rw [List.length_cons]
      omega

private lemma length_le_flatMap (ps : List (Key × List UInt8)) :
    ps.length ≤ (ps.flatMap encodePair).length := by
  induction ps with
  | nil => exact le_refl 0
  | cons p ps ih =>
    rw [List.length_cons, List.flatMap_cons, List.length_append, encodePair_length]
    omega

/-- What has been written is read. -/
lemma dictUnserialize_encode (hkeys : ∀ p ∈ ps, 0 ∉ p.1) (hsize : (encode ps).length < 2 ^ 31) :
    ∃ fill' l', dictUnserialize (encode ps) (encode ps).length dictNew = some (0, fill') ∧
      fill'.Chained l' ∧ l'.map Node.pair = (ps.map toPair).reverse ∧
      fill'.count = ps.length := by
  obtain ⟨hcount, hpairs⟩ := blockAt_append.mp (blockAt_self (encode ps))
  have hlen : (encode ps).length = 4 + (ps.flatMap encodePair).length := by
    rw [encode, List.length_append, hton32_length]
  have hmany := length_le_flatMap ps
  have hnew : ({ dictNew with count := 0 } : DictT DataT).Chained [] :=
    (getNewDictFull_holds (by decide) (by decide)).chained rfl
  have hin : (0 : Int) + 4 + (ps.flatMap encodePair).length ≤ (encode ps).length := by
    omega
  obtain ⟨fill', l', hread, hfill', hl', hcount'⟩ :=
    unserializeFrom_eq hnew hkeys hpairs hin (by omega)
  refine ⟨fill', l', ?_, ?_, hl', ?_⟩
  · rw [dictUnserialize, wordAt_of_blockAt (by omega) (by omega) hcount, bind_some,
      if_neg (by omega)]
    exact hread
  · rw [List.append_nil] at hfill'
    exact hfill'
  · rw [hcount']
    exact zero_add _

end

section

/-- A text of bytes without a zero. -/
abbrev CString := { s : Key // 0 ∉ s }

/-- A change of a dictionary: a value that carries data is set, or a key is deleted. -/
inductive Edit where
  | set (key : CString) (value : List UInt8)
  | del (key : CString)

/-- The call of `dict_set` or `dict_del` that makes a change. -/
def Edit.call : Edit → DictOp DataT
  | .set key value => .set key.1 (.ofBytes value) true
  | .del key => .del key.1

/-- The number of bytes that a dictionary takes on the wire. -/
def totalSize (d : DictT DataT) : Nat :=
  4 + (d.pairs.map fun p => 8 + (p.1.length + 1) + p.2.len.toNat).sum

/-- Keys are texts, and values carry data. -/
def Sendable (m : Key → Option DataT) : Prop :=
  ∀ key value, m key = some value → 0 ∉ key ∧ ∃ bytes, value = .ofBytes bytes

private lemma sendable_step (edit : Edit) (m : Key → Option DataT) (h : Sendable m) :
    Sendable (mapStep edit.call m) := by
  intro key value hvalue
  cases edit with
  | set key' value' =>
    rw [Edit.call, mapStep, update_apply] at hvalue
    split at hvalue
    · next hkey =>
      subst hkey
      cases hvalue
      exact ⟨key'.2, value', rfl⟩
    · exact h key value hvalue
  | del key' =>
    rw [Edit.call, mapStep, update_apply] at hvalue
    split at hvalue
    · cases hvalue
    · exact h key value hvalue

private lemma sendable_run (edits : List Edit) {m : Key → Option DataT} (h : Sendable m) :
    Sendable (runAll mapStep (edits.map Edit.call) m) := by
  induction edits generalizing m with
  | nil => exact h
  | cons edit edits ih => exact ih (sendable_step edit m h)

private lemma fits_edits (edits : List Edit) (m : Key → Option DataT) :
    Throughout mapStep (Fits 1) (edits.map Edit.call) m := by
  induction edits generalizing m with
  | nil => trivial
  | cons edit edits ih =>
    refine ⟨?_, ih _⟩
    cases edit with
    | set key value => exact ⟨.inl rfl, .inl rfl⟩
    | del key => trivial

variable {d : DictT DataT} {l l' : List (Node DataT)} {ps : List (Key × List UInt8)}

private lemma toMap_eq_some (hkeys : (l.map Node.key).Nodup) {key : Key} {value : DataT} :
    toMap l key = some value ↔ (key, value) ∈ l.map Node.pair := by
  constructor
  · intro h
    obtain ⟨n, hfind, rfl⟩ := map_eq_some_iff.mp h
    have hn : n.key = key := by simpa using List.find?_some hfind
    exact List.mem_map.mpr ⟨n, List.mem_of_find?_eq_some hfind, by rw [Node.pair, hn]⟩
  · intro h
    obtain ⟨n, hn, heq⟩ := List.mem_map.mp h
    obtain ⟨rfl, rfl⟩ := Prod.mk.inj heq
    rw [toMap, find?_key hkeys hn]
    rfl

/-- The order of pairs with different keys does not matter. -/
lemma toMap_reverse (hkeys : (l.map Node.key).Nodup)
    (h : l'.map Node.pair = (l.map Node.pair).reverse) : toMap l' = toMap l := by
  have hkeys' : (l'.map Node.key).Nodup := by
    have heq : l'.map Node.key = (l.map Node.key).reverse := by
      simpa [Node.pair, comp_def] using congrArg (List.map Prod.fst) h
    rw [heq]
    exact List.nodup_reverse.mpr hkeys
  funext key
  refine ext fun value => ?_
  rw [toMap_eq_some hkeys', toMap_eq_some hkeys, h, List.mem_reverse]

/-- The pairs of a dictionary that can be sent, with the bytes of the values. -/
lemma Sendable.pairs (hkeys : (l.map Node.key).Nodup) (h : Sendable (toMap l)) :
    ∃ ps : List (Key × List UInt8), l.map Node.pair = ps.map toPair ∧ ∀ p ∈ ps, 0 ∉ p.1 := by
  have hnode : ∀ n ∈ l, 0 ∉ n.key ∧ ∃ bytes, n.value = .ofBytes bytes := fun n hn =>
    h n.key n.value ((toMap_eq_some hkeys).mpr (List.mem_map_of_mem hn))
  refine ⟨l.map fun n => (n.key, n.value.data.getD []), ?_, ?_⟩
  · rw [List.map_map]
    refine List.map_congr_left fun n hn => ?_
    obtain ⟨-, bytes, hbytes⟩ := hnode n hn
    rw [comp_apply, Node.pair, hbytes]
    rfl
  · intro p hp
    obtain ⟨n, hn, rfl⟩ := List.mem_map.mp hp
    exact (hnode n hn).1

private lemma totalSize_eq (h : d.pairs = ps.map toPair) : totalSize d = (encode ps).length := by
  rw [totalSize, h, encode, List.length_append, List.length_flatMap, List.map_map]
  congr 2
  refine List.map_congr_left fun p _ => ?_
  rw [encodePair_length]
  rfl

/-- A dictionary made by `dict_set` and `dict_del` has the length that is computed for it on the
wire, and is read back with the same keys and values. -/
theorem dict_wire_round_trip (edits : List Edit) :
    ∃ d, runAll dictStep (edits.map Edit.call) (some dictNew) = some d ∧
      (totalSize d < 2 ^ 31 → ∃ bytes d', d.dictSerialize = some (0, bytes) ∧
        d.dictSerializedLength = some bytes.length ∧
        dictUnserialize bytes bytes.length dictNew = some (0, d') ∧
        d'.count = d.count ∧ d'.pairs = d.pairs.reverse ∧
        ∀ key, d'.dictGet key = d.dictGet key) := by
  have hnew : Refines 1 (some dictNew) fun _ => none :=
    ⟨_, [], rfl, rfl, getNewDictFull_holds (by decide) (by decide), rfl⟩
  obtain ⟨d, l, hrun, hsize, hd, hmap⟩ := run_refines hnew (fits_edits edits _)
  refine ⟨d, hrun, fun htotal => ?_⟩
  have hsend : Sendable (toMap l) := by
    rw [hmap]
    exact sendable_run edits fun _ _ h => by cases h
  obtain ⟨ps, hps, hkeys⟩ := Sendable.pairs hd.keys hsend
  have hchain := hd.chained hsize
  have hpairs : d.pairs = ps.map toPair := hchain.pairs_eq.trans hps
  have hcount : d.count = ps.length := by
    rw [hd.count, ← List.length_map, hps, List.length_map]
  have hnat : d.count.toNat = l.length := by rw [hd.count, Int.toNat_natCast]
  rw [totalSize_eq hpairs] at htotal
  have hlen : (encode ps).length = 4 + (ps.flatMap encodePair).length := by
    rw [encode, List.length_append, hton32_length]
  obtain ⟨d', l', hread, hd', hl', hcount'⟩ := dictUnserialize_encode hkeys htotal
  refine ⟨encode ps, d', ?_, ?_, hread, ?_, ?_, fun key => ?_⟩
  · rw [dictSerialize, hnat, serializeFrom_eq hd.cells hd.list hps, hcount]
    rfl
  · rw [dictSerializedLength, if_neg (by omega), hnat,
      lengthFrom_eq hd.cells hd.list hps (by omega) (by omega), hlen]
    rfl
  · rw [hcount', hcount]
  · rw [hd'.pairs_eq, hl', hpairs]
  · rw [hd'.dictGet_eq, hchain.dictGet_eq, toMap_reverse hd.keys (hl'.trans (by rw [hps]))]

/-- A key that is replaced, one with an empty value and one that goes. -/
theorem dict_wire_round_trip_three :
    ∃ d, runAll dictStep ([Edit.set ⟨[0x61], by decide⟩ [1], .set ⟨[0x62], by decide⟩ [],
        .set ⟨[0x63], by decide⟩ [2], .set ⟨[0x61], by decide⟩ [0, 3],
        .del ⟨[0x63], by decide⟩].map Edit.call) (some dictNew) = some d ∧
      ∃ bytes d', d.dictSerialize = some (0, bytes) ∧
        dictUnserialize bytes bytes.length dictNew = some (0, d') ∧
        d'.dictGet [0x61] = some (some (.ofBytes [0, 3])) := by
  obtain ⟨d, hrun, hwire⟩ := dict_wire_round_trip
    [.set ⟨[0x61], by decide⟩ [1], .set ⟨[0x62], by decide⟩ [], .set ⟨[0x63], by decide⟩ [2],
      .set ⟨[0x61], by decide⟩ [0, 3], .del ⟨[0x63], by decide⟩]
  have hsize : totalSize d = 26 := by
    have := congrArg (Option.map totalSize) hrun
    exact (some.inj this).symm
  obtain ⟨bytes, d', hwrite, -, hread, -, -, hget⟩ := hwire (by rw [hsize]; decide)
  refine ⟨d, hrun, bytes, d', hwrite, hread, (hget _).trans ?_⟩
  have := congrArg (Option.map fun d : DictT DataT => d.dictGet [0x61]) hrun
  exact (some.inj this).symm

end

variable {buf : List UInt8} {size pos : Int} {fill fill' : DictT DataT}

/-- At each pair the lengths in the buffer are not negative, and that of the key is the length of
the text there. -/
def Proper (buf : List UInt8) : Nat → Int → Prop
  | 0, _ => True
  | count + 1, pos =>
    match wordAt buf pos, wordAt buf (pos + 4), stringAt buf (pos + 4 + 4) with
    | some keylen, some vallen, some key =>
      0 ≤ keylen ∧ 0 ≤ vallen ∧ keylen = key.length ∧
        Proper buf count (pos + 4 + 4 + (keylen + 1) + vallen)
    | _, _, _ => True

variable {count : Nat} {next : Int × DictT DataT}

/-- The buffer starts with the pairs in the wire format, within the size. -/
structure WellFormed (buf : List UInt8) (size : Int) (ps : List (Key × List UInt8)) : Prop where
  start : encode ps <+: buf
  within : (encode ps).length ≤ size
  count : ps.length < 2 ^ 31
  lengths : ∀ p ∈ ps, p.1.length < 2 ^ 31 ∧ p.2.length < 2 ^ 31

private lemma wordAt_lt {z : Int} (h : wordAt buf pos = some z) : z < 2 ^ 31 := by
  obtain ⟨bytes, -, rfl⟩ := map_eq_some_iff.mp h
  exact (toInt32_bounds _).2

/-- What a round that does not give up has read. -/
lemma unserializePair_some (h : unserializePair buf size pos fill = some (some next)) :
    ∃ keylen vallen data key, wordAt buf pos = some keylen ∧ wordAt buf (pos + 4) = some vallen ∧
      pos + 4 + 4 + (keylen + 1) + vallen ≤ size ∧
      memdup buf (pos + 4 + 4 + (keylen + 1)) vallen = some data ∧
      stringAt buf (pos + 4 + 4) = some key ∧
      next.1 = pos + 4 + 4 + (keylen + 1) + vallen ∧
      fill.dictSet key ⟨vallen, data⟩ false = some next.2 := by
  unfold unserializePair at h
  split at h
  · cases h
  obtain ⟨keylen, hkeylen, h⟩ := bind_eq_some_iff.mp h
  split at h
  · cases h
  obtain ⟨vallen, hvallen, h⟩ := bind_eq_some_iff.mp h
  dsimp only at h
  split at h
  · cases h
  split at h
  · cases h
  next hend =>
  obtain ⟨data, hdata, h⟩ := bind_eq_some_iff.mp h
  obtain ⟨key, hkey, h⟩ := bind_eq_some_iff.mp h
  obtain ⟨fill', hset, h⟩ := map_eq_some_iff.mp h
  obtain rfl := some.inj h
  exact ⟨keylen, vallen, data, key, hkeylen, hvallen, by omega, hdata, hkey, rfl, hset⟩

/-- A round over proper lengths has read a pair in the wire format. -/
lemma Proper.pair (hproper : Proper buf (count + 1) pos)
    (h : unserializePair buf size pos fill = some (some next)) :
    ∃ p : Key × List UInt8, blockAt buf pos (encodePair p).length = some (encodePair p) ∧
      next.1 = pos + (encodePair p).length ∧ next.1 ≤ size ∧ p.1.length < 2 ^ 31 ∧
      p.2.length < 2 ^ 31 ∧ fill.dictSet p.1 (.ofBytes p.2) false = some next.2 ∧
      Proper buf count next.1 := by
  obtain ⟨keylen, vallen, data, key, hkeylen, hvallen, hin, hdata, hkey, hnext, hset⟩ :=
    unserializePair_some h
  rw [Proper, hkeylen, hvallen, hkey] at hproper
  obtain ⟨-, hval, rfl, hrest⟩ := hproper
  rw [memdup, if_neg (by unfold memOverhead; omega)] at hdata
  obtain ⟨value, hvalue, rfl⟩ := map_eq_some_iff.mp hdata
  obtain rfl := length_of_blockAt hvalue
  have hlen := encodePair_length (key, value)
  dsimp only at hlen
  have hkeylt : key.length < 2 ^ 31 := by
    have := wordAt_lt hkeylen
    omega
  have hvallt : value.length < 2 ^ 31 := by
    have := wordAt_lt hvallen
    omega
  refine ⟨(key, value), ?_, by omega, by omega, hkeylt, hvallt, hset, hnext ▸ hrest⟩
  exact blockAt_encodePair.mpr
    ⟨wordAt_eq_some hkeylen, wordAt_eq_some hvallen, (stringAt_eq_some.mp hkey).2, hvalue⟩

/-- The loop over proper lengths has read the pairs that stand in the buffer. -/
lemma Proper.pairs {l : List (Node DataT)} (hproper : Proper buf count pos)
    (hfill : fill.Chained l) (hpos : 0 ≤ pos) (hin : pos ≤ size) (hbuf : pos ≤ buf.length)
    (h : unserializeFrom buf size count pos fill = some (0, fill')) :
    ∃ (ps : List (Key × List UInt8)) (l' : List (Node DataT)), ps.length = count ∧
      blockAt buf pos (ps.flatMap encodePair).length = some (ps.flatMap encodePair) ∧
      pos + (ps.flatMap encodePair).length ≤ size ∧
      (∀ p ∈ ps, p.1.length < 2 ^ 31 ∧ p.2.length < 2 ^ 31) ∧
      fill'.Chained (l' ++ l) ∧ l'.map Node.pair = (ps.map toPair).reverse ∧
      fill'.count = fill.count + count := by
  induction count generalizing pos fill l with
  | zero =>
    simp only [unserializeFrom, some.injEq, Prod.mk.injEq, true_and] at h
    subst h
    refine ⟨[], [], rfl, ?_, by simpa using hin, List.forall_mem_nil _, hfill, rfl, by simp⟩
    rw [blockAt, if_pos ⟨hpos, by decide, by simpa using hbuf⟩]
    rfl
  | succ count ih =>
    obtain ⟨next, hnext, h⟩ := bind_eq_some_iff.mp h
    cases next with
    | none => cases h
    | some next =>
      obtain ⟨p, hblock, hpos', hin', hkeylen, hvallen, hset, hproper⟩ := hproper.pair hnext
      obtain ⟨fill₁, ptr, hadd, hcount₁, hfill₁⟩ := hfill.add p.1 (.ofBytes p.2)
      obtain rfl : fill₁ = next.2 := some.inj (hadd.symm.trans hset)
      have hbounds := blockAt_bounds hblock
      obtain ⟨ps, l', rfl, hrest, hend, hlens, hfill', hl', hcount⟩ :=
        ih hproper hfill₁ (by omega) hin' (by omega) h
      refine ⟨p :: ps, l' ++ [⟨ptr, p.1, .ofBytes p.2⟩], rfl, ?_, ?_,
        List.forall_mem_cons.mpr ⟨⟨hkeylen, hvallen⟩, hlens⟩, ?_, ?_, ?_⟩
      · rw [hpos'] at hrest
        exact blockAt_append.mpr ⟨hblock, hrest⟩
      · rw [List.flatMap_cons, List.length_append]
        omega
      · rw [List.append_assoc]
        exact hfill'
      · rw [List.map_append, hl', List.map_cons (f := toPair), List.reverse_cons]
        rfl
      · rw [hcount]
        omega

/-- Each round puts a pair in front. -/
lemma unserializeFrom_chained {l : List (Node DataT)} (hfill : fill.Chained l)
    (h : unserializeFrom buf size count pos fill = some (0, fill')) :
    ∃ l' : List (Node DataT), l'.length = count ∧ fill'.Chained (l' ++ l) := by
  induction count generalizing pos fill l with
  | zero =>
    simp only [unserializeFrom, some.injEq, Prod.mk.injEq, true_and] at h
    exact ⟨[], rfl, h ▸ hfill⟩
  | succ count ih =>
    obtain ⟨next, hnext, h⟩ := bind_eq_some_iff.mp h
    cases next with
    | none => cases h
    | some next =>
      obtain ⟨_, vallen, data, key, -, -, -, -, -, -, hset⟩ := unserializePair_some hnext
      obtain ⟨fill₁, ptr, hadd, -, hfill₁⟩ := hfill.add key ⟨vallen, data⟩
      obtain rfl : fill₁ = next.2 := some.inj (hadd.symm.trans hset)
      obtain ⟨l', hlen, hfill'⟩ := ih hfill₁ h
      refine ⟨l' ++ [⟨ptr, key, ⟨vallen, data⟩⟩], by simp [hlen], ?_⟩
      rw [List.append_assoc]
      exact hfill'

variable {ps : List (Key × List UInt8)}

/-- If the pairs that stand in the buffer are those that are read, its lengths are proper: the keys
that are read have no zero in them. By induction on the pairs. -/
lemma proper_of_pairs {l : List (Node DataT)} (hfill : fill.Chained l)
    (hblock : blockAt buf pos (ps.flatMap encodePair).length = some (ps.flatMap encodePair))
    (hlens : ∀ p ∈ ps, p.1.length < 2 ^ 31 ∧ p.2.length < 2 ^ 31)
    (h : unserializeFrom buf size ps.length pos fill = some (0, fill'))
    (hpairs : fill'.pairs = (ps.map toPair).reverse ++ fill.pairs) :
    Proper buf ps.length pos := by
  induction ps generalizing pos fill l with
  | nil => trivial
  | cons p ps ih =>
    obtain ⟨⟨hkeylt, hvallt⟩, hlens⟩ := List.forall_mem_cons.mp hlens
    rw [List.flatMap_cons] at hblock
    obtain ⟨hfirst, hrest⟩ := blockAt_append.mp hblock
    obtain ⟨hkeylen, hvallen, -, hvalue⟩ := blockAt_encodePair.mp hfirst
    obtain ⟨next, hnext, h⟩ := bind_eq_some_iff.mp h
    cases next with
    | none => cases h
    | some next =>
      obtain ⟨keylen, vallen, data, key, hkeylen', hvallen', -, hdata, hkey, hpos, hset⟩ :=
        unserializePair_some hnext
      obtain rfl : (p.1.length : Int) = keylen :=
        some.inj ((wordAt_of_blockAt (by omega) (by omega) hkeylen).symm.trans hkeylen')
      obtain rfl : (p.2.length : Int) = vallen :=
        some.inj ((wordAt_of_blockAt (by omega) (by omega) hvallen).symm.trans hvallen')
      obtain ⟨fill₁, ptr, hadd, -, hfill₁⟩ := hfill.add key ⟨p.2.length, data⟩
      obtain rfl : fill₁ = next.2 := some.inj (hadd.symm.trans hset)
      -- the pair that is read now is behind those that are read later
      obtain ⟨l', hlen, hfill'⟩ := unserializeFrom_chained hfill₁ h
      rw [hfill'.pairs_eq, hfill.pairs_eq, List.map_append, List.map_cons, List.map_cons,
        List.reverse_cons, List.append_assoc, List.singleton_append] at hpairs
      obtain ⟨hlater, hnow⟩ := List.append_inj hpairs (by simp [hlen])
      have hkeyeq : key = p.1 := congrArg Prod.fst (List.cons.inj hnow).1
      have hpos' : next.1 = pos + (encodePair p).length := by
        have := encodePair_length p
        omega
      have htail := ih hfill₁ (hpos' ▸ hrest) hlens h (by
        rw [hfill'.pairs_eq, hfill₁.pairs_eq, List.map_append, hlater])
      rw [List.length_cons, Proper, hkeylen', hvallen', hkey]
      exact ⟨Int.natCast_nonneg _, Int.natCast_nonneg _, by rw [hkeyeq], hpos ▸ htail⟩

/-- A dictionary that is read has the pairs that stand in a buffer in the wire format in front of
those it had before, exactly if the lengths in the buffer are those of its keys and values. -/
theorem dictUnserialize_wellFormed_iff {l : List (Node DataT)} (hfill : fill.Chained l)
    (h : dictUnserialize buf size fill = some (0, fill')) :
    (∃ ps, WellFormed buf size ps ∧ fill'.pairs = (ps.map toPair).reverse ++ fill.pairs ∧
      fill'.count = ps.length) ↔
    ∀ count, wordAt buf 0 = some count → Proper buf count.toNat 4 := by
  unfold dictUnserialize at h
  split at h
  · cases h
  split at h
  · cases h
  next hsize =>
  obtain ⟨count, hcount, h⟩ := bind_eq_some_iff.mp h
  split at h
  · cases h
  next hneg =>
  have hword := wordAt_eq_some hcount
  have hfour := (blockAt_bounds hword).2.2
  rw [hton32_length] at hfour
  have hreset : ({ fill with count := 0 } : DictT DataT).Chained l := ⟨hfill.size_one, hfill.ptrs,
    hfill.cells, hfill.list, hfill.chain, hfill.inUse, hfill.fresh⟩
  constructor
  · rintro ⟨ps, hwell, hpairs, -⟩ count' hcount'
    obtain ⟨rest, rfl⟩ := hwell.start
    have hself : blockAt (encode ps ++ rest) 0 (encode ps).length = some (encode ps) :=
      blockAt_eq_some.mpr ⟨[], rest, rfl, rfl, rfl⟩
    obtain ⟨hfirst, hblock⟩ := blockAt_append.mp hself
    have hlt := hwell.count
    have hlen : wordAt (encode ps ++ rest) 0 = some (ps.length : Int) :=
      wordAt_of_blockAt (by omega) (by omega) hfirst
    obtain rfl : (ps.length : Int) = count := some.inj (hlen.symm.trans hcount)
    obtain rfl : (ps.length : Int) = count' := some.inj (hlen.symm.trans hcount')
    exact proper_of_pairs hreset hblock hwell.lengths h hpairs
  · intro hproper
    obtain ⟨ps, l', hlen, hblock, hend, hlens, hfill', hl', hcount'⟩ :=
      (hproper count hcount).pairs hreset (by decide) (by omega) (by omega) h
    have heq : count = ps.length := by omega
    have hlt := wordAt_lt hcount
    rw [heq] at hword
    refine ⟨ps, ⟨?_, ?_, by omega, hlens⟩, ?_, ?_⟩
    · obtain ⟨as, cs, hbuf, has, -⟩ := blockAt_eq_some.mp (blockAt_append.mpr ⟨hword, hblock⟩)
      obtain rfl : as = [] := List.eq_nil_of_length_eq_zero (by omega)
      exact ⟨cs, hbuf.symm⟩
    · rw [encode, List.length_append, hton32_length]
      omega
    · rw [hfill'.pairs_eq, List.map_append, hl', hfill.pairs_eq]
    · rw [hcount', hlen]
      exact zero_add _

/-- A pair is read into an empty dictionary, and the byte behind it is left. -/
theorem dictUnserialize_wellFormed_iff_one : ∃ d',
    dictUnserialize [0, 0, 0, 1, 0, 0, 0, 1, 0, 0, 0, 1, 0x61, 0, 7, 8] 16 dictNew = some (0, d') ∧
      ∃ ps, WellFormed [0, 0, 0, 1, 0, 0, 0, 1, 0, 0, 0, 1, 0x61, 0, 7, 8] 16 ps ∧
        d'.pairs = (ps.map toPair).reverse ++ dictNew.pairs := by
  have hnew : dictNew.Chained [] := (getNewDictFull_holds (by decide) (by decide)).chained rfl
  have hword : wordAt [0, 0, 0, 1, 0, 0, 0, 1, 0, 0, 0, 1, 0x61, 0, 7, 8] 0 = some 1 := by
    decide
  have hproper : Proper [0, 0, 0, 1, 0, 0, 0, 1, 0, 0, 0, 1, 0x61, 0, 7, 8] 1 4 :=
    ⟨by decide, by decide, by decide, trivial⟩
  have hret : (dictUnserialize [0, 0, 0, 1, 0, 0, 0, 1, 0, 0, 0, 1, 0x61, 0, 7, 8] 16
      dictNew).map Prod.fst = some 0 := by decide
  obtain ⟨⟨ret, d'⟩, hread, rfl⟩ := map_eq_some_iff.mp hret
  obtain ⟨ps, hps, hpairs, -⟩ := (dictUnserialize_wellFormed_iff hnew hread).mpr
    (fun count hcount => some.inj (hword.symm.trans hcount) ▸ hproper)
  exact ⟨d', hread, ps, hps, hpairs⟩

/-- A key of one byte without a zero behind it is taken with the next byte, and a key with a
negative length is taken as the text behind the lengths. -/
theorem dictUnserialize_accepts_malformed :
    ((dictUnserialize [0, 0, 0, 1, 0, 0, 0, 1, 0, 0, 0, 1, 0x61, 0x62, 0] 15 dictNew).map
        (fun r => (r.1, r.2.pairs)) = some (0, [([0x61, 0x62], .ofBytes [0])]) ∧
      ∀ ps, (ps.map toPair).reverse = [([0x61, 0x62], .ofBytes [0])] →
        ¬ encode ps <+: [0, 0, 0, 1, 0, 0, 0, 1, 0, 0, 0, 1, 0x61, 0x62, 0]) ∧
    ((dictUnserialize [0, 0, 0, 1, 255, 255, 255, 255, 0, 0, 0, 0, 0x61, 0] 14 dictNew).map
        (fun r => (r.1, r.2.pairs)) = some (0, [([0x61], .ofBytes [])]) ∧
      wordAt [0, 0, 0, 1, 255, 255, 255, 255, 0, 0, 0, 0, 0x61, 0] 4 = some (-1)) := by
  refine ⟨⟨by decide, fun ps hps => ?_⟩, by decide, by decide⟩
  obtain ⟨p, hlen⟩ := List.length_eq_one_iff.mp
    (show ps.length = 1 by simpa using congrArg List.length hps)
  subst hlen
  obtain ⟨hkey, hvalue⟩ := Prod.mk.inj (List.cons.inj hps).1
  obtain rfl : p = ([0x61, 0x62], [0]) :=
    Prod.ext hkey (some.inj (congrArg DataT.data hvalue))
  decide

end TagItGluster.Libglusterfs
