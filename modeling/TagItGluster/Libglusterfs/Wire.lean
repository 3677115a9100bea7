import TagItGluster.Base.Bytes
import TagItGluster.Libglusterfs.Refine

/-!
# Dictionaries on the wire

A dictionary is sent as the number of its pairs and, for each pair, the lengths of key and value,
the key with a zero behind it, and the value. The three loops of the source for the length, for
writing and for reading are modelled with their `int` arithmetic and their checks. The reader takes
both lengths as they come, and the key as the text at its place. A read outside of the buffer is
not defined. Line numbers: `libglusterfs/src/dict.c`.
-/

namespace TagItGluster.Libglusterfs

open Base List Option

/-- `data_t`: the length, and the bytes if there are any. -/
structure DataT where
  len : Int
  data : Option (List UInt8)
deriving DecidableEq

/-- A value that carries these bytes. -/
def DataT.ofBytes (bytes : List UInt8) : DataT := ⟨bytes.length, some bytes⟩

/-- `dict_new` (104). -/
def dictNew : DictT DataT := DictT.getNewDictFull 1

/-- `hton32`, with the copy into the buffer. -/
def hton32 (z : Int) : List UInt8 :=
  let n := (z % 2 ^ 32).toNat
  [.ofNat (n / 2 ^ 24), .ofNat (n / 2 ^ 16), .ofNat (n / 2 ^ 8), .ofNat n]

/-- `ntoh32` of the bytes that were copied out of the buffer. -/
def ntoh32 (bytes : List UInt8) : Int :=
  toInt32 (bytes.foldl (fun n b => n * 256 + b.toNat) 0 : Nat)

private lemma toInt32_emod (z : Int) : toInt32 (z % 2 ^ 32) = toInt32 z := by
  exact_mod_cast Int.emod_bmod (x := z) (n := 2 ^ 32)

private lemma emod_toInt32 (z : Int) : toInt32 z % 2 ^ 32 = z % 2 ^ 32 := by
  exact_mod_cast Int.bmod_emod

lemma hton32_length (z : Int) : (hton32 z).length = 4 := rfl

private lemma ntoh32_hton32 {z : Int} (hlo : -2 ^ 31 ≤ z) (hhi : z < 2 ^ 31) :
    ntoh32 (hton32 z) = z := by
  have hword : (hton32 z).foldl (fun n b => n * 256 + b.toNat) 0 = (z % 2 ^ 32).toNat := by
    simp only [hton32, foldl_cons, foldl_nil, UInt8.toNat_ofNat']
    omega
  rw [ntoh32, hword, Int.toNat_of_nonneg (by omega), toInt32_emod, toInt32_eq_self hlo hhi]

private lemma hton32_ntoh32 {bytes : List UInt8} (h : bytes.length = 4) :
    hton32 (ntoh32 bytes) = bytes := by
  obtain ⟨a, b, c, d, rfl⟩ := length_eq_four.mp h
  have ha := a.toNat_lt
  have hb := b.toNat_lt
  have hc := c.toNat_lt
  have hd := d.toNat_lt
  have hword : (ntoh32 [a, b, c, d] % 2 ^ 32).toNat =
      ((a.toNat * 256 + b.toNat) * 256 + c.toNat) * 256 + d.toNat := by
    simp only [ntoh32, emod_toInt32, foldl_cons, foldl_nil]
    omega
  simp only [hton32, List.cons.injEq, and_true, ← UInt8.toNat_inj, UInt8.toNat_ofNat']
  omega

/-- The `int32_t` in the buffer at a position, in host order. -/
def wordAt (buf : List UInt8) (pos : Int) : Option Int := (blockAt buf pos 4).map ntoh32

lemma wordAt_eq_some {buf : List UInt8} {pos z : Int} (h : wordAt buf pos = some z) :
    blockAt buf pos (hton32 z).length = some (hton32 z) := by
  obtain ⟨bytes, hbytes, rfl⟩ := map_eq_some_iff.mp h
  rw [hton32_ntoh32 (Int.ofNat.inj (length_of_blockAt hbytes).symm)]
  rw [← length_of_blockAt hbytes]
  exact hbytes

lemma wordAt_of_blockAt {buf : List UInt8} {pos z : Int} (hlo : -2 ^ 31 ≤ z) (hhi : z < 2 ^ 31)
    (h : blockAt buf pos (hton32 z).length = some (hton32 z)) : wordAt buf pos = some z := by
  rw [hton32_length] at h
  rw [wordAt, show 4 = ((4 : Nat) : Int) from rfl, h, map_some, ntoh32_hton32 hlo hhi]

namespace DictT

/-- The loop of `_dict_serialized_length` (2495). -/
def lengthFrom (mem : Ptr → Option (Pair DataT)) : Nat → Option Ptr → Int → Option Int
  | 0, _, len => some len
  | _ + 1, none, _ => some (-22)
  | count + 1, some p, len => (mem p).bind fun pair =>
    let len := toInt32 (len + 8)
    let len := toInt32 (len + pair.key.length + 1)
    if pair.value.len < 0 then some (-22)
    else lengthFrom mem count pair.next (toInt32 (len + pair.value.len))

/-- `dict_serialized_length` (2656). -/
def dictSerializedLength (d : DictT DataT) : Option Int :=
  if d.count < 0 then some (-22) else lengthFrom d.mem d.count.toNat d.membersList 4

/-- The bytes of a value that `_dict_serialize` (2568) copies. -/
def valueBytes (value : DataT) : Option (List UInt8) :=
  match value.data with
  | none => some []
  | some data => blockAt data 0 value.len

/-- The loop of `_dict_serialize`, with what it returns and the bytes it writes. -/
def serializeFrom (mem : Ptr → Option (Pair DataT)) : Nat → Option Ptr → Option (Int × List UInt8)
  | 0, _ => some (0, [])
  | _ + 1, none => some (-1, [])
  | count + 1, some p => (mem p).bind fun pair =>
    let keylen := toInt32 pair.key.length
    let vallen := pair.value.len
    (valueBytes pair.value).bind fun value =>
      (serializeFrom mem count pair.next).map fun r =>
        (r.1, hton32 keylen ++ (hton32 vallen ++ (pair.key ++ [0] ++ value)) ++ r.2)

/-- `dict_serialize` (2688). -/
def dictSerialize (d : DictT DataT) : Option (Int × List UInt8) :=
  if d.count < 0 then some (-1, [])
  else (serializeFrom d.mem d.count.toNat d.membersList).map fun r => (r.1, hton32 d.count ++ r.2)

end DictT

/-- The bytes that `GF_MALLOC` adds for its header and trailer. -/
def memOverhead : Int := 72

/-- `memdup` (common-utils.h:555): a negative length is a huge `size_t`. There is no such memory,
except that the size with the overhead wraps around for the last of them; the copy is then not
defined. -/
def memdup (buf : List UInt8) (pos len : Int) : Option (Option (List UInt8)) :=
  if len + memOverhead < 0 then some none else (blockAt buf pos len).map some

/-- A round of the loop of `dict_unserialize`, with the position and the dictionary after it; it
gives up if the buffer is too short. -/
def unserializePair (buf : List UInt8) (size pos : Int) (fill : DictT DataT) :
    Option (Option (Int × DictT DataT)) :=
  if pos + 4 > size then some none
  else (wordAt buf pos).bind fun keylen =>
    if pos + 4 + 4 > size then some none
    else (wordAt buf (pos + 4)).bind fun vallen =>
      let key := pos + 4 + 4
      if key + keylen > size then some none
      else
        let value := key + (keylen + 1)
        if value + vallen > size then some none
        else (memdup buf value vallen).bind fun data =>
          (stringAt buf key).bind fun key =>
            (fill.dictSet key ⟨vallen, data⟩ false).map fun fill => some (value + vallen, fill)

/-- The loop of `dict_unserialize`, with what it returns and the dictionary it leaves. -/
def unserializeFrom (buf : List UInt8) (size : Int) :
    Nat → Int → DictT DataT → Option (Int × DictT DataT)
  | 0, _, fill => some (0, fill)
  | count + 1, pos, fill => (unserializePair buf size pos fill).bind fun
    | none => some (-1, fill)
    | some next => unserializeFrom buf size count next.1 next.2

/-- `dict_unserialize` (2720). -/
def dictUnserialize (buf : List UInt8) (size : Int) (fill : DictT DataT) :
    Option (Int × DictT DataT) :=
  if size = 0 then some (-1, fill)
  else if 4 > size then some (-1, fill)
  else (wordAt buf 0).bind fun count =>
    if count < 0 then some (-1, fill)
    else unserializeFrom buf size count.toNat 4 { fill with count := 0 }

/-- A pair in the wire format. -/
def encodePair (p : Key × List UInt8) : List UInt8 :=
  hton32 p.1.length ++ (hton32 p.2.length ++ (p.1 ++ [0] ++ p.2))

/-- The wire format of a list of pairs. -/
def encode (ps : List (Key × List UInt8)) : List UInt8 :=
  hton32 ps.length ++ ps.flatMap encodePair

lemma encodePair_length (p : Key × List UInt8) :
    (encodePair p).length = 8 + (p.1.length + 1) + p.2.length := by
  simp only [encodePair, length_append, hton32_length, length_cons, length_nil]
  omega

/-- A pair without the pointer to it. -/
def Node.pair {V : Type} (n : Node V) : Key × V := (n.key, n.value)

namespace DictT

section

variable {V : Type} {d : DictT V} {l : List (Node V)}

/-- The pairs of the list of members from a pointer on. -/
def pairsFrom (mem : Ptr → Option (Pair V)) : Nat → Option Ptr → List (Key × V)
  | 0, _ => []
  | _ + 1, none => []
  | fuel + 1, some p => match mem p with
    | none => []
    | some pair => (pair.key, pair.value) :: pairsFrom mem fuel pair.next

/-- The pairs of a dictionary, newest first. -/
def pairs (d : DictT V) : List (Key × V) := pairsFrom d.mem d.steps d.membersList

/-- The dictionary has one chain with these pairs, newest first. A key may be there more than once,
and the count may be another one. -/
structure Chained (d : DictT V) (l : List (Node V)) : Prop where
  size_one : d.hashSize = 1
  ptrs : (l.map Node.ptr).Nodup
  cells : ∀ n ∈ l, (d.mem n.ptr).map (fun pair => (pair.key, pair.value)) = some (n.key, n.value)
  list : Linked (fun p => (d.mem p).map Pair.next) d.membersList (l.map Node.ptr)
  chain : ∃ start, d.members[0]? = some start ∧
    Linked (fun p => (d.mem p).map Pair.hashNext) start (l.map Node.ptr)
  inUse : d.freePairInUse = true ↔ .freePair ∈ l.map Node.ptr
  fresh : ∀ id, .heap id ∈ l.map Node.ptr → id < d.fresh

lemma Holds.chained (h : d.Holds l) (hsize : d.hashSize = 1) : d.Chained l where
  size_one := hsize
  ptrs := h.ptrs
  cells := h.cells
  list := h.list
  chain := by
    have hall : l.filter (inChain d.hashSize 0) = l := by
      refine filter_eq_self.mpr fun n _ => decide_eq_true ?_
      rw [slot, hsize, Nat.mod_one]
    obtain ⟨start, hstart, hlink⟩ := h.chains 0 h.size_pos
    rw [hall] at hlink
    exact ⟨start, hstart, hlink⟩
  inUse := h.inUse
  fresh := h.fresh

private lemma Chained.length_lt (h : d.Chained l) : l.length < d.steps := by
  rw [← length_map]
  exact length_lt_steps h.ptrs h.fresh

private lemma pairsFrom_eq {fuel : Nat} {start : Option Ptr} (h : Walk d.mem Pair.next fuel start l)
    : pairsFrom d.mem fuel start = l.map Node.pair := by
  induction h with
  | nil => rfl
  | cons hpair hkey hvalue _ ih =>
    rw [pairsFrom, hpair, map_cons, ← ih, Node.pair, ← hkey, ← hvalue]

lemma Chained.pairs_eq (h : d.Chained l) : d.pairs = l.map Node.pair :=
  pairsFrom_eq (walk_of_linked h.cells h.list h.length_lt)

lemma Chained.dictGet_eq (h : d.Chained l) (key : Key) : d.dictGet key = some (toMap l key) := by
  obtain ⟨start, hstart, hlink⟩ := h.chain
  have hlookup : d.dictLookup key =
      some ((l.find? fun n => decide (n.key = key)).map Node.ptr) := by
    rw [dictLookup, hashval, if_pos h.size_one, bind_some, hstart]
    exact lookupFrom_eq (walk_of_linked h.cells hlink h.length_lt)
  rw [dictGet, hlookup, toMap]
  cases hfind : l.find? fun n => decide (n.key = key) with
  | none => rfl
  | some n =>
    obtain ⟨pair, hpair, heq⟩ :=
      map_eq_some_iff.mp (h.cells n (mem_of_find?_eq_some hfind))
    simp [hpair, show pair.value = n.value from congrArg Prod.snd heq]

/-- `dict_add` puts a pair in front, whatever its key. -/
lemma Chained.add (h : d.Chained l) (key : Key) (value : V) :
    ∃ d' p, d.dictSet key value false = some d' ∧ d'.count = d.count + 1 ∧
      d'.Chained (⟨p, key, value⟩ :: l) := by
  obtain ⟨start, hstart, hlink⟩ := h.chain
  have hp := newPtr_notMem h.inUse h.fresh
  have hsome : ∀ q ∈ l.map Node.ptr, (d.mem q).isSome := by
    intro q hq
    obtain ⟨n, hn, rfl⟩ := mem_map.mp hq
    obtain ⟨pair, hpair, -⟩ := map_eq_some_iff.mp (h.cells n hn)
    rw [hpair]
    rfl
  have hslot : d.setHashval key = some 0 := by rw [setHashval, if_pos h.size_one]
  obtain ⟨mem, hadd, hself, hold⟩ := addPair_eq value hslot hstart hp
    (fun q hq => mem_of_head? (h.list.start_eq.symm.trans hq)) hsome
  refine ⟨_, d.newPtr, hadd, rfl, h.size_one, nodup_cons.mpr ⟨hp, h.ptrs⟩, ?_, ?_, ?_, ?_, ?_⟩
  · refine forall_mem_cons.mpr ⟨congrArg (Option.map _) hself, fun n hn => ?_⟩
    rw [← h.cells n hn]
    exact adjust_other (hold _ (mem_map_of_mem hn)) _ fun _ => rfl
  · refine ⟨rfl, d.membersList, congrArg (Option.map _) hself, h.list.frame fun x hx => ?_⟩
    exact adjust_other (hold x hx) _ fun _ => rfl
  · refine ⟨some d.newPtr, getElem?_set_self ?_, rfl, start, congrArg (Option.map _) hself,
      hlink.frame fun x hx => adjust_other (hold x hx) _ fun _ => rfl⟩
    exact (List.getElem?_eq_some_iff.mp hstart).1
  · exact iff_of_true rfl (freePair_mem_cons h.inUse)
  · exact fun id hid => heap_mem_cons h.fresh hid

end

variable {d : DictT DataT} {l : List (Node DataT)} {ps : List (Key × List UInt8)}
  {start : Option Ptr}

/-- A pair whose value carries the bytes. -/
def toPair (p : Key × List UInt8) : Key × DataT := (p.1, .ofBytes p.2)

variable (hcells : ∀ n ∈ l, (d.mem n.ptr).map (fun pair => (pair.key, pair.value)) =
  some (n.key, n.value))
include hcells

variable (hlink : Linked (fun p => (d.mem p).map Pair.next) start (l.map Node.ptr))
include hlink

/-- The pairs are written in their order. -/
lemma serializeFrom_eq (hps : l.map Node.pair = ps.map toPair) :
    serializeFrom d.mem l.length start = some (0, ps.flatMap encodePair) := by
  induction l generalizing start ps with
  | nil =>
    obtain rfl : ps = [] := map_eq_nil_iff.mp hps.symm
    rfl
  | cons n l ih =>
    obtain ⟨p, ps, rfl, hp, hps⟩ := map_eq_cons_iff.mp hps.symm
    obtain ⟨rfl, q, hq, hlink⟩ := hlink
    obtain ⟨hn, hcells⟩ := forall_mem_cons.mp hcells
    obtain ⟨pair, hpair, heq⟩ := map_eq_some_iff.mp hn
    obtain rfl : pair.next = q := by simpa [hpair] using hq
    have hkey : pair.key = p.1 := congrArg Prod.fst (heq.trans hp.symm)
    have hvalue : pair.value = .ofBytes p.2 := congrArg Prod.snd (heq.trans hp.symm)
    have hbytes : valueBytes (.ofBytes p.2) = some p.2 := blockAt_self p.2
    have hlen : hton32 (toInt32 p.1.length) = hton32 p.1.length := by
      simp only [hton32, emod_toInt32]
    rw [length_cons, serializeFrom, hpair, bind_some, hkey, hvalue, hbytes,
      bind_some, ih hcells hlink hps.symm, hlen]
    rfl

/-- The length is the number of bytes that are written, as long as it is an `int`. -/
lemma lengthFrom_eq {len : Int} (hps : l.map Node.pair = ps.map toPair) (hlen : 0 ≤ len)
    (hsize : len + (ps.flatMap encodePair).length < 2 ^ 31) :
    lengthFrom d.mem l.length start len = some (len + (ps.flatMap encodePair).length) := by
  induction l generalizing start ps len with
  | nil =>
    obtain rfl : ps = [] := map_eq_nil_iff.mp hps.symm
    simp [lengthFrom]
  | cons n l ih =>
    obtain ⟨p, ps, rfl, hp, hps⟩ := map_eq_cons_iff.mp hps.symm
    obtain ⟨rfl, q, hq, hlink⟩ := hlink
    obtain ⟨hn, hcells⟩ := forall_mem_cons.mp hcells
    obtain ⟨pair, hpair, heq⟩ := map_eq_some_iff.mp hn
    obtain rfl : pair.next = q := by simpa [hpair] using hq
    have hkey : pair.key = p.1 := congrArg Prod.fst (heq.trans hp.symm)
    have hvalue : pair.value.len = p.2.length :=
      congrArg (fun v => v.2.len) (heq.trans hp.symm)
    rw [flatMap_cons, length_append, encodePair_length] at hsize ⊢
    rw [length_cons, lengthFrom, hpair, bind_some, hkey, if_neg (by omega),
      toInt32_eq_self (z := len + 8) (by omega) (by omega),
      toInt32_eq_self (z := len + 8 + p.1.length + 1) (by omega) (by omega),
      toInt32_eq_self (by omega) (by omega), ih hcells hlink hps.symm (by omega) (by omega)]
    congr 1
    omega

end DictT

end TagItGluster.Libglusterfs
