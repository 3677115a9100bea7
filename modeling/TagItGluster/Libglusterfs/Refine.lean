import Mathlib.Data.Set.Card
import TagItGluster.Base.Machine
import TagItGluster.Libglusterfs.Stored

/-!
# Stored dictionaries refine finite maps

Each call on a dictionary does to its pairs what it should do to the map, as long as `_dict_set`
finds the same place for a key as `_dict_lookup` does and no key is added twice.
-/

namespace TagItGluster.Libglusterfs

open Base List Option

namespace DictT

variable {V : Type} {d : DictT V} {l : List (Node V)} {key : Key} {i fuel : Nat}
  {prev start : Option Ptr} {n : Node V} {c as bs : List (Node V)}

private lemma delFrom_none (h : Walk d.mem Pair.hashNext fuel start c)
    (hkeys : ∀ n ∈ c, n.key ≠ key) : d.delFrom key i fuel prev start = some d := by
  induction h generalizing prev with
  | nil => rfl
  | cons hpair hkey _ _ ih =>
    obtain ⟨hne, hkeys⟩ := forall_mem_cons.mp hkeys
    rw [delFrom, hpair, bind_some, if_neg (hkey ▸ hne)]
    exact ih hkeys

/-- The walk of `dict_del` takes out the first pair with the key. -/
lemma delFrom_found {pair : Pair V} (h : Walk d.mem Pair.hashNext fuel start (as ++ n :: bs))
    (hkeys : ∀ n ∈ as, n.key ≠ key) (hpair : d.mem n.ptr = some pair) (hkey : pair.key = key) :
    d.delFrom key i fuel prev start =
      d.unlink i ((as.map Node.ptr).getLast?.or prev) n.ptr pair := by
  induction as generalizing fuel prev start with
  | nil =>
    cases h
    rw [delFrom, hpair, bind_some, if_pos hkey]
    rfl
  | cons a as ih =>
    obtain ⟨hne, hkeys⟩ := forall_mem_cons.mp hkeys
    cases h with
    | cons ha hkeya _ hrest =>
      rw [delFrom, ha, bind_some, if_neg (hkeya ▸ hne), ih hrest hkeys, map_cons, getLast?_cons_or]

private lemma filter_key_ne (hkeys : ((as ++ n :: bs).map Node.key).Nodup) :
    (∀ n' ∈ as ++ bs, n'.key ≠ n.key) ∧
      (as ++ n :: bs).filter (fun n' => decide (n'.key ≠ n.key)) = as ++ bs := by
  rw [map_append] at hkeys
  obtain ⟨hnew, -⟩ := nodup_cons.mp (nodup_middle.mp hkeys)
  rw [← map_append] at hnew
  have hne : ∀ n' ∈ as ++ bs, n'.key ≠ n.key := fun n' hn' heq =>
    hnew (heq ▸ mem_map_of_mem hn')
  refine ⟨hne, ?_⟩
  rw [filter_append, filter_cons_of_neg (by simp), ← filter_append, filter_eq_self]
  exact fun n' hn' => decide_eq_true (hne n' hn')

/-- `dict_del` takes the pair with the key out. -/
lemma Holds.del (h : d.Holds l) (key : Key) :
    ∃ d', d.dictDel key = some d' ∧ d'.hashSize = d.hashSize ∧
      d'.Holds (l.filter fun n => decide (n.key ≠ key)) := by
  obtain ⟨start, hstart, hwalk⟩ := h.walk key
  rw [dictDel, h.hashval_eq, Option.bind_some, hstart, Option.bind_some]
  by_cases hkey : ∃ n ∈ l, n.key = key
  · obtain ⟨n, hn, rfl⟩ := hkey
    obtain ⟨as, bs, rfl⟩ := append_of_mem hn
    obtain ⟨hne, hfilter⟩ := filter_key_ne h.keys
    obtain ⟨pair, hpair, hkey, -⟩ := h.cell hn
    rw [filter_append, filter_cons_of_pos (inChain_self ..)] at hwalk
    rw [hfilter, delFrom_found hwalk
      (fun n' hn' => hne n' (mem_append_left _ (mem_of_mem_filter hn'))) hpair hkey,
      Option.or_none]
    exact h.unlink hpair rfl
  · have hnone : ∀ n ∈ l, n.key ≠ key := fun n hn heq => hkey ⟨n, hn, heq⟩
    refine ⟨d, ?_, rfl, ?_⟩
    · exact delFrom_none hwalk fun n hn => hnone n (mem_of_mem_filter hn)
    · rw [filter_eq_self.mpr fun n hn => decide_eq_true (hnone n hn)]
      exact h

/-- The walk along the list of members takes out the pairs that match. -/
lemma Holds.foreachFrom (isMatch : Key → V → Bool) (kept : List (Node V)) {rest : List (Node V)}
    (h : d.Holds (kept ++ rest)) (hstart : start = (rest.map Node.ptr).head?)
    (hfuel : rest.length < fuel) :
    ∃ d', foreachFrom isMatch fuel start d = some d' ∧ d'.hashSize = d.hashSize ∧
      d'.Holds (kept ++ rest.filter fun n => !isMatch n.key n.value) := by
  induction rest generalizing d kept fuel start with
  | nil =>
    obtain ⟨fuel, rfl⟩ := Nat.exists_eq_succ_of_ne_zero (ne_of_gt hfuel)
    obtain rfl : start = none := hstart
    exact ⟨d, rfl, rfl, h⟩
  | cons n rest ih =>
    obtain ⟨fuel, rfl⟩ := Nat.exists_eq_succ_of_ne_zero (ne_of_gt (Nat.zero_lt_of_lt hfuel))
    obtain rfl : start = some n.ptr := hstart
    obtain ⟨pair, hpair, hkey, hvalue⟩ := h.cell (mem_append_right _ mem_cons_self)
    have hnext : pair.next = (rest.map Node.ptr).head? := by
      have hlist := h.list
      rw [map_append] at hlist
      simpa [hpair] using hlist.next_eq
    have hfuel' := Nat.lt_of_succ_lt_succ hfuel
    rw [DictT.foreachFrom, hpair, bind_some, hkey, hvalue]
    by_cases hmatch : isMatch n.key n.value = true
    · rw [if_pos hmatch, filter_cons_of_neg (by simpa using hmatch)]
      obtain ⟨d₁, hdel, hsize₁, hd₁⟩ := h.del n.key
      rw [(filter_key_ne h.keys).2] at hd₁
      obtain ⟨d₂, hrest, hsize₂, hd₂⟩ := ih kept hd₁ hnext hfuel'
      rw [hdel]
      exact ⟨d₂, hrest, hsize₂.trans hsize₁, hd₂⟩
    · rw [if_neg hmatch, filter_cons_of_pos (by simpa using hmatch)]
      rw [append_cons] at h ⊢
      exact ih _ h hnext hfuel'

/-- `dict_foreach_match` with removal takes out the pairs that match. -/
lemma Holds.foreachRemove (h : d.Holds l) (isMatch : Key → V → Bool) :
    ∃ d', d.dictForeachRemove isMatch = some d' ∧ d'.hashSize = d.hashSize ∧
      d'.Holds (l.filter fun n => !isMatch n.key n.value) :=
  Holds.foreachFrom isMatch [] h h.list.start_eq h.length_lt

/-- A new dictionary has no pairs. -/
lemma getNewDictFull_holds {hashSize : Nat} (hpos : 0 < hashSize) (hroom : hashSize ≤ 5) :
    (getNewDictFull hashSize : DictT V).Holds [] where
  size_pos := hpos
  room := by
    rw [getNewDictFull]
    split
    · next hone => exact le_of_eq hone
    · exact hroom
  ptrs := nodup_nil
  keys := nodup_nil
  cells := nofun
  list := rfl
  back := trivial
  chains i hi := by
    refine ⟨none, ?_, rfl⟩
    rw [getNewDictFull, getElem?_replicate, if_pos]
    split
    · next hone => exact hone ▸ hi
    · exact lt_of_lt_of_le hi hroom
  count := rfl
  inUse := iff_of_false nofun nofun
  fresh := nofun

end DictT

section

variable {V : Type} {hashSize : Nat}

/-- `_dict_set` puts the key where it is looked up, and does not add one that is there. -/
def Fits (hashSize : Nat) : DictOp V → (Key → Option V) → Prop
  | .set key _ replace, m =>
    (hashSize = 1 ∨
      (toInt32 (superFastHash key).toNat).tmod hashSize = ((slot hashSize key : Nat) : Int)) ∧
      (replace = true ∨ m key = none)
  | _, _ => True

/-- The stored dictionary has the pairs of the map. -/
def Refines (hashSize : Nat) (s : Option (DictT V)) (m : Key → Option V) : Prop :=
  ∃ d l, s = some d ∧ d.hashSize = hashSize ∧ d.Holds l ∧ toMap l = m

private lemma setHashval_eq {d : DictT V} (hpos : 0 < d.hashSize) {key : Key}
    (h : d.hashSize = 1 ∨ (toInt32 (superFastHash key).toNat).tmod d.hashSize =
      ((slot d.hashSize key : Nat) : Int)) :
    d.setHashval key = some (slot d.hashSize key) := by
  unfold DictT.setHashval
  by_cases hone : d.hashSize = 1
  · rw [if_pos hone, slot, hone, Nat.mod_one]
  · rw [if_neg hone, if_neg (ne_of_gt hpos), h.resolve_left hone]
    exact if_pos (Int.natCast_nonneg _)

variable {l : List (Node V)} {s : Option (DictT V)} {m : Key → Option V}

private lemma toMap_filter (hkeys : (l.map Node.key).Nodup) (p : Key → V → Bool) (key : Key) :
    toMap (l.filter fun n => p n.key n.value) key = (toMap l key).filter (p key) := by
  rw [toMap, find?_filter hkeys, toMap]
  cases hfind : l.find? fun n => decide (n.key = key) with
  | none => rfl
  | some n =>
    obtain rfl : n.key = key := by simpa using find?_some hfind
    rw [map_some, filter_some, filter_some]
    split <;> rfl

/-- Each call does to the map what it should. -/
lemma dictStep_refines {op : DictOp V} (h : Refines hashSize s m) (hfits : Fits hashSize op m) :
    Refines hashSize (dictStep op s) (mapStep op m) := by
  obtain ⟨d, l, rfl, rfl, hd, rfl⟩ := h
  cases op with
  | set key value replace =>
    obtain ⟨hslot, hreplace⟩ := hfits
    by_cases hkey : key ∈ l.map Node.key
    · obtain rfl := hreplace.resolve_right fun hnone => toMap_eq_none.mp hnone hkey
      obtain ⟨n, hn, rfl⟩ := mem_map.mp hkey
      obtain ⟨d', hset, hsize, hd'⟩ := hd.replace hn value
      exact ⟨d', _, hset, hsize, hd', toMap_setValue value hkey⟩
    obtain ⟨d', p, hadd, hsize, hd'⟩ :=
      hd.add hkey value (setHashval_eq hd.size_pos hslot)
    refine ⟨d', _, ?_, hsize, hd', toMap_cons⟩
    have hfind : (l.find? fun n => decide (n.key = key)).map Node.ptr = none := by
      simpa [toMap] using toMap_eq_none.mpr hkey
    rw [dictStep, bind_some, DictT.dictSet, hd.dictLookup_eq, hfind, bind_some, hadd, ite_self]
  | del key =>
    obtain ⟨d', hdel, hsize, hd'⟩ := hd.del key
    refine ⟨d', _, hdel, hsize, hd', funext fun k => ?_⟩
    rw [toMap_filter hd.keys fun k _ => decide (k ≠ key)]
    by_cases hk : k = key
    · rw [hk, mapStep]
      simp
    · rw [mapStep, Function.update_of_ne hk]
      cases toMap l k <;> simp [hk]
  | foreachRemove isMatch =>
    obtain ⟨d', hremove, hsize, hd'⟩ := hd.foreachRemove isMatch
    exact ⟨d', _, hremove, hsize, hd',
      funext fun k => toMap_filter hd.keys (fun k v => !isMatch k v) k⟩

lemma run_refines (h : Refines hashSize s m) {ops : List (DictOp V)}
    (hfits : Throughout mapStep (Fits hashSize) ops m) :
    Refines hashSize (runAll dictStep ops s) (runAll mapStep ops m) := by
  induction ops generalizing s m with
  | nil => exact h
  | cons op ops ih => exact ih (dictStep_refines h hfits.1) hfits.2

private lemma ncard_toMap (hkeys : (l.map Node.key).Nodup) :
    {key | toMap l key ≠ none}.ncard = l.length := by
  have hset : {key | toMap l key ≠ none} = ((l.map Node.key).toFinset : Set Key) := by
    simp [toMap_eq_none]
  rw [hset, Set.ncard_coe_finset, toFinset_card_of_nodup hkeys, length_map]

/-- A dictionary with room for the pointers to its chains is a finite map, as long as `_dict_set`
puts each key where it is looked up and `dict_add` adds no key that is there. -/
theorem dict_refines_map {hashSize : Nat} (hpos : 0 < hashSize) (hroom : hashSize ≤ 5)
    {ops : List (DictOp V)} (hfits : Throughout mapStep (Fits hashSize) ops fun _ => none) :
    ∃ d, runAll dictStep ops (some (DictT.getNewDictFull hashSize)) = some d ∧
      (∀ key, d.dictGet key = some (runAll mapStep ops (fun _ => none) key)) ∧
      d.count = {key | runAll mapStep ops (fun _ => none) key ≠ none}.ncard ∧
      ∃ (list : List Ptr) (chain : Nat → List Ptr), list.Nodup ∧
        Linked (fun p => (d.mem p).map Pair.next) d.membersList list ∧
        BackLinked (fun p => (d.mem p).map Pair.prev) none list ∧
        (∀ i < hashSize, ∃ start, d.members[i]? = some start ∧
          Linked (fun p => (d.mem p).map Pair.hashNext) start (chain i)) ∧
        (∀ p, p ∈ list ↔ ∃ i < hashSize, p ∈ chain i) ∧
        (d.freePairInUse = true ↔ .freePair ∈ list) := by
  have hnew : Refines (V := V) hashSize (some (DictT.getNewDictFull hashSize)) fun _ => none :=
    ⟨_, [], rfl, rfl, DictT.getNewDictFull_holds hpos hroom, rfl⟩
  obtain ⟨d, l, hrun, rfl, hd, hmap⟩ := run_refines hnew hfits
  refine ⟨d, hrun, fun key => hmap ▸ hd.dictGet_eq key, ?_, l.map Node.ptr,
    fun i => (l.filter (inChain d.hashSize i)).map Node.ptr, hd.ptrs, hd.list, hd.back, hd.chains,
    fun p => ⟨fun hp => ?_, fun hp => ?_⟩, hd.inUse⟩
  · rw [← hmap, ncard_toMap hd.keys, hd.count]
  · obtain ⟨n, hn, rfl⟩ := mem_map.mp hp
    refine ⟨slot d.hashSize n.key, hd.slot_lt n.key, mem_map_of_mem ?_⟩
    exact mem_filter.mpr ⟨hn, inChain_self ..⟩
  · obtain ⟨i, -, hp⟩ := hp
    exact (filter_sublist.map _).subset hp

end

/-- Two keys in one of three chains and one in another; the first is replaced, the second goes. -/
theorem dict_refines_map_three_chains : ∃ d,
    runAll dictStep [.set [0x61] 1 true, .set [0x61, 0x61] 2 false, .set [0x61, 0x64] 3 true,
        .set [0x61] 4 true, .del [0x61, 0x61], .foreachRemove fun _ v => v == 3]
      (some (DictT.getNewDictFull 3)) = some d ∧ d.dictGet [0x61] = some (some 4) ∧
      d.dictGet [0x61, 0x61] = some none ∧ d.dictGet [0x61, 0x64] = some none := by
  have hfits : Throughout mapStep (Fits 3) [.set [0x61] 1 true, .set [0x61, 0x61] 2 false,
      .set [0x61, 0x64] 3 true, .set [0x61] 4 true, .del [0x61, 0x61],
      .foreachRemove fun _ v => v == 3] fun _ => none :=
    ⟨⟨.inr (by decide), .inl rfl⟩, ⟨.inr (by decide), .inr (by decide)⟩,
      ⟨.inr (by decide), .inl rfl⟩, ⟨.inr (by decide), .inl rfl⟩, trivial, trivial, trivial⟩
  obtain ⟨d, hrun, hget, -⟩ := dict_refines_map (by decide) (by decide) hfits
  exact ⟨d, hrun, (hget _).trans (by decide), (hget _).trans (by decide),
    (hget _).trans (by decide)⟩

/-- Among three chains, `name` is set in the first and looked up in the second. A key that is added
twice is counted twice, and has its first value again after it has been deleted. -/
theorem dict_not_map :
    (let ops : List (DictOp Nat) := [.set [0x6e, 0x61, 0x6d, 0x65] 1 true];
      (runAll dictStep ops (some (DictT.getNewDictFull 3))).bind
          (fun d => d.dictGet [0x6e, 0x61, 0x6d, 0x65]) = some none ∧
        runAll mapStep ops (fun _ => none) [0x6e, 0x61, 0x6d, 0x65] = some 1) ∧
    (let ops : List (DictOp Nat) := [.set [0x61] 1 false, .set [0x61] 2 false];
      (runAll dictStep ops (some (DictT.getNewDictFull 1))).map (fun d => d.count) = some 2 ∧
        (runAll dictStep (ops ++ [.del [0x61]]) (some (DictT.getNewDictFull 1))).bind
          (fun d => d.dictGet [0x61]) = some (some 1) ∧
        runAll mapStep (ops ++ [.del [0x61]]) (fun _ => none) [0x61] = none) := by
  decide

end TagItGluster.Libglusterfs
