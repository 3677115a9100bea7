import Mathlib.Algebra.Ring.Int.Defs
import Mathlib.Data.List.Perm.Subperm
import TagItGluster.Base.Linked
import TagItGluster.Libglusterfs.Pairs

/-!
# The pairs of a stored dictionary

The pairs of a dictionary are those of its list of members, newest first, and the chain of each hash
has those of them with that hash, in the same order. A key is found if one of the pairs has it, and
pairs can be changed, added and taken out.
-/

namespace TagItGluster.Libglusterfs

open Base List Function

/-- A pair with the pointer to it. -/
structure Node (V : Type) where
  ptr : Ptr
  key : Key
  value : V

section

variable {V : Type}

/-- The finite map of a list of pairs. -/
def toMap (l : List (Node V)) (key : Key) : Option V :=
  (l.find? fun n => decide (n.key = key)).map Node.value

variable {l : List (Node V)}

/-- Taking out pairs with different keys. -/
lemma find?_filter (hkeys : (l.map Node.key).Nodup) (p : Node V → Bool) (key : Key) :
    (l.filter p).find? (fun n => decide (n.key = key)) =
      (l.find? fun n => decide (n.key = key)).filter p := by
  induction l with
  | nil => rfl
  | cons n l ih =>
    obtain ⟨hnew, hkeys⟩ := nodup_cons.mp hkeys
    by_cases hkey : n.key = key
    · have hnone : (l.filter p).find? (fun n => decide (n.key = key)) = none := by
        refine find?_eq_none.mpr fun n' hn' heq => hnew ?_
        rw [hkey, ← of_decide_eq_true heq]
        exact mem_map_of_mem (mem_of_mem_filter hn')
      rw [find?_cons_of_pos (by simpa using hkey), filter_cons]
      split
      · next hp =>
        rw [find?_cons_of_pos (by simpa using hkey), Option.filter_some_pos hp]
      · next hp => rw [hnone, Option.filter_some_neg (Bool.eq_false_iff.mpr hp)]
    · rw [find?_cons_of_neg (by simpa using hkey), ← ih hkeys, filter_cons]
      split
      · rw [find?_cons_of_neg (by simpa using hkey)]
      · rfl

lemma toMap_eq_none {key : Key} : toMap l key = none ↔ key ∉ l.map Node.key := by
  simp [toMap]

lemma toMap_cons {n : Node V} : toMap (n :: l) = update (toMap l) n.key (some n.value) := by
  funext key
  by_cases hkey : key = n.key
  · rw [hkey, update_self, toMap, find?_cons_of_pos (by simp)]
    rfl
  · rw [update_of_ne hkey, toMap, find?_cons_of_neg (by simpa using Ne.symm hkey)]
    rfl

/-- The value of a key is replaced. -/
def setValue (key : Key) (value : V) (n : Node V) : Node V :=
  if n.key = key then { n with value := value } else n

private lemma setValue_key (key : Key) (value : V) (n : Node V) :
    (setValue key value n).key = n.key := by
  unfold setValue
  split <;> rfl

private lemma setValue_ptr (key : Key) (value : V) (n : Node V) :
    (setValue key value n).ptr = n.ptr := by
  unfold setValue
  split <;> rfl

lemma toMap_setValue {key : Key} (value : V) (h : key ∈ l.map Node.key) :
    toMap (l.map (setValue key value)) = update (toMap l) key (some value) := by
  funext k
  rw [toMap, find?_map]
  simp only [comp_def, setValue_key]
  cases hfind : l.find? fun n => decide (n.key = k) with
  | none =>
    have hk : k ≠ key := by
      rintro rfl
      exact toMap_eq_none.not_left.mpr h (by rw [toMap, hfind]; rfl)
    rw [update_of_ne hk, toMap, hfind]
    rfl
  | some n =>
    have hn : n.key = k := by simpa using find?_some hfind
    by_cases hk : k = key
    · rw [hk]
      simp [setValue, hn, hk]
    · rw [update_of_ne hk, toMap, hfind]
      simp [setValue, hn, hk]

end

/-- The place of a key where it is looked up. -/
def slot (hashSize : Nat) (key : Key) : Nat := (superFastHash key).toNat % hashSize

/-- The pair belongs into the chain `i`. -/
def inChain {V : Type} (hashSize i : Nat) (n : Node V) : Bool := decide (slot hashSize n.key = i)

lemma inChain_self {V : Type} (hashSize : Nat) (n : Node V) :
    inChain hashSize (slot hashSize n.key) n = true := decide_eq_true rfl

namespace DictT

variable {V : Type} {d : DictT V} {l : List (Node V)}

/-- The dictionary has these pairs, newest first. -/
structure Holds (d : DictT V) (l : List (Node V)) : Prop where
  size_pos : 0 < d.hashSize
  room : d.hashSize ≤ d.members.length
  ptrs : (l.map Node.ptr).Nodup
  keys : (l.map Node.key).Nodup
  cells : ∀ n ∈ l, (d.mem n.ptr).map (fun pair => (pair.key, pair.value)) = some (n.key, n.value)
  list : Linked (fun p => (d.mem p).map Pair.next) d.membersList (l.map Node.ptr)
  back : BackLinked (fun p => (d.mem p).map Pair.prev) none (l.map Node.ptr)
  chains : ∀ i < d.hashSize, ∃ start, d.members[i]? = some start ∧
    Linked (fun p => (d.mem p).map Pair.hashNext) start
      ((l.filter (inChain d.hashSize i)).map Node.ptr)
  count : d.count = l.length
  inUse : d.freePairInUse = true ↔ .freePair ∈ l.map Node.ptr
  fresh : ∀ id, .heap id ∈ l.map Node.ptr → id < d.fresh

variable {n : Node V} {p : Ptr} {ps : List Ptr} {key : Key} {i : Nat}

section

variable (h : d.Holds l)
include h

lemma Holds.cell (hn : n ∈ l) :
    ∃ pair, d.mem n.ptr = some pair ∧ pair.key = n.key ∧ pair.value = n.value := by
  obtain ⟨pair, hpair, heq⟩ := Option.map_eq_some_iff.mp (h.cells n hn)
  exact ⟨pair, hpair, congrArg Prod.fst heq, congrArg Prod.snd heq⟩

private lemma Holds.isSome_mem (hp : p ∈ l.map Node.ptr) : (d.mem p).isSome := by
  obtain ⟨n, hn, rfl⟩ := mem_map.mp hp
  obtain ⟨pair, hpair, -⟩ := h.cell hn
  rw [hpair]
  rfl

lemma Holds.hashval_eq (key : Key) : d.hashval key = some (slot d.hashSize key) := by
  unfold hashval slot
  split
  · next hone => rw [hone, Nat.mod_one]
  · rw [if_neg (ne_of_gt h.size_pos)]

lemma Holds.slot_lt (key : Key) : slot d.hashSize key < d.hashSize :=
  Nat.mod_lt _ h.size_pos

end

/-- There are enough steps for a walk along all pairs. -/
lemma length_lt_steps (hptrs : ps.Nodup) (hfresh : ∀ id, .heap id ∈ ps → id < d.fresh) :
    ps.length < d.steps := by
  let num : Ptr → Nat := fun
    | .freePair => 0
    | .heap id => id + 1
  have hinj : Function.Injective num := by
    intro p q hpq
    cases p <;> cases q <;> simp_all [num]
  have hsub : ps.map num ⊆ List.range (d.fresh + 1) := by
    intro k hk
    obtain ⟨p, hp, rfl⟩ := mem_map.mp hk
    cases p with
    | freePair => simp [num]
    | heap id => simpa [num] using hfresh id hp
  have hlen := ((hptrs.map hinj).subperm hsub).length_le
  rw [length_map, length_range] at hlen
  exact Nat.lt_succ_of_le hlen

lemma Holds.length_lt (h : d.Holds l) : l.length < d.steps := by
  rw [← length_map]
  exact length_lt_steps h.ptrs h.fresh

/-- A walk with enough fuel along pairs that are where they should be. -/
inductive Walk (mem : Ptr → Option (Pair V)) (next : Pair V → Option Ptr) :
    Nat → Option Ptr → List (Node V) → Prop
  | nil {fuel : Nat} : Walk mem next (fuel + 1) none []
  | cons {fuel : Nat} {n : Node V} {pair : Pair V} {c : List (Node V)}
      (hpair : mem n.ptr = some pair) (hkey : pair.key = n.key) (hvalue : pair.value = n.value)
      (hrest : Walk mem next fuel (next pair) c) : Walk mem next (fuel + 1) (some n.ptr) (n :: c)

variable {fuel : Nat} {start : Option Ptr} {c : List (Node V)}

lemma walk_of_linked {next : Pair V → Option Ptr}
    (hcells : ∀ n ∈ c, (d.mem n.ptr).map (fun pair => (pair.key, pair.value)) =
      some (n.key, n.value))
    (hlink : Linked (fun p => (d.mem p).map next) start (c.map Node.ptr))
    (hfuel : c.length < fuel) : Walk d.mem next fuel start c := by
  induction c generalizing fuel start with
  | nil =>
    obtain ⟨fuel, rfl⟩ := Nat.exists_eq_succ_of_ne_zero (ne_of_gt hfuel)
    obtain rfl : start = none := hlink
    exact .nil
  | cons n c ih =>
    obtain ⟨fuel, rfl⟩ := Nat.exists_eq_succ_of_ne_zero (ne_of_gt (Nat.zero_lt_of_lt hfuel))
    obtain ⟨rfl, q, hq, hlink⟩ := hlink
    obtain ⟨hn, hcells⟩ := forall_mem_cons.mp hcells
    obtain ⟨pair, hpair, heq⟩ := Option.map_eq_some_iff.mp hn
    obtain rfl : next pair = q := by simpa [hpair] using hq
    exact .cons hpair (congrArg Prod.fst heq) (congrArg Prod.snd heq)
      (ih hcells hlink (Nat.lt_of_succ_lt_succ hfuel))

/-- A walk along a chain finds the pair with the key. -/
lemma lookupFrom_eq (h : Walk d.mem Pair.hashNext fuel start c) : lookupFrom d.mem key fuel start =
      some ((c.find? fun n => decide (n.key = key)).map Node.ptr) := by
  induction h with
  | nil => rfl
  | cons hpair hkey _ _ ih =>
    rw [lookupFrom, hpair, Option.bind_some, hkey]
    split
    · next h => rw [find?_cons_of_pos (by simpa using h)]; rfl
    · next h =>
      rw [find?_cons_of_neg (by simpa using h)]
      exact ih

/-- Among the pairs in the chain of its hash, a key is found as among all. -/
lemma find?_chain (key : Key) : (l.filter (inChain d.hashSize (slot d.hashSize key))).find?
        (fun n => decide (n.key = key)) =
      l.find? fun n => decide (n.key = key) := by
  rw [List.find?_filter]
  congr 1
  funext n
  by_cases h : n.key = key <;> simp [h, inChain]

lemma Holds.walk (h : d.Holds l) (key : Key) :
    ∃ start, d.members[slot d.hashSize key]? = some start ∧ Walk d.mem Pair.hashNext d.steps start
      (l.filter (inChain d.hashSize (slot d.hashSize key))) := by
  obtain ⟨start, hstart, hlink⟩ := h.chains _ (h.slot_lt key)
  refine ⟨start, hstart, walk_of_linked (fun n hn => h.cells n (mem_of_mem_filter hn)) hlink ?_⟩
  exact lt_of_le_of_lt (length_filter_le ..) h.length_lt

lemma Holds.dictLookup_eq (h : d.Holds l) (key : Key) :
    d.dictLookup key = some ((l.find? fun n => decide (n.key = key)).map Node.ptr) := by
  obtain ⟨start, hstart, hwalk⟩ := h.walk key
  rw [dictLookup, h.hashval_eq, Option.bind_some, hstart, ← find?_chain]
  exact lookupFrom_eq hwalk

lemma Holds.dictGet_eq (h : d.Holds l) (key : Key) : d.dictGet key = some (toMap l key) := by
  rw [dictGet, h.dictLookup_eq, toMap]
  cases hfind : l.find? fun n => decide (n.key = key) with
  | none => rfl
  | some n =>
    obtain ⟨pair, hpair, -, hvalue⟩ := h.cell (mem_of_find?_eq_some hfind)
    simp [hpair, hvalue]

/-- What is left when a pair has been changed. -/
lemma adjust_eq (f : Pair V → Pair V) (p : Option Ptr) (mem : Ptr → Option (Pair V))
    (h : ∀ q, p = some q → (mem q).isSome) :
    ∃ mem', adjust f p mem = some mem' ∧
      ∀ x, mem' x = (mem x).map fun pair => if p = some x then f pair else pair := by
  cases p with
  | none => exact ⟨mem, rfl, fun x => by simp⟩
  | some q =>
    obtain ⟨pair, hpair⟩ := Option.isSome_iff_exists.mp (h q rfl)
    refine ⟨update mem q (some (f pair)), by rw [adjust, hpair]; rfl, fun x => ?_⟩
    by_cases hx : x = q
    · subst hx
      simp [hpair]
    · rw [update_of_ne hx]
      simp [Ne.symm hx]

/-- A field that is not changed. -/
lemma adjust_other {α : Type} {f : Pair V → Pair V} {p : Option Ptr} {x : Ptr}
    {mem mem' : Ptr → Option (Pair V)}
    (h : mem' x = (mem x).map fun pair => if p = some x then f pair else pair)
    (g : Pair V → α) (hg : ∀ pair, g (f pair) = g pair) : (mem' x).map g = (mem x).map g := by
  rw [h, Option.map_map]
  congr 1
  funext pair
  split
  · exact hg pair
  · rfl

lemma find?_key (hkeys : (l.map Node.key).Nodup) (hn : n ∈ l) :
    l.find? (fun n' => decide (n'.key = n.key)) = some n := by
  cases hfind : l.find? fun n' => decide (n'.key = n.key) with
  | none => exact absurd (decide_eq_true rfl) (find?_eq_none.mp hfind n hn)
  | some n' =>
    have hkey : n'.key = n.key := by simpa using find?_some hfind
    rw [inj_on_of_nodup_map hkeys (mem_of_find?_eq_some hfind) hn hkey]

/-- `dict_set` replaces the value of a key that is there. -/
lemma Holds.replace (h : d.Holds l) (hn : n ∈ l) (value : V) :
    ∃ d', d.dictSet n.key value true = some d' ∧ d'.hashSize = d.hashSize ∧
      d'.Holds (l.map (setValue n.key value)) := by
  obtain ⟨pair, hpair, hkey, -⟩ := h.cell hn
  obtain ⟨mem, hmem, hview⟩ := adjust_eq (fun pair => { pair with value := value }) (some n.ptr)
    d.mem fun q hq => by rw [← Option.some.inj hq, hpair]; rfl
  refine ⟨{ d with mem := mem }, ?_, rfl, ?_⟩
  · rw [dictSet, h.dictLookup_eq, find?_key h.keys hn]
    exact congrArg (Option.map _) hmem
  have hptrs : (l.map (setValue n.key value)).map Node.ptr = l.map Node.ptr := by
    rw [map_map]
    exact map_congr_left fun n' _ => setValue_ptr ..
  have hkeys : (l.map (setValue n.key value)).map Node.key = l.map Node.key := by
    rw [map_map]
    exact map_congr_left fun n' _ => setValue_key ..
  refine ⟨h.size_pos, h.room, hptrs ▸ h.ptrs, hkeys ▸ h.keys, ?_, ?_, ?_, ?_, ?_, ?_, ?_⟩
  · intro n₁ hn₁
    obtain ⟨n₀, hn₀, rfl⟩ := mem_map.mp hn₁
    obtain ⟨pair₀, hpair₀, hkey₀, hvalue₀⟩ := h.cell hn₀
    rw [setValue_ptr]
    show (mem n₀.ptr).map _ = _
    rw [hview, hpair₀]
    by_cases heq : n₀.key = n.key
    · obtain rfl := inj_on_of_nodup_map h.keys hn₀ hn heq
      simp [setValue, hkey₀]
    · have hne : n.ptr ≠ n₀.ptr := fun hp => heq
        (congrArg Node.key (inj_on_of_nodup_map h.ptrs hn hn₀ hp).symm)
      simp [setValue, heq, hne, hkey₀, hvalue₀]
  · rw [hptrs]
    exact h.list.frame fun x _ => adjust_other (hview x) _ fun _ => rfl
  · rw [hptrs]
    exact h.back.frame fun x _ => adjust_other (hview x) _ fun _ => rfl
  · intro i hi
    obtain ⟨start, hstart, hlink⟩ := h.chains i hi
    refine ⟨start, hstart, ?_⟩
    rw [filter_map, map_map]
    simp only [comp_def, inChain, setValue_key, setValue_ptr]
    exact hlink.frame fun x _ => adjust_other (hview x) _ fun _ => rfl
  · rw [length_map]
    exact h.count
  · rw [hptrs]
    exact h.inUse
  · rw [hptrs]
    exact h.fresh

/-- The pointer to the pair that is added next. -/
def newPtr (d : DictT V) : Ptr := if d.freePairInUse then .heap d.fresh else .freePair

section

variable (huse : d.freePairInUse ↔ .freePair ∈ ps)
include huse

lemma newPtr_notMem (hfresh : ∀ id, .heap id ∈ ps → id < d.fresh) : d.newPtr ∉ ps := by
  intro hmem
  unfold newPtr at hmem
  split at hmem
  · exact lt_irrefl _ (hfresh _ hmem)
  · next hfree => exact hfree (huse.mpr hmem)

lemma freePair_mem_cons : .freePair ∈ d.newPtr :: ps := by
  unfold newPtr
  split
  · next hused => exact mem_cons_of_mem _ (huse.mp hused)
  · exact mem_cons_self

end

lemma heap_mem_cons (hfresh : ∀ id, .heap id ∈ ps → id < d.fresh) {id : Nat}
    (hid : .heap id ∈ d.newPtr :: ps) : id < if d.freePairInUse then d.fresh + 1 else d.fresh := by
  rcases mem_cons.mp hid with heq | hid
  · unfold newPtr at heq
    split at heq
    · next hused =>
      rw [if_pos hused, Ptr.heap.inj heq]
      exact Nat.lt_succ_self _
    · cases heq
  · have := hfresh id hid
    split <;> omega

/-- What is stored when a pair has been added. -/
lemma addPair_eq {start : Option Ptr} (value : V) (hslot : d.setHashval key = some i)
    (hstart : d.members[i]? = some start) (hnew : d.newPtr ∉ ps)
    (hfirst : ∀ q, d.membersList = some q → q ∈ ps) (hsome : ∀ q ∈ ps, (d.mem q).isSome) :
    ∃ mem, d.addPair key value = some { d with
        members := d.members.set i (some d.newPtr)
        membersList := some d.newPtr
        count := d.count + 1
        freePairInUse := true
        mem := mem
        fresh := if d.freePairInUse then d.fresh + 1 else d.fresh } ∧
      mem d.newPtr = some
        { hashNext := start, prev := none, next := d.membersList, value := value, key := key } ∧
      ∀ x ∈ ps, mem x = (d.mem x).map fun pair =>
        if d.membersList = some x then { pair with prev := some d.newPtr } else pair := by
  have hne : ∀ x ∈ ps, x ≠ d.newPtr := fun x hx heq => hnew (heq ▸ hx)
  let pair : Pair V :=
    { hashNext := start, prev := none, next := d.membersList, value := value, key := key }
  obtain ⟨mem, hmem, hview⟩ := adjust_eq (fun pair => { pair with prev := some d.newPtr })
    d.membersList (update d.mem d.newPtr (some pair)) fun q hq => by
      rw [update_of_ne (hne q (hfirst q hq))]
      exact hsome q (hfirst q hq)
  refine ⟨mem, ?_, ?_, fun x hx => ?_⟩
  · rw [addPair, hslot, Option.bind_some, hstart]
    exact congrArg (Option.map _) hmem
  · rw [hview, update_self, Option.map_some, if_neg fun heq => hnew (hfirst _ heq)]
  · rw [hview, update_of_ne (hne x hx)]

/-- A new pair is put in front of the list of members and of the chain of its hash. -/
lemma Holds.add (h : d.Holds l) (hnew : key ∉ l.map Node.key) (value : V)
    (hslot : d.setHashval key = some (slot d.hashSize key)) :
    ∃ d' p, d.addPair key value = some d' ∧ d'.hashSize = d.hashSize ∧
      d'.Holds (⟨p, key, value⟩ :: l) := by
  obtain ⟨start, hstart, hlink⟩ := h.chains _ (h.slot_lt key)
  have hp := newPtr_notMem h.inUse h.fresh
  obtain ⟨mem, hadd, hself, hold⟩ := addPair_eq value hslot hstart hp
    (fun q hq => mem_of_head? (h.list.start_eq.symm.trans hq)) fun q hq => h.isSome_mem hq
  refine ⟨_, d.newPtr, hadd, rfl, h.size_pos, by rw [length_set]; exact h.room,
    nodup_cons.mpr ⟨hp, h.ptrs⟩, nodup_cons.mpr ⟨hnew, h.keys⟩, ?_, ?_, ?_, ?_, ?_, ?_,
    ?_⟩
  · refine forall_mem_cons.mpr ⟨congrArg (Option.map _) hself, fun n hn => ?_⟩
    rw [← h.cells n hn]
    exact adjust_other (hold _ (mem_map_of_mem hn)) _ fun _ => rfl
  · refine ⟨rfl, d.membersList, congrArg (Option.map _) hself, h.list.frame fun x hx => ?_⟩
    exact adjust_other (hold x hx) _ fun _ => rfl
  · refine h.back.push (congrArg (Option.map _) hself) ?_ ?_ h.ptrs
    · intro b hb
      obtain ⟨pair', hpair'⟩ := Option.isSome_iff_exists.mp (h.isSome_mem (mem_of_head? hb))
      dsimp only
      rw [hold b (mem_of_head? hb), hpair', Option.map_some, if_pos (h.list.start_eq.trans hb)]
      rfl
    · intro x hx hnot
      dsimp only
      rw [hold x hx]
      rw [← h.list.start_eq] at hnot
      simp [hnot]
  · intro i hi
    by_cases hkey : slot d.hashSize key = i
    · subst hkey
      refine ⟨some d.newPtr, getElem?_set_self (lt_of_lt_of_le hi h.room), ?_⟩
      rw [filter_cons_of_pos (inChain_self d.hashSize ⟨d.newPtr, key, value⟩)]
      refine ⟨rfl, start, congrArg (Option.map _) hself, hlink.frame fun x hx => ?_⟩
      obtain ⟨n, hn, rfl⟩ := mem_map.mp hx
      exact adjust_other (hold _ (mem_map_of_mem (mem_of_mem_filter hn))) _ fun _ => rfl
    · obtain ⟨start', hstart', hlink'⟩ := h.chains i hi
      refine ⟨start', (getElem?_set_ne hkey).trans hstart', ?_⟩
      rw [filter_cons_of_neg (by simpa [inChain] using hkey)]
      refine hlink'.frame fun x hx => ?_
      obtain ⟨n, hn, rfl⟩ := mem_map.mp hx
      exact adjust_other (hold _ (mem_map_of_mem (mem_of_mem_filter hn))) _ fun _ => rfl
  · rw [length_cons, Nat.cast_succ, ← h.count]
  · exact iff_of_true rfl (freePair_mem_cons h.inUse)
  · exact fun id hid => heap_mem_cons h.fresh hid

/-- What is stored when a pair has been taken out. -/
lemma unlink_eq {prev : Option Ptr} {pair : Pair V} (hhash : ∀ q, prev = some q → (d.mem q).isSome)
    (hlast : ∀ q, pair.prev = some q → (d.mem q).isSome)
    (hfirst : ∀ q, pair.next = some q → (d.mem q).isSome) :
    ∃ mem, d.unlink i prev p pair = some { d with
        members := if prev = none then d.members.set i pair.hashNext else d.members
        membersList := if pair.prev = none then pair.next else d.membersList
        count := d.count - 1
        freePairInUse := if p = .freePair then false else d.freePairInUse
        mem := update mem p none } ∧
      ∀ x, mem x = (d.mem x).map fun pair' => { pair' with
        hashNext := if prev = some x then pair.hashNext else pair'.hashNext
        next := if pair.prev = some x then pair.next else pair'.next
        prev := if pair.next = some x then pair.prev else pair'.prev } := by
  obtain ⟨mem₁, hmem₁, hview₁⟩ := adjust_eq (fun pair' => { pair' with hashNext := pair.hashNext })
    prev d.mem hhash
  obtain ⟨mem₂, hmem₂, hview₂⟩ := adjust_eq (fun pair' => { pair' with next := pair.next })
    pair.prev mem₁ fun q hq => by
      rw [hview₁, Option.isSome_map]
      exact hlast q hq
  obtain ⟨mem₃, hmem₃, hview₃⟩ := adjust_eq (fun pair' => { pair' with prev := pair.prev })
    pair.next mem₂ fun q hq => by
      rw [hview₂, hview₁, Option.isSome_map, Option.isSome_map]
      exact hfirst q hq
  refine ⟨mem₃, by rw [DictT.unlink, hmem₁, Option.bind_some, hmem₂, Option.bind_some, hmem₃]; rfl,
    fun x => ?_⟩
  rw [hview₃, hview₂, hview₁, Option.map_map, Option.map_map]
  split <;> split <;> split <;> rfl

/-- No pair is in two chains. -/
lemma Holds.chain_unique (h : d.Holds l) {j : Nat}
    (hi : p ∈ (l.filter (inChain d.hashSize i)).map Node.ptr)
    (hj : p ∈ (l.filter (inChain d.hashSize j)).map Node.ptr) : i = j := by
  obtain ⟨n₁, hn₁, rfl⟩ := mem_map.mp hi
  obtain ⟨n₂, hn₂, heq⟩ := mem_map.mp hj
  obtain ⟨hmem₁, hslot₁⟩ := mem_filter.mp hn₁
  obtain ⟨hmem₂, hslot₂⟩ := mem_filter.mp hn₂
  obtain rfl := inj_on_of_nodup_map h.ptrs hmem₂ hmem₁ heq
  exact (of_decide_eq_true hslot₁).symm.trans (of_decide_eq_true hslot₂)

/-- A pair is taken out of the list of members and of the chain of its hash. -/
lemma Holds.unlink {as bs : List (Node V)} (h : d.Holds (as ++ n :: bs)) {pair : Pair V}
    (hpair : d.mem n.ptr = some pair) {prev : Option Ptr}
    (hprev : ((as.filter (inChain d.hashSize (slot d.hashSize n.key))).map Node.ptr).getLast? =
      prev) :
    ∃ d', d.unlink (slot d.hashSize n.key) prev n.ptr pair = some d' ∧
      d'.hashSize = d.hashSize ∧ d'.Holds (as ++ bs) := by
  have hptrs := h.ptrs
  have hlist := h.list
  have hback := h.back
  obtain ⟨start, hstart, hchain⟩ := h.chains _ (h.slot_lt n.key)
  have hchainptrs := h.ptrs.sublist ((filter_sublist
    (p := inChain d.hashSize (slot d.hashSize n.key))).map Node.ptr)
  rw [filter_append, filter_cons_of_pos (inChain_self ..), map_append] at hchain hchainptrs
  rw [map_append] at hptrs hlist hback
  obtain ⟨hself, hptrs'⟩ := nodup_cons.mp (nodup_middle.mp hptrs)
  have hhash : pair.hashNext =
      ((bs.filter (inChain d.hashSize (slot d.hashSize n.key))).map Node.ptr).head? := by
    simpa [hpair] using hchain.next_eq
  have hnext : pair.next = (bs.map Node.ptr).head? := by simpa [hpair] using hlist.next_eq
  have hbefore : pair.prev = (as.map Node.ptr).getLast? := by
    simpa [hpair] using hback.prev_eq
  have hrest : as ++ bs ⊆ as ++ n :: bs := fun n' hn' =>
    mem_append.mpr ((mem_append.mp hn').imp_right (mem_cons_of_mem _))
  have hsome : ∀ x ∈ as.map Node.ptr ++ bs.map Node.ptr, ∃ pair', d.mem x = some pair' := by
    intro x hx
    rw [← map_append] at hx
    exact Option.isSome_iff_exists.mp (h.isSome_mem (map_subset _ hrest hx))
  have hchained : ∀ q, prev = some q →
      q ∈ (as.filter (inChain d.hashSize (slot d.hashSize n.key))).map Node.ptr := fun q hq =>
    mem_of_getLast? (hprev.trans hq)
  obtain ⟨mem, hunlink, hview⟩ := d.unlink_eq
    (fun q hq => Option.isSome_iff_exists.mpr (hsome q (mem_append_left _
      ((filter_sublist.map _).subset (hchained q hq)))))
    (fun q hq => Option.isSome_iff_exists.mpr (hsome q (mem_append_left _
      (mem_of_getLast? (hbefore.symm.trans hq)))))
    (fun q hq => Option.isSome_iff_exists.mpr (hsome q (mem_append_right _
      (mem_of_head? (hnext.symm.trans hq)))))
  have hmem : ∀ x ∈ as.map Node.ptr ++ bs.map Node.ptr,
      update mem n.ptr none x = mem x := by
    intro x hx
    refine update_of_ne ?_ _ _
    rintro rfl
    exact hself hx
  refine ⟨_, hunlink, rfl, h.size_pos, ?_, ?_, ?_, ?_, ?_, ?_, ?_, ?_, ?_, ?_⟩
  · split
    · rw [length_set]
      exact h.room
    · exact h.room
  · rw [map_append]
    exact hptrs'
  · have hkeys := h.keys
    rw [map_append] at hkeys
    rw [map_append]
    exact (nodup_cons.mp (nodup_middle.mp hkeys)).2
  · intro n' hn'
    dsimp only
    rw [hmem _ (map_append ▸ mem_map_of_mem hn'), hview, Option.map_map]
    exact h.cells n' (hrest hn')
  · have hremove : Linked (fun x => (mem x).map Pair.next)
        (if as.map Node.ptr = [] then (bs.map Node.ptr).head? else d.membersList)
        (as.map Node.ptr ++ bs.map Node.ptr) := by
      refine hlist.remove hptrs (fun a ha => ?_) fun x _ hx => ?_
      · obtain ⟨pair', hpair'⟩ := hsome a (mem_append_left _ (mem_of_getLast? ha))
        rw [hview, hpair', Option.map_some, Option.map_some, if_pos (hbefore.trans ha), hnext]
      · rw [hview]
        simp [comp_def, if_neg (hbefore ▸ hx)]
    have hfirst : (if pair.prev = none then pair.next else d.membersList) =
        if as.map Node.ptr = [] then (bs.map Node.ptr).head? else d.membersList := by
      rw [hbefore, hnext]
      simp [getLast?_eq_none_iff]
    rw [map_append, hfirst]
    exact hremove.frame fun x hx => congrArg (Option.map _) (hmem x hx)
  · have hremove : BackLinked (fun x => (mem x).map Pair.prev) none
        (as.map Node.ptr ++ bs.map Node.ptr) := by
      refine hback.remove hptrs (fun b hb => ?_) fun x _ hx => ?_
      · obtain ⟨pair', hpair'⟩ := hsome b (mem_append_right _ (mem_of_head? hb))
        rw [hview, hpair', Option.map_some, Option.map_some, if_pos (hnext.trans hb), hbefore,
          Option.or_none]
      · rw [hview]
        simp [comp_def, if_neg (hnext ▸ hx)]
    rw [map_append]
    exact hremove.frame fun x hx => congrArg (Option.map _) (hmem x hx)
  · intro i hi
    have hsubset : ((as.filter (inChain d.hashSize i)).map Node.ptr ++
        (bs.filter (inChain d.hashSize i)).map Node.ptr) ⊆
        as.map Node.ptr ++ bs.map Node.ptr :=
      ((filter_sublist.map _).append (filter_sublist.map _)).subset
    have hothers : ∀ x, prev ≠ some x →
        (mem x).map Pair.hashNext = (d.mem x).map Pair.hashNext := by
      intro x hx
      rw [hview]
      simp [comp_def, if_neg hx]
    rw [filter_append, map_append]
    by_cases hown : slot d.hashSize n.key = i
    · subst hown
      refine ⟨_, ?_, (hchain.remove hchainptrs (fun a ha => ?_) fun x _ hx =>
        hothers x (hprev ▸ hx)).frame fun x hx => congrArg (Option.map _) (hmem x (hsubset hx))⟩
      on_goal 2 =>
        obtain ⟨pair', hpair'⟩ := hsome a (hsubset (mem_append_left _ (mem_of_getLast? ha)))
        rw [hview, hpair', Option.map_some, Option.map_some, if_pos (hprev ▸ ha), hhash]
      split
      · next hnone =>
        rw [if_pos (getLast?_eq_none_iff.mp (hprev.trans hnone)), ← hhash]
        exact getElem?_set_self (lt_of_lt_of_le hi h.room)
      · next hsomeprev =>
        rw [if_neg fun hnil => hsomeprev (hprev.symm.trans (getLast?_eq_none_iff.mpr hnil))]
        exact hstart
    · obtain ⟨start', hstart', hlink'⟩ := h.chains i hi
      have hskip : (as ++ n :: bs).filter (inChain d.hashSize i) =
          as.filter (inChain d.hashSize i) ++ bs.filter (inChain d.hashSize i) := by
        rw [filter_append, filter_cons_of_neg (by simpa [inChain] using hown)]
      rw [hskip, map_append] at hlink'
      refine ⟨start', ?_, hlink'.frame fun x hx => ?_⟩
      · split
        · rw [getElem?_set_ne hown]
          exact hstart'
        · exact hstart'
      -- The pair before the one that is taken out is in another chain.
      have hother : prev ≠ some x := by
        intro hx'
        refine hown (h.chain_unique (p := x) ?_ ?_)
        · rw [filter_append, map_append]
          exact mem_append_left _ (hchained x hx')
        · rw [hskip, map_append]
          exact hx
      dsimp only
      rw [hmem x (hsubset hx)]
      exact hothers x hother
  · dsimp only
    rw [h.count, length_append, length_append, length_cons]
    omega
  · rw [map_append]
    dsimp only
    split
    · next hfree => exact iff_of_false nofun (hfree ▸ hself)
    · next hheap =>
      rw [h.inUse, map_append, map_cons, mem_append, mem_append,
        mem_cons, or_iff_right (Ne.symm hheap)]
  · exact fun id hid => h.fresh id (map_subset _ hrest hid)

end DictT

end TagItGluster.Libglusterfs
