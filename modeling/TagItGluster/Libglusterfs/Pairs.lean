import TagItGluster.Libglusterfs.Dict

/-!
# Dictionaries as they are stored

Each pair of a `dict_t` is in the list of all members and in the chain of its hash. The first pair
is stored in the dictionary itself as long as it is free, all others on the heap. A step that reads
or writes outside of the memory that was allocated is not defined, and neither is a walk that does
not end. Line numbers: `libglusterfs/src/dict.c`.
-/

namespace TagItGluster.Libglusterfs

open Function

/-- A key, by its bytes. -/
abbrev Key := List UInt8

/-- `get16bits` (hashfn.c:21), on a little-endian machine. -/
def get16bits (a b : UInt8) : UInt32 := a.toUInt32 ||| b.toUInt32 <<< 8

/-- A `char` as an `int`, where `char` is signed. -/
def charToInt (c : UInt8) : UInt32 := if c < 128 then c.toUInt32 else c.toUInt32 ||| 0xffffff00

/-- The main loop of `SuperFastHash`, and the bytes it leaves. -/
def hashLoop : UInt32 → Key → UInt32 × Key
  | hash, a :: b :: c :: d :: data =>
    let hash := hash + get16bits a b
    let tmp := get16bits c d <<< 11 ^^^ hash
    let hash := hash <<< 16 ^^^ tmp
    hashLoop (hash + hash >>> 11) data
  | hash, data => (hash, data)

/-- The end cases of `SuperFastHash`. -/
def hashEnd (hash : UInt32) : Key → UInt32
  | [a, b, c] =>
    let hash := hash + get16bits a b
    let hash := hash ^^^ hash <<< 16
    let hash := hash ^^^ charToInt c <<< 18
    hash + hash >>> 11
  | [a, b] =>
    let hash := hash + get16bits a b
    let hash := hash ^^^ hash <<< 11
    hash + hash >>> 17
  | [a] =>
    let hash := hash + charToInt a
    let hash := hash ^^^ hash <<< 10
    hash + hash >>> 1
  | _ => hash

/-- `SuperFastHash` (hashfn.c:45). -/
def superFastHash (data : Key) : UInt32 :=
  if data.length ≤ 1 then 1
  else
    let r := hashLoop (.ofNat data.length) data
    let hash := hashEnd r.1 r.2
    let hash := hash ^^^ hash <<< 3
    let hash := hash + hash >>> 5
    let hash := hash ^^^ hash <<< 4
    let hash := hash + hash >>> 17
    let hash := hash ^^^ hash <<< 25
    hash + hash >>> 6

/-- A pointer to a pair: to the one in the dictionary, or to one on the heap. -/
inductive Ptr where
  | freePair
  | heap (id : Nat)
deriving DecidableEq

/-- `data_pair_t`. -/
structure Pair (V : Type) where
  hashNext : Option Ptr
  prev : Option Ptr
  next : Option Ptr
  value : V
  key : Key

/-- `dict_t`, with the memory of its pairs and the number of the next pair on the heap. -/
structure DictT (V : Type) where
  hashSize : Nat
  count : Int
  members : List (Option Ptr)
  membersList : Option Ptr
  freePairInUse : Bool
  mem : Ptr → Option (Pair V)
  fresh : Nat

namespace DictT

variable {V : Type}

/-- `get_new_dict_full` (55): there is room for one pointer, or for as many as fit in a pair. -/
def getNewDictFull (sizeHint : Nat) : DictT V where
  hashSize := sizeHint
  count := 0
  members := List.replicate (if sizeHint = 1 then 1 else 5) none
  membersList := none
  freePairInUse := false
  mem _ := none
  fresh := 0

/-- The place of a key in `members` for `_dict_lookup` and `dict_del`. -/
def hashval (d : DictT V) (key : Key) : Option Nat :=
  if d.hashSize = 1 then some 0
  else if d.hashSize = 0 then none
  else some ((superFastHash key).toNat % d.hashSize)

/-- The place of a key in `members` for `_dict_set`, which takes the hash as an `int`. -/
def setHashval (d : DictT V) (key : Key) : Option Nat :=
  if d.hashSize = 1 then some 0
  else if d.hashSize = 0 then none
  else
    let hashval := (toInt32 (superFastHash key).toNat).tmod d.hashSize
    if 0 ≤ hashval then some hashval.toNat else none

/-- The walk of `_dict_lookup` along a chain. -/
def lookupFrom (mem : Ptr → Option (Pair V)) (key : Key) : Nat → Option Ptr → Option (Option Ptr)
  | 0, _ => none
  | _ + 1, none => some none
  | fuel + 1, some p => (mem p).bind fun pair =>
    if pair.key = key then some (some p) else lookupFrom mem key fuel pair.hashNext

/-- More steps than there can be pairs. -/
def steps (d : DictT V) : Nat := d.fresh + 2

/-- `_dict_lookup` (280). -/
def dictLookup (d : DictT V) (key : Key) : Option (Option Ptr) :=
  (d.hashval key).bind fun i => d.members[i]?.bind fun start =>
    lookupFrom d.mem key d.steps start

/-- `dict_get` (466). -/
def dictGet (d : DictT V) (key : Key) : Option (Option V) :=
  (d.dictLookup key).bind fun
    | none => some none
    | some p => (d.mem p).map fun pair => some pair.value

/-- A pair is changed, if the pointer leads to one. -/
def adjust (f : Pair V → Pair V) (p : Option Ptr) (mem : Ptr → Option (Pair V)) :
    Option (Ptr → Option (Pair V)) :=
  match p with
  | none => some mem
  | some p => (mem p).map fun pair => update mem p (some (f pair))

/-- `_dict_set` (331) for a key that is not looked up or not found. -/
def addPair (d : DictT V) (key : Key) (value : V) : Option (DictT V) :=
  (d.setHashval key).bind fun i => d.members[i]?.bind fun start =>
    let p := if d.freePairInUse then .heap d.fresh else .freePair
    let pair : Pair V :=
      { hashNext := start, prev := none, next := d.membersList, value := value, key := key }
    let mem := update d.mem p (some pair)
    (adjust (fun pair => { pair with prev := some p }) d.membersList mem).map fun mem =>
      { d with
        members := d.members.set i (some p)
        membersList := some p
        count := d.count + 1
        freePairInUse := true
        mem := mem
        fresh := if d.freePairInUse then d.fresh + 1 else d.fresh }

/-- `_dict_set`: `dict_set` (420) replaces the value of a key, `dict_add` (444) does not look for
it. -/
def dictSet (d : DictT V) (key : Key) (value : V) (replace : Bool) : Option (DictT V) :=
  if replace then
    (d.dictLookup key).bind fun
      | some p =>
        (adjust (fun pair => { pair with value := value }) (some p) d.mem).map fun mem =>
          { d with mem := mem }
      | none => d.addPair key value
  else d.addPair key value

/-- `dict_del` (490) for the pair that it has found in the chain `i`, with the one before it
there. -/
def unlink (d : DictT V) (i : Nat) (prev : Option Ptr) (p : Ptr) (pair : Pair V) :
    Option (DictT V) :=
  (adjust (fun pair' => { pair' with hashNext := pair.hashNext }) prev d.mem).bind fun mem =>
  (adjust (fun pair' => { pair' with next := pair.next }) pair.prev mem).bind fun mem =>
  (adjust (fun pair' => { pair' with prev := pair.prev }) pair.next mem).map fun mem =>
    { d with
      members := if prev = none then d.members.set i pair.hashNext else d.members
      membersList := if pair.prev = none then pair.next else d.membersList
      count := d.count - 1
      freePairInUse := if p = .freePair then false else d.freePairInUse
      mem := update mem p none }

/-- The walk of `dict_del` along the chain `i`. -/
def delFrom (d : DictT V) (key : Key) (i : Nat) : Nat → Option Ptr → Option Ptr → Option (DictT V)
  | 0, _, _ => none
  | _ + 1, _, none => some d
  | fuel + 1, prev, some p => (d.mem p).bind fun pair =>
    if pair.key = key then d.unlink i prev p pair else delFrom d key i fuel (some p) pair.hashNext

/-- `dict_del`. -/
def dictDel (d : DictT V) (key : Key) : Option (DictT V) :=
  (d.hashval key).bind fun i => d.members[i]?.bind fun start => delFrom d key i d.steps none start

/-- The walk of `dict_foreach_match` along the list of members, where the action deletes the key
that is visited. -/
def foreachFrom (isMatch : Key → V → Bool) : Nat → Option Ptr → DictT V → Option (DictT V)
  | 0, _, _ => none
  | _ + 1, none, d => some d
  | fuel + 1, some p, d => (d.mem p).bind fun pair =>
    (if isMatch pair.key pair.value then d.dictDel pair.key else some d).bind
      (foreachFrom isMatch fuel pair.next)

/-- `dict_foreach_match` (1267) with `dict_remove_foreach_fn` (1223). -/
def dictForeachRemove (d : DictT V) (isMatch : Key → V → Bool) : Option (DictT V) :=
  foreachFrom isMatch d.steps d.membersList d

end DictT

/-- A call on a dictionary. -/
inductive DictOp (V : Type) where
  | set (key : Key) (value : V) (replace : Bool)
  | del (key : Key)
  | foreachRemove (isMatch : Key → V → Bool)

/-- A call on a dictionary as it is stored. -/
def dictStep {V : Type} : DictOp V → Option (DictT V) → Option (DictT V)
  | .set key value replace, d => d.bind fun d => d.dictSet key value replace
  | .del key, d => d.bind fun d => d.dictDel key
  | .foreachRemove isMatch, d => d.bind fun d => d.dictForeachRemove isMatch

/-- What a call means for a finite map. -/
def mapStep {V : Type} : DictOp V → (Key → Option V) → Key → Option V
  | .set key value _, m => update m key (some value)
  | .del key, m => update m key none
  | .foreachRemove isMatch, m => fun key => (m key).filter fun value => !isMatch key value

end TagItGluster.Libglusterfs
