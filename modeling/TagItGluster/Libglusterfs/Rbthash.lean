import TagItGluster.Base.Machine

/-!
# Hash tables of red-black trees

An entry is put into the tree of its bucket, and then at the end of the list of the table. A tree
holds one item of each key, and `rb_probe` returns the item that is there; it fails where it has
no memory for a new one. Entries are told apart by a number. Line numbers:
`libglusterfs/src/rbthash.c`.
-/

namespace TagItGluster.Libglusterfs

open Base List Function

/-- `rbthash_entry_t`. -/
structure RbthashEntry (D : Type) where
  id : Nat
  key : List UInt8
  data : D

/-- The part of a `rbthash_table_t` that stays. -/
structure RbthashConf where
  numbuckets : Nat
  hashfunc : List UInt8 → Nat

/-- The items of each tree, the list, and the number of the next entry. `inserted` is a record of
what the calls were for: the data of the last insert of a key that has returned 0, unless the key
was removed. -/
structure RbthashTable (D : Type) where
  buckets : Nat → List (RbthashEntry D)
  list : List (RbthashEntry D)
  next : Nat
  inserted : List UInt8 → Option D

/-- A call, with what it gets from the allocator. -/
inductive RbthashCall (D : Type) where
  | insert (key : List UInt8) (data : D) (allocated probed : Bool)
  | remove (key : List UInt8)
  | get (key : List UInt8)

/-- `rbthash_key_bucket` (316) and `rbthash_entry_bucket` (235). -/
def RbthashConf.keyBucket (c : RbthashConf) (key : List UInt8) : Nat :=
  c.hashfunc key % c.numbuckets

namespace RbthashTable

variable {D : Type} (c : RbthashConf)

/-- An empty table. -/
def init : RbthashTable D := ⟨fun _ => [], [], 0, fun _ => none⟩

/-- `rb_find` (rb.c:68), in the tree of the key. -/
def find (t : RbthashTable D) (key : List UInt8) : Option (RbthashEntry D) :=
  (t.buckets (c.keyBucket key)).find? (·.key = key)

/-- `rbthash_get` (334). -/
def rbthashGet (t : RbthashTable D) (key : List UInt8) : Option D := (t.find c key).map (·.data)

/-- `rbthash_insert` (280). An entry that was not inserted is freed, and put into the list. -/
def rbthashInsert (key : List UInt8) (data : D) (allocated probed : Bool) (t : RbthashTable D) :
    RbthashTable D :=
  if !allocated then t
  else
    let entry : RbthashEntry D := ⟨t.next, key, data⟩
    let list := t.list ++ [entry]
    let inserted := update t.inserted key (some data)
    let b := c.keyBucket key
    if (t.find c key).isSome then ⟨t.buckets, list, t.next + 1, inserted⟩
    else if !probed then ⟨t.buckets, list, t.next + 1, t.inserted⟩
    else ⟨update t.buckets b (entry :: t.buckets b), list, t.next + 1, inserted⟩

/-- `rbthash_remove` (366). -/
def rbthashRemove (key : List UInt8) (t : RbthashTable D) : RbthashTable D :=
  match t.find c key with
  | none => t
  | some entry =>
    let b := c.keyBucket key
    { t with
      buckets := update t.buckets b ((t.buckets b).filter (·.key ≠ key))
      list := t.list.filter (·.id ≠ entry.id)
      inserted := update t.inserted key none }

/-- One call. -/
def step : RbthashCall D → RbthashTable D → RbthashTable D
  | .insert key data allocated probed, t => t.rbthashInsert c key data allocated probed
  | .remove key, t => t.rbthashRemove c key
  | .get _, t => t

/-- The list has the entries that are in the trees, and a look-up finds what was inserted. -/
def Consistent (t : RbthashTable D) : Prop :=
  (∀ e, e ∈ t.list ↔ ∃ b, e ∈ t.buckets b) ∧ ∀ key, t.rbthashGet c key = t.inserted key

/-- An insert finds no entry with its key, and gets the memory for its item. -/
def FreshKey : RbthashCall D → RbthashTable D → Prop
  | .insert key _ allocated probed, t => allocated → probed ∧ t.find c key = none
  | _, _ => True

/-- The second of two inserts of a key returns 0, but its entry is in the list only, and look-ups
find the data of the first one. -/
theorem second_insert_lost :
    let t : RbthashTable Nat := runAll (step ⟨4, fun _ => 0⟩)
      [.insert [1] 7 true true, .insert [1] 8 true true] init
    t.rbthashGet ⟨4, fun _ => 0⟩ [1] = some 7 ∧ t.inserted [1] = some 8 ∧
      t.list.map (·.data) = [7, 8] ∧ (t.buckets 0).map (·.data) = [7] := by
  decide

/-- The entries are in the trees of their buckets, no two have one number or one key, and their
data is what was inserted. -/
structure Inv (t : RbthashTable D) : Prop where
  placed : ∀ b e, e ∈ t.buckets b ↔ e ∈ t.list ∧ c.keyBucket e.key = b
  ids_lt : ∀ e ∈ t.list, e.id < t.next
  ids : ∀ e ∈ t.list, ∀ e' ∈ t.list, e.id = e'.id → e = e'
  keys : ∀ e ∈ t.list, ∀ e' ∈ t.list, e.key = e'.key → e = e'
  data : ∀ key d, t.inserted key = some d ↔ ∃ e ∈ t.list, e.key = key ∧ e.data = d

namespace Inv

variable {c} {t : RbthashTable D} {key : List UInt8} (h : t.Inv c)
include h

private lemma find_eq_some {e : RbthashEntry D} :
    t.find c key = some e ↔ e ∈ t.list ∧ e.key = key := by
  constructor
  · intro hfind
    have hkey := find?_some hfind
    exact ⟨((h.placed _ e).mp (mem_of_find?_eq_some hfind)).1, of_decide_eq_true hkey⟩
  rintro ⟨he, rfl⟩
  cases hfind : t.find c e.key with
  | none => simpa using find?_eq_none.mp hfind e ((h.placed _ e).mpr ⟨he, rfl⟩)
  | some e' =>
    have he' := ((h.placed _ e').mp (mem_of_find?_eq_some hfind)).1
    have hkey := find?_some hfind
    rw [h.keys e' he' e he (of_decide_eq_true hkey)]

private lemma consistent : t.Consistent c := by
  constructor
  · intro e
    simp [h.placed]
  · intro key
    ext d
    simp [rbthashGet, h.find_eq_some, h.data, and_assoc]

private lemma insert (hfresh : t.find c key = none) (d : D) :
    (t.rbthashInsert c key d true true).Inv c := by
  have hnew : ∀ e ∈ t.list, e.key ≠ key := by
    intro e he hkey
    rw [h.find_eq_some.mpr ⟨he, hkey⟩] at hfresh
    cases hfresh
  have hlt := h.ids_lt
  simp only [rbthashInsert, hfresh, Bool.not_true, Bool.false_eq_true, Option.isSome_none, if_false]
  constructor
  case placed =>
    intro b e
    have hold := h.placed b e
    by_cases hb : b = c.keyBucket key <;> grind [update_apply]
  case ids_lt => grind
  case ids => grind [h.ids]
  case keys => grind [h.keys]
  case data =>
    intro k d'
    have hold := h.data k d'
    simp only [mem_append, mem_singleton, or_and_right, exists_or, exists_eq_left, ← hold]
    by_cases hk : k = key <;> grind [update_apply]

private lemma remove : (t.rbthashRemove c key).Inv c := by
  unfold rbthashRemove
  split
  case h_1 => exact h
  case h_2 entry hfind =>
    obtain ⟨hmem, hkey⟩ := h.find_eq_some.mp hfind
    have hrest : ∀ e ∈ t.list, e.id ≠ entry.id ↔ e.key ≠ key := by
      intro e he
      have hid := h.ids e he entry hmem
      have hkeys := h.keys e he entry hmem
      grind
    constructor <;> simp only [mem_filter, decide_eq_true_eq]
    case placed =>
      intro b e
      have hold := h.placed b e
      by_cases hb : b = c.keyBucket key <;> grind [update_apply]
    case ids_lt => exact fun e he => h.ids_lt e he.1
    case ids => grind [h.ids]
    case keys => grind [h.keys]
    case data =>
      intro k d
      grind [h.data k d, update_apply]

end Inv

/-- In every run where an insert finds no entry with its key, and gets its memory, the list and
the trees have the same entries, and look-ups find what was inserted. -/
theorem consistent_of_fresh_keys (calls : List (RbthashCall D))
    (hfresh : Throughout (step c) (FreshKey c) calls init) :
    (runAll (step c) calls init).Consistent c := by
  have hinit : (init : RbthashTable D).Inv c := by
    constructor <;> simp [init]
  refine (runAll_inv (step c) (Inv c) ?_ hinit hfresh).consistent
  intro call t h hcall
  cases call with
  | insert key data allocated probed =>
    cases allocated with
    | false => exact h
    | true =>
      obtain ⟨rfl, hnone⟩ := hcall rfl
      exact h.insert hnone data
  | remove key => exact h.remove
  | get key => exact h

theorem consistent_after_remove :
    let calls : List (RbthashCall Nat) :=
      [.insert [1] 7 true true, .insert [2] 8 true true, .remove [1], .insert [1] 9 true true]
    (runAll (step ⟨4, fun _ => 0⟩) calls init).Consistent ⟨4, fun _ => 0⟩ := by
  refine consistent_of_fresh_keys _ _ ?_
  simp only [Throughout, FreshKey]
  decide

end RbthashTable

end TagItGluster.Libglusterfs
