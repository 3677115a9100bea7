import TagItGluster.Base.Arcs

/-!
# Layouts of a directory

The layout of a directory gives each subvolume a range of the 32-bit hash space, in which
`dht_layout_search` looks a hash up. `dht_layout_sort` sorts the entries by their start, with
zeroed ones in front, and `dht_layout_anomalies` looks for holes and overlaps between the
ranges that take part, with a bound in 32 bits. The entries that take part have no hole and no
overlap exactly if their ranges are a chain that comes back to the start of the first entry. Line
numbers: `xlators/cluster/dht/src/dht-layout.c`.
-/

namespace TagItGluster.Dht

open Base

/-- An entry of `dht_layout_t`; its commit hash is not read here. -/
structure LayoutEntry (ξ : Type) where
  err : Int
  start : UInt32
  stop : UInt32
  xlator : ξ
deriving DecidableEq

/-- `dht_layout_t`, with at least one entry and one entry for each subvolume. -/
structure Layout (ξ : Type) where
  list : List (LayoutEntry ξ)
  ne : list ≠ []
  distinct : (list.map LayoutEntry.xlator).Nodup

variable {ξ : Type}

/-- `dht_layout_entry_cmp` (476). -/
def dhtLayoutEntryCmp (e e' : LayoutEntry ξ) : Int :=
  if e'.start = 0 ∧ e'.stop = 0 then (e.stop.toNat : Int) - e'.stop.toNat
  else (e.start.toNat : Int) - e'.start.toNat

/-- Inner loop of `dht_layout_sort`: the entry in front is compared with one after the other and
swapped with each that belongs in front of it. -/
def sortInner (e : LayoutEntry ξ) : List (LayoutEntry ξ) → LayoutEntry ξ × List (LayoutEntry ξ)
  | [] => (e, [])
  | e' :: l =>
    if 0 < dhtLayoutEntryCmp e e' then ((sortInner e' l).1, e :: (sortInner e' l).2)
    else ((sortInner e l).1, e' :: (sortInner e l).2)

/-- Outer loop of `dht_layout_sort`, for a number of entries. -/
def sortOuter : Nat → List (LayoutEntry ξ) → List (LayoutEntry ξ)
  | 0, l => l
  | _ + 1, [] => []
  | n + 1, e :: l => (sortInner e l).1 :: sortOuter n (sortInner e l).2

lemma sortInner_perm (e : LayoutEntry ξ) (l : List (LayoutEntry ξ)) :
    ((sortInner e l).1 :: (sortInner e l).2).Perm (e :: l) := by
  induction l generalizing e with
  | nil => exact .rfl
  | cons e' l ih =>
    unfold sortInner
    split
    · exact (List.Perm.swap e _ _).trans ((ih e').cons e)
    · exact ((List.Perm.swap e' _ _).trans ((ih e).cons e')).trans (List.Perm.swap e e' l)

lemma sortOuter_perm (n : Nat) (l : List (LayoutEntry ξ)) : (sortOuter n l).Perm l := by
  induction n generalizing l with
  | zero => exact .rfl
  | succ n ih =>
    cases l with
    | nil => exact .rfl
    | cons e l => exact ((ih _).cons _).trans (sortInner_perm e l)

/-- `dht_layout_sort` (495). -/
def dhtLayoutSort (layout : Layout ξ) : Layout ξ where
  list := sortOuter layout.list.length layout.list
  ne := fun h => layout.ne (List.Perm.eq_nil (h ▸ (sortOuter_perm _ _).symm))
  distinct := ((sortOuter_perm _ _).map _).nodup_iff.mpr layout.distinct

/-- `ENOENT`. -/
def enoent : Int := 2

/-- `ESTALE`. -/
def estale : Int := 116

/-- `ENOTCONN`. -/
def enotconn : Int := 107

/-- `ENOSPC`. -/
def enospc : Int := 28

/-- What `dht_layout_anomalies` counts. There are fewer than `2 ^ 31` entries, so that none of
the counters overflows. -/
structure Anomalies where
  holes : Nat
  overlaps : Nat
  missing : Nat
  down : Nat
  misc : Nat
  noSpace : Nat

/-- The variables of the loop of `dht_layout_anomalies`. -/
structure Scan extends Anomalies where
  prevStop : UInt32
  isVirgin : Bool

/-- One round of the loop. An entry without an error whose range starts where it stops does not
take part. -/
def scanEntry (s : Scan) (e : LayoutEntry ξ) : Scan :=
  if e.err = -1 ∨ e.err = enoent ∨ e.err = estale then { s with missing := s.missing + 1 }
  else if e.err = enotconn then { s with down := s.down + 1 }
  else if e.err = enospc then { s with noSpace := s.noSpace + 1 }
  else if e.err = 0 then
    if e.start = e.stop then s
    else { s with
      isVirgin := false
      holes := s.holes + if s.prevStop + 1 < e.start then 1 else 0
      overlaps := s.overlaps + if e.start < s.prevStop + 1 then 1 else 0
      prevStop := e.stop }
  else { s with misc := s.misc + 1 }

/-- The loop of `dht_layout_anomalies`, from the bound before the first entry. -/
def scanEntries (lastStop : UInt32) (l : List (LayoutEntry ξ)) : Scan :=
  l.foldl scanEntry ⟨⟨0, 0, 0, 0, 0, 0⟩, lastStop, true⟩

/-- `dht_layout_anomalies` (536). -/
def dhtLayoutAnomalies (layout : Layout ξ) : Anomalies :=
  let lastStop := (layout.list.head layout.ne).start - 1
  let s := scanEntries lastStop layout.list
  { s.toAnomalies with
    holes := s.holes + if lastStop - s.prevStop ≠ 0 ∨ s.isVirgin then 1 else 0 }

/-- The hash is in the range of the entry. -/
def Contains (hash : UInt32) (e : LayoutEntry ξ) : Prop := e.start ≤ hash ∧ hash ≤ e.stop

instance (hash : UInt32) (e : LayoutEntry ξ) : Decidable (Contains hash e) :=
  inferInstanceAs (Decidable (_ ∧ _))

/-- `dht_layout_search` (164), once the hash of the name has been computed. -/
def dhtLayoutSearch (layout : Layout ξ) (hash : UInt32) : Option ξ :=
  (layout.list.find? (fun e => Contains hash e)).map LayoutEntry.xlator

/-- The entry takes part: it has no error, and is not a non-participating one, which starts where
it stops. -/
def LayoutEntry.Participates (e : LayoutEntry ξ) : Prop := e.err = 0 ∧ e.start ≠ e.stop

instance (e : LayoutEntry ξ) : Decidable e.Participates := inferInstanceAs (Decidable (_ ∧ _))

/-- The entries that take part. -/
def participating (l : List (LayoutEntry ξ)) : List (LayoutEntry ξ) :=
  l.filter (fun e => e.Participates)

/-- No hole and no overlap. -/
def Healthy (layout : Layout ξ) : Prop :=
  (dhtLayoutAnomalies layout).holes = 0 ∧ (dhtLayoutAnomalies layout).overlaps = 0

instance (layout : Layout ξ) : Decidable (Healthy layout) := inferInstanceAs (Decidable (_ ∧ _))

/-- The ranges partition the hash space: every hash is in one of them, and no hash in two. -/
def PartitionsHashSpace (l : List (LayoutEntry ξ)) : Prop :=
  (∀ hash, ∃ e ∈ l, Contains hash e) ∧
    l.Pairwise (fun e e' => ∀ hash, ¬(Contains hash e ∧ Contains hash e'))

end TagItGluster.Dht
