import Mathlib.Data.List.Nodup

/-!
# Upcalls: cache invalidation

A client list is walked once: the entry of the calling client is renewed, every recent client is
notified, and entries that are too old or could not be notified are removed. The clock is read once
for a call, and `fails` says which notifications fail. Line numbers:
`xlators/features/upcall/src/upcall-internal.c`.
-/

namespace TagItGluster.Upcall

open List

/-- `upcall_client_t`. -/
structure UpcallClient (U : Type) where
  clientUid : U
  accessTime : Int
  expireTimeAttr : Int
  deriving DecidableEq

/-- The clients of an inode, each one once. -/
structure ClientList (U : Type) where
  entries : List (UpcallClient U)
  nodup : (entries.map (·.clientUid)).Nodup

/-- What a call of `upcall_cache_invalidate` reads. -/
structure Invalidation (U : Type) where
  client : U
  flags : UInt32
  now : Int
  timeout : Int
  fails : U → Bool

/-- `UP_ATIME`. -/
def upAtime : UInt32 := 0x20

namespace Invalidation

variable {U : Type} [DecidableEq U] (c : Invalidation U)

/-- `t_expired`. -/
def expired (e : UpcallClient U) : Int := c.now - e.accessTime

/-- `upcall_client_cache_invalidate` (561): the notifications, and whether the entry stays. The
trace of an entry that is too old reads its name after it is freed (`upcall-internal.c:608–615`). -/
def upcallClientCacheInvalidate (e : UpcallClient U) : List U × Bool :=
  if c.expired e < c.timeout then ([e.clientUid], !c.fails e.clientUid)
  else ([], !decide (c.expired e > 2 * c.timeout))

/-- The calling client accesses the inode now. -/
def touch (e : UpcallClient U) : UpcallClient U :=
  if c.client = e.clientUid then { e with accessTime := c.now } else e

/-- The loop of `upcall_cache_invalidate`: whether the client was found, the notifications, and
the entries that stay. -/
def walk : Bool → List (UpcallClient U) → Bool × List U × List (UpcallClient U)
  | found, [] => (found, [], [])
  | found, e :: es =>
    let found := found || c.client = e.clientUid
    if c.flags &&& ~~~upAtime = 0 then
      if found then (found, [], c.touch e :: es)
      else
        let r := walk found es
        (r.1, r.2.1, c.touch e :: r.2.2)
    else
      let sent := c.upcallClientCacheInvalidate (c.touch e)
      let r := walk found es
      (r.1, sent.1 ++ r.2.1, if sent.2 then c.touch e :: r.2.2 else r.2.2)

/-- `upcall_cache_invalidate` (476), with `__add_upcall_client` (115): the notifications and the
list. -/
def upcallCacheInvalidate (l : List (UpcallClient U)) : List U × List (UpcallClient U) :=
  let r := c.walk false l
  (r.2.1, if r.1 then r.2.2 else r.2.2 ++ [⟨c.client, c.now, c.timeout⟩])

/-- Every other recent client gets one notification, and no one else; the calling client has one
entry, of now; other entries that were notified or are not too old stay. -/
def Correct (l : List (UpcallClient U)) : Prop :=
  let r := c.upcallCacheInvalidate l
  (r.1.Nodup ∧ ∀ u, u ∈ r.1 ↔ u ≠ c.client ∧ ∃ e ∈ l, e.clientUid = u ∧ c.expired e < c.timeout) ∧
  ((r.2.map (·.clientUid)).Nodup ∧ ∃ e ∈ r.2, e.clientUid = c.client ∧ e.accessTime = c.now) ∧
  ∀ e ∈ l, e.clientUid ≠ c.client →
    (e.clientUid ∈ r.1 ∧ !c.fails e.clientUid) ∨ c.expired e ≤ 2 * c.timeout → e ∈ r.2

/-- A client that writes is notified of its own write. If that fails, it has no entry any more. -/
theorem caller_notified :
    let c : Invalidation Nat := ⟨1, 1, 10, 60, fun u => u = 1⟩
    let l : List (UpcallClient Nat) := [⟨1, 5, 60⟩, ⟨2, 7, 60⟩]
    c.upcallCacheInvalidate l = ([1, 2], [⟨2, 7, 60⟩]) ∧ ¬c.Correct l := by
  intro c l
  have hout : c.upcallCacheInvalidate l = ([1, 2], [⟨2, 7, 60⟩]) := by decide
  refine ⟨hout, fun h => ?_⟩
  have hother := ((h.1.2 1).mp (by rw [hout]; decide)).1
  exact hother rfl

section

variable {c} {l : List (UpcallClient U)} {e : UpcallClient U}

@[simp] lemma clientUid_touch (e : UpcallClient U) : (c.touch e).clientUid = e.clientUid := by
  unfold touch
  split <;> rfl

private lemma touch_of_ne (h : e.clientUid ≠ c.client) : c.touch e = e := if_neg h.symm

private lemma expired_touch (h : e.clientUid = c.client) : c.expired (c.touch e) = 0 := by
  simp [expired, touch, h]

/-- What the walk does to the entries one by one. -/
lemma walk_eq (hflags : c.flags &&& ~~~upAtime ≠ 0) (found : Bool) :
    c.walk found l = (found || c.client ∈ l.map (·.clientUid),
      ((l.map c.touch).filter (c.expired · < c.timeout)).map (·.clientUid),
      (l.map c.touch).filter fun e => (c.upcallClientCacheInvalidate e).2) := by
  induction l generalizing found with
  | nil => simp [walk]
  | cons e es ih =>
    simp only [walk, hflags, if_false, ih, map_cons, filter_cons, mem_cons]
    by_cases hrecent : c.expired (c.touch e) < c.timeout <;>
      simp [upcallClientCacheInvalidate, hrecent, Bool.or_assoc]

private lemma uids_sublist (p : UpcallClient U → Bool) :
    (((l.map c.touch).filter p).map (·.clientUid)).Sublist (l.map (·.clientUid)) := by
  have h : (l.map c.touch).map (·.clientUid) = l.map (·.clientUid) := by simp
  exact h ▸ filter_sublist.map _

variable (hflags : c.flags &&& ~~~upAtime ≠ 0)
include hflags

private lemma mem_sent {u : U} : u ∈ (c.upcallCacheInvalidate l).1 ↔
    ∃ e ∈ l, c.expired (c.touch e) < c.timeout ∧ e.clientUid = u := by
  simp [upcallCacheInvalidate, walk_eq hflags, and_assoc]

private lemma mem_kept : e ∈ (c.upcallCacheInvalidate l).2 ↔
    ((∃ e' ∈ l, c.touch e' = e) ∧ (c.upcallClientCacheInvalidate e).2) ∨
      (c.client ∉ l.map (·.clientUid) ∧ e = ⟨c.client, c.now, c.timeout⟩) := by
  simp only [upcallCacheInvalidate, walk_eq hflags, Bool.false_or, decide_eq_true_eq]
  split
  next h => simp [h]
  next h => simp [h]

private lemma nodup_kept (hl : (l.map (·.clientUid)).Nodup) :
    ((c.upcallCacheInvalidate l).2.map (·.clientUid)).Nodup := by
  simp only [upcallCacheInvalidate, walk_eq hflags, Bool.false_or, decide_eq_true_eq]
  split
  · exact hl.sublist (uids_sublist _)
  next h =>
    rw [map_append]
    refine (hl.sublist (uids_sublist _)).append (nodup_singleton _) ?_
    exact disjoint_singleton.mpr fun hmem => h ((uids_sublist _).subset hmem)

end

/-- For every client list, call and flags other than `UP_ATIME` alone: the calling client must not
be in the list, unless nobody is recent, and the notifications of recent clients must not fail. -/
theorem correct_iff (hflags : c.flags &&& ~~~upAtime ≠ 0) (l : ClientList U) :
    c.Correct l.entries ↔ (c.client ∈ l.entries.map (·.clientUid) → c.timeout = 0) ∧
      ∀ e ∈ l.entries, e.clientUid ≠ c.client → c.expired e < c.timeout →
        c.expired e ≤ 2 * c.timeout → !c.fails e.clientUid := by
  have hsent : (c.upcallCacheInvalidate l.entries).1.Nodup := by
    rw [upcallCacheInvalidate, walk_eq hflags]
    exact l.nodup.sublist (uids_sublist _)
  have hother : ∀ e ∈ l.entries, e.clientUid ≠ c.client →
      (e ∈ (c.upcallCacheInvalidate l.entries).2 ↔ (c.upcallClientCacheInvalidate e).2) := by
    intro e he hne
    rw [mem_kept hflags, and_iff_right ⟨e, he, touch_of_ne hne⟩, or_iff_left]
    rintro ⟨-, rfl⟩
    exact hne rfl
  constructor
  · rintro ⟨⟨-, hnotified⟩, ⟨-, e, he, huid, hnow⟩, hstay⟩
    constructor
    · intro hmem
      obtain ⟨e₀, he₀, huid₀⟩ := mem_map.mp hmem
      have hle : ¬ 0 < c.timeout := by
        intro hpos
        rw [← expired_touch huid₀] at hpos
        exact ((hnotified _).mp ((mem_sent hflags).mpr ⟨e₀, he₀, hpos, huid₀⟩)).1 rfl
      rcases (mem_kept hflags).mp he with ⟨-, hkept⟩ | ⟨hnot, -⟩
      · simp [upcallClientCacheInvalidate, expired, hnow, hle] at hkept
        omega
      · exact absurd hmem hnot
    · intro e he hne hrecent hage
      have hkept := (hother e he hne).mp (hstay e he hne (.inr hage))
      simpa [upcallClientCacheInvalidate, hrecent] using hkept
  · rintro ⟨hcaller, hfails⟩
    have hmem : ∀ u, u ∈ (c.upcallCacheInvalidate l.entries).1 ↔
        u ≠ c.client ∧ ∃ e ∈ l.entries, e.clientUid = u ∧ c.expired e < c.timeout := by
      intro u
      rw [mem_sent hflags]
      constructor
      · rintro ⟨e, he, hrecent, rfl⟩
        have hne : e.clientUid ≠ c.client := by
          intro huid
          rw [expired_touch huid, hcaller (mem_map.mpr ⟨e, he, huid⟩)] at hrecent
          exact absurd hrecent (by decide)
        exact ⟨hne, e, he, rfl, touch_of_ne hne ▸ hrecent⟩
      · rintro ⟨hne, e, he, rfl, hrecent⟩
        exact ⟨e, he, (touch_of_ne hne).symm ▸ hrecent, rfl⟩
    refine ⟨⟨hsent, hmem⟩, ⟨nodup_kept hflags l.nodup, ?_⟩, ?_⟩
    · by_cases hmem : c.client ∈ l.entries.map (·.clientUid)
      · obtain ⟨e, he, huid⟩ := mem_map.mp hmem
        refine ⟨c.touch e, (mem_kept hflags).mpr (.inl ⟨⟨e, he, rfl⟩, ?_⟩), ?_⟩
        · simp [upcallClientCacheInvalidate, expired_touch huid, hcaller hmem]
        · simp [touch, huid]
      · exact ⟨_, (mem_kept hflags).mpr (.inr ⟨hmem, rfl⟩), rfl, rfl⟩
    · intro e he hne hstay
      rw [hother e he hne, upcallClientCacheInvalidate]
      have hage : c.expired e < c.timeout ∨ c.expired e ≤ 2 * c.timeout := by
        refine hstay.imp_left fun h => ?_
        obtain ⟨-, e', he', huid, hrecent⟩ := (hmem _).mp h.1
        rwa [← inj_on_of_nodup_map l.nodup he' he huid]
      have := hfails e he hne
      grind

theorem correct_two_others : Correct ⟨1, 1, 10, 60, fun u => u = 3⟩ [⟨2, 7, 60⟩, ⟨3, -90, 60⟩] :=
  (correct_iff _ (by decide) ⟨[⟨2, 7, 60⟩, ⟨3, -90, 60⟩], by decide⟩).mpr (by decide)

end Invalidation

end TagItGluster.Upcall
