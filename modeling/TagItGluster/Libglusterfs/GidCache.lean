import TagItGluster.Base.Machine

/-!
# The cache of group lists

A bucket of the cache has four slots, which are filled from the first one on. A new list takes the
place of the one for its id, or of the first one if the bucket is full, and moves behind the others.
Line numbers: `libglusterfs/src/gidcache.c`.
-/

namespace TagItGluster.Libglusterfs

open Base List Function

/-- `gid_list_t`. A slot without a list is free. -/
structure GidList (L : Type) where
  glId : Nat
  glUid : Nat
  glGid : Nat
  glCount : Int
  glList : Option L
  glDeadline : Int

/-- `gid_cache_t` with its buckets. `added` is a record of the calls: the list that was last added
for each id. -/
structure GidCache (L : Type) where
  gcMaxAge : Nat
  gcCache : Nat → List (GidList L)
  added : Nat → Option (GidList L)

/-- A call, with the time at which it is made. -/
inductive GidCall (L : Type) where
  | reconf (timeout : Nat)
  | add (gl : GidList L) (now : Int)
  | lookup (id uid gid : Nat) (now : Int)

/-- `AUX_GID_CACHE_ASSOC`. -/
def auxGidCacheAssoc : Nat := 4

/-- `AUX_GID_CACHE_BUCKETS`. -/
def auxGidCacheBuckets : Nat := 256

namespace GidList

variable {L : Type}

/-- A slot after `gid_cache_init`. -/
def zero : GidList L := ⟨0, 0, 0, 0, none, 0⟩

/-- The last loop of `gid_cache_add`, from the slot to be filled on: the slots with lists behind it
move by one. -/
def slide (gl : GidList L) : List (GidList L) → List (GidList L)
  | [] => []
  | [_] => [gl]
  | _ :: a :: slots => if a.glList.isSome then a :: slide gl (a :: slots) else gl :: a :: slots

/-- The search of `gid_cache_add` for the slot to be filled: one that is free or has the id. -/
def fillFrom (gl : GidList L) : List (GidList L) → Option (List (GidList L))
  | [] => none
  | a :: slots =>
    if a.glId = gl.glId ∨ ¬ a.glList.isSome then some (gl.slide (a :: slots))
    else (gl.fillFrom slots).map (a :: ·)

/-- What `gid_cache_add` does to a bucket. If it is full, the first slot is filled. -/
def fill (gl : GidList L) (slots : List (GidList L)) : List (GidList L) :=
  (gl.fillFrom slots).getD (gl.slide slots)

end GidList

namespace GidCache

variable {L : Type}

/-- `gid_cache_init` (24). -/
def init (timeout : Nat) : GidCache L :=
  ⟨timeout, fun _ => replicate auxGidCacheAssoc .zero, fun _ => none⟩

/-- `gid_cache_lookup` (57). -/
def gidCacheLookup (c : GidCache L) (id uid gid : Nat) (now : Int) : Option (GidList L) :=
  match (c.gcCache (id % auxGidCacheBuckets)).find? fun a => a.glList.isSome && a.glId = id with
  | none => none
  | some a =>
    if a.glUid ≠ uid ∨ a.glGid ≠ gid then none else if now < a.glDeadline then some a else none

/-- A list with its deadline is added. -/
def enter (gl : GidList L) (c : GidCache L) : GidCache L :=
  let bucket := gl.glId % auxGidCacheBuckets
  { c with
    gcCache := update c.gcCache bucket (gl.fill (c.gcCache bucket))
    added := update c.added gl.glId (some gl) }

/-- `gid_cache_add` (118), with what it returns. -/
def gidCacheAdd (gl : GidList L) (now : Int) (c : GidCache L) : Int × GidCache L :=
  if gl.glList.isNone then (-1, c)
  else if c.gcMaxAge = 0 then (0, c)
  else (1, c.enter { gl with glDeadline := now + c.gcMaxAge })

/-- One call. -/
def step : GidCall L → GidCache L → GidCache L
  | .reconf timeout, c => { c with gcMaxAge := timeout }
  | .add gl now, c => (c.gidCacheAdd gl now).2
  | .lookup .., c => c

end GidCache

/-! ### Buckets -/

namespace GidList

variable {L : Type} {gl a : GidList L} {slots r : List (GidList L)}

/-- In a bucket, a list stands behind lists of other ids only. -/
def Apart (a b : GidList L) : Prop := b.glList.isSome → a.glList.isSome ∧ a.glId ≠ b.glId

/-- The bucket `r` has a new list, and of the slots those with other ids. -/
structure Renewed (gl : GidList L) (slots r : List (GidList L)) : Prop where
  apart : r.Pairwise Apart
  mem : ∀ x ∈ r, x = gl ∨ (x ∈ slots ∧ (x.glList.isSome → x.glId ≠ gl.glId))

private lemma Renewed.cons (h : Renewed gl slots r) (ha : a.glList.isSome) (hid : a.glId ≠ gl.glId)
    (hslots : ∀ x ∈ slots, Apart a x) : Renewed gl (a :: slots) (a :: r) := by
  refine ⟨pairwise_cons.mpr ⟨?_, h.apart⟩, ?_⟩
  · intro x hx
    rcases h.mem x hx with rfl | ⟨hx, -⟩
    · exact fun _ => ⟨ha, hid⟩
    · exact hslots x hx
  · intro x hx
    rcases mem_cons.mp hx with rfl | hx
    · exact .inr ⟨mem_cons_self, fun _ => hid⟩
    · exact (h.mem x hx).imp_right fun ⟨hx, hne⟩ => ⟨mem_cons_of_mem _ hx, hne⟩

private lemma renewed_slide (gl a : GidList L) (h : slots.Pairwise Apart)
    (hids : ∀ x ∈ slots, x.glList.isSome → x.glId ≠ gl.glId) :
    Renewed gl slots (gl.slide (a :: slots)) := by
  induction slots generalizing a with
  | nil => exact ⟨pairwise_singleton _ _, fun x hx => .inl (mem_singleton.mp hx)⟩
  | cons b slots ih =>
    obtain ⟨hb, hslots⟩ := pairwise_cons.mp h
    obtain ⟨hid, hids'⟩ := forall_mem_cons.mp hids
    rw [slide]
    split
    next hsome => exact (ih b hslots hids').cons hsome (hid hsome) hb
    next hfree =>
      refine ⟨pairwise_cons.mpr ⟨fun x hx hsome => ?_, h⟩, fun x hx => ?_⟩
      · rcases mem_cons.mp hx with rfl | hx
        · exact absurd hsome hfree
        · exact absurd (hb x hx hsome).1 hfree
      · exact (mem_cons.mp hx).imp_right fun hx => ⟨hx, hids x hx⟩

private lemma renewed_fillFrom (h : slots.Pairwise Apart) (hr : gl.fillFrom slots = some r) :
    Renewed gl slots r := by
  induction slots generalizing r with
  | nil => cases hr
  | cons a slots ih =>
    obtain ⟨ha, hslots⟩ := pairwise_cons.mp h
    rw [fillFrom] at hr
    split at hr
    next hfound =>
      obtain rfl := Option.some.inj hr
      have hnew := renewed_slide gl a hslots (by grind [Apart])
      exact ⟨hnew.apart, fun x hx => (hnew.mem x hx).imp_right (.imp_left (mem_cons_of_mem _))⟩
    next hnot =>
      obtain ⟨r', hr', rfl⟩ := Option.map_eq_some_iff.mp hr
      rw [not_or, not_not] at hnot
      exact (ih hslots hr').cons hnot.2 hnot.1 ha

private lemma fillFrom_none (h : gl.fillFrom slots = none) : ∀ x ∈ slots, x.glId ≠ gl.glId := by
  induction slots with
  | nil => simp
  | cons a slots ih =>
    rw [fillFrom] at h
    split at h
    · cases h
    next hnot =>
      exact forall_mem_cons.mpr ⟨fun heq => hnot (.inl heq), ih (Option.map_eq_none_iff.mp h)⟩

private lemma renewed_fill (gl : GidList L) (h : slots.Pairwise Apart) :
    Renewed gl slots (gl.fill slots) := by
  cases hr : gl.fillFrom slots with
  | some r =>
    rw [fill, hr]
    exact renewed_fillFrom h hr
  | none =>
    rw [fill, hr]
    cases slots with
    | nil => exact ⟨.nil, nofun⟩
    | cons a slots =>
      have hids := fillFrom_none hr
      have hnew := renewed_slide gl a (pairwise_cons.mp h).2
        fun x hx _ => hids x (mem_cons_of_mem _ hx)
      exact ⟨hnew.apart, fun x hx => (hnew.mem x hx).imp_right (.imp_left (mem_cons_of_mem _))⟩

end GidList

namespace GidCache

variable {L : Type}

/-- What holds between calls. -/
def Inv (c : GidCache L) : Prop :=
  ∀ b, (c.gcCache b).Pairwise GidList.Apart ∧ ∀ a ∈ c.gcCache b, a.glList.isSome →
    a.glId % auxGidCacheBuckets = b ∧ c.added a.glId = some a

private lemma Inv.enter {c : GidCache L} (h : c.Inv) (gl : GidList L) : (c.enter gl).Inv := by
  intro b
  by_cases hb : b = gl.glId % auxGidCacheBuckets
  · subst hb
    have hnew := GidList.renewed_fill gl (h (gl.glId % auxGidCacheBuckets)).1
    rw [show (c.enter gl).gcCache _ = _ from update_self ..]
    refine ⟨hnew.apart, fun a ha hsome => ?_⟩
    rcases hnew.mem a ha with rfl | ⟨ha, hne⟩
    · exact ⟨rfl, update_self ..⟩
    · obtain ⟨hbucket, hadded⟩ := (h _).2 a ha hsome
      exact ⟨hbucket, (update_of_ne (hne hsome) ..).trans hadded⟩
  · rw [show (c.enter gl).gcCache b = _ from update_of_ne hb ..]
    refine ⟨(h b).1, fun a ha hsome => ?_⟩
    obtain ⟨hbucket, hadded⟩ := (h b).2 a ha hsome
    refine ⟨hbucket, (update_of_ne ?_ ..).trans hadded⟩
    intro heq
    exact hb (heq ▸ hbucket.symm)

private lemma Inv.step {c : GidCache L} (h : c.Inv) (call : GidCall L) :
    (GidCache.step call c).Inv := by
  cases call with
  | reconf timeout => exact h
  | lookup id uid gid now => exact h
  | add gl now =>
    show (c.gidCacheAdd gl now).2.Inv
    unfold gidCacheAdd
    split_ifs
    · exact h
    · exact h
    · exact h.enter _

/-- For every list of calls: no id has two lists in the cache, and a look-up returns only the list
that was last added for its id, for the same uid and gid, before its deadline. -/
theorem lookup_fresh (timeout : Nat) (calls : List (GidCall L)) :
    let c := runAll step calls (init timeout)
    (∀ (b b' i j : Nat) (a a' : GidList L), (c.gcCache b)[i]? = some a →
      (c.gcCache b')[j]? = some a' →
      a.glList.isSome → a'.glList.isSome → a.glId = a'.glId → b = b' ∧ i = j) ∧
    ∀ id uid gid now a, c.gidCacheLookup id uid gid now = some a →
      c.added id = some a ∧ a.glUid = uid ∧ a.glGid = gid ∧ now < a.glDeadline := by
  have hinit : (init timeout : GidCache L).Inv := by
    refine fun b => ⟨?_, fun a ha => ?_⟩
    · exact pairwise_replicate.mpr (.inr nofun)
    · rw [eq_of_mem_replicate ha]
      exact nofun
  have h := runAll_always step Inv (fun call _ h => h.step call) calls hinit
  generalize runAll step calls (init timeout) = c at h
  constructor
  · intro b b' i j a a' ha ha' hsome hsome' hid
    obtain rfl : b = b' := by
      rw [← ((h b).2 a (mem_of_getElem? ha) hsome).1,
        ← ((h b').2 a' (mem_of_getElem? ha') hsome').1,
        hid]
    obtain ⟨hi, rfl⟩ := List.getElem?_eq_some_iff.mp ha
    obtain ⟨hj, rfl⟩ := List.getElem?_eq_some_iff.mp ha'
    have happart := pairwise_iff_getElem.mp (h b).1
    rcases Nat.lt_trichotomy i j with hlt | rfl | hlt
    · exact absurd hid (happart i j hi hj hlt hsome').2
    · exact ⟨rfl, rfl⟩
    · exact absurd hid.symm (happart j i hj hi hlt hsome).2
  · intro id uid gid now a ha
    unfold gidCacheLookup at ha
    split at ha
    · cases ha
    next a' hfind =>
      split_ifs at ha with hids hnow
      obtain rfl : a' = a := Option.some.inj ha
      obtain ⟨hsome, hid⟩ : a'.glList.isSome ∧ a'.glId = id := by simpa using find?_some hfind
      rw [not_or, not_not, not_not] at hids
      exact ⟨hid ▸ ((h _).2 a' (mem_of_find?_eq_some hfind) hsome).2, hids.1, hids.2, hnow⟩

end GidCache

end TagItGluster.Libglusterfs
