import TagItGluster.Locks.Merge

/-!
# Inserting a lock sets its bytes

A lock that the walk stops at is taken out of the list. If it has the type of the lock that is
inserted, the two are merged; otherwise it is cut, and what is left of it is inserted again.
Either way the bytes come out right, by induction on the depth of the recursion.
-/

namespace TagItGluster.Locks

open List Option

variable {ω : Type} {l l' pre post : List (PosixLock ω)} {lock conf k p : PosixLock ω}

/-- A piece of `conf` that `lock` leaves over. -/
structure Remnant (lock conf p : PosixLock ω) : Prop where
  granted : p.blocked = false
  owner : p.owner = lock.owner
  type : p.flType = conf.flType
  valid : p.flStart ≤ p.flEnd
  inside : ∀ x, In x p → In x conf
  apart : ∀ x, In x p → ¬In x lock

/-- Two locks that only differ in the file and the process they come from. -/
structure Like (lock k : PosixLock ω) : Prop where
  type : k.flType = lock.flType
  start : k.flStart = lock.flStart
  stop : k.flEnd = lock.flEnd
  owner : k.owner = lock.owner
  blocked : k.blocked = lock.blocked

/-- The ways in which `conf` is cut: `lock` covers it, or leaves a piece on one side, or on
both. -/
inductive Pieces (lock conf : PosixLock ω) : List (PosixLock ω) → Prop
  | covered (mid : PosixLock ω) (hlike : Like lock mid) (hcover : ∀ x, In x conf → In x lock) :
      Pieces lock conf [mid]
  | oneSide (p : PosixLock ω) (hp : Remnant lock conf p)
      (hcover : ∀ x, In x conf → In x lock ∨ In x p) : Pieces lock conf [p, lock]
  | bothSides (p q : PosixLock ω) (hp : Remnant lock conf p) (hq : Remnant lock conf q)
      (hapart : ∀ x, In x q → ¬In x p)
      (hcover : ∀ x, In x conf → In x lock ∨ In x p ∨ In x q) : Pieces lock conf [p, lock, q]

lemma subtractLocks_pieces (hl : lock.flStart ≤ lock.flEnd) (hb : lock.blocked = false)
    (hown : Own lock conf) :
    Pieces lock conf (subtractLocks (addLocks conf lock conf) lock) := by
  obtain ⟨-, ⟨h₁, h₂⟩, ho⟩ := hown
  unfold subtractLocks
  split
  · next h =>
    refine .covered _ ⟨rfl, h.1, h.2, ho, hb.symm⟩ ?_
    simp only [In, addLocks] at *
    omega
  split
  · next h =>
    refine .bothSides _ _ ⟨rfl, ho, rfl, ?_, ?_, ?_⟩ ⟨rfl, ho, rfl, ?_, ?_, ?_⟩ ?_ ?_
    all_goals simp only [In, addLocks] at *
    all_goals omega
  split
  · refine .oneSide _ ⟨rfl, ho, rfl, ?_, ?_, ?_⟩ ?_
    all_goals simp only [In, addLocks] at *
    all_goals omega
  split
  · refine .oneSide _ ⟨rfl, ho, rfl, ?_, ?_, ?_⟩ ?_
    all_goals simp only [In, addLocks] at *
    all_goals omega
  · simp only [addLocks] at *
    omega

/-- A lock overlaps the sum of two overlapping ones where it overlaps one of them. -/
lemma overlap_addLocks (attr : PosixLock ω) (hov : Overlap conf lock) (hk : k.flStart ≤ k.flEnd) :
    Overlap k (addLocks attr lock conf) ↔ Overlap k lock ∨ Overlap k conf := by
  simp only [Overlap, addLocks] at *
  omega

lemma in_addLocks (attr : PosixLock ω) (hov : Overlap conf lock) (x : Int) :
    In x (addLocks attr lock conf) ↔ In x lock ∨ In x conf := by
  simp only [In, Overlap, addLocks] at *
  omega

/-- The bytes of `lock`, those of `conf` that are left, and all others, one by one. -/
lemma sets_of_parts (hl : Good (pre ++ conf :: post)) (hown : Own lock conf)
    (hlock : ∀ x t, In x lock → (Holds l' lock.owner x t ↔ t = lock.flType ∧ t ≠ .unlck))
    (hconf : ∀ x t, In x conf → ¬In x lock → (Holds l' lock.owner x t ↔ t = conf.flType))
    (hrest : ∀ o x t, ¬(o = lock.owner ∧ (In x lock ∨ In x conf)) →
      (Holds l' o x t ↔ Holds (pre ++ post) o x t)) :
    Sets (pre ++ conf :: post) lock l' := by
  refine ⟨hlock, fun o x t hout => ?_⟩
  obtain ⟨hb, -, ho⟩ := hown
  rw [holds_middle]
  by_cases hin : o = lock.owner ∧ In x conf
  · obtain ⟨rfl, hx⟩ := hin
    have hnot := hl.not_holds hb hx t
    rw [ho] at hnot
    rw [hconf x t hx (fun h => hout ⟨rfl, h⟩)]
    constructor
    · exact fun h => .inr ⟨hb, ho, hx, h.symm⟩
    · rintro (h | ⟨-, -, -, h⟩)
      · exact absurd h hnot
      · exact h.symm
  · rw [hrest o x t (fun h => h.2.elim (fun hx => hout ⟨h.1, hx⟩) (fun hx => hin ⟨h.1, hx⟩))]
    constructor
    · exact .inl
    · rintro (h | ⟨-, rfl, hx, -⟩)
      · exact h
      · exact absurd ⟨ho, hx⟩ hin

section

private lemma skip_left {α : Type} {P : α → Prop} {pre post before after : List α} {c : α}
    (h : pre ++ post = before ++ c :: after) (hc : P c) (hpre : ∀ k ∈ pre, ¬P k) :
    ∃ before', before = pre ++ before' ∧ post = before' ++ c :: after := by
  induction pre generalizing before with
  | nil => exact ⟨before, rfl, h⟩
  | cons k pre ih =>
    cases before with
    | nil =>
      obtain ⟨rfl, -⟩ := cons_eq_cons.mp h
      exact absurd hc (hpre k mem_cons_self)
    | cons k' before =>
      obtain ⟨rfl, htail⟩ := cons_eq_cons.mp h
      obtain ⟨before', rfl, rfl⟩ := ih htail (forall_mem_cons.mp hpre).2
      exact ⟨before', rfl, rfl⟩

-- Where a list is put together, an element that neither end has is in the middle.
private lemma split_middle {α : Type} {P : α → Prop} {pre post ps before after : List α} {c : α}
    (h : pre ++ post ++ ps = before ++ c :: after) (hc : P c) (hpre : ∀ k ∈ pre, ¬P k)
    (hps : ∀ k ∈ ps, ¬P k) :
    ∃ before' after', before = pre ++ before' ∧ post = before' ++ c :: after' := by
  rw [append_assoc] at h
  obtain ⟨before', rfl, hpost⟩ := skip_left h hc hpre
  rcases append_eq_append_iff.mp hpost with ⟨rest, rfl, hrest⟩ | ⟨rest, rfl, hrest⟩
  · exact absurd hc (hps c (by rw [hrest]; simp))
  · cases rest with
    | nil => exact absurd hc (hps c (by rw [← nil_append ps, ← hrest]; simp))
    | cons k rest =>
      obtain ⟨rfl, -⟩ := cons_eq_cons.mp hrest
      exact ⟨before', rest, rfl, rfl⟩

variable (hcut : NotCutOff (pre ++ conf :: post) lock)
include hcut

/-- The sum of a lock with the first own one, of the same type, is not cut off in what is left
of the list: it overlaps no more own locks than the lock does. -/
lemma NotCutOff.sum (hl : Good (pre ++ conf :: post)) (hown : Own lock conf)
    (hpre : ∀ k ∈ pre, ¬Own lock k) (ht : conf.flType = lock.flType) :
    NotCutOff (pre ++ post) (addLocks lock lock conf) := by
  have hown_sum : ∀ {k}, k ∈ pre ++ post → Own (addLocks lock lock conf) k → Own lock k := by
    rintro k hk ⟨hb, hov, ho⟩
    refine ⟨hb, ?_, ho⟩
    rcases (overlap_addLocks lock hown.2.1 (hl.valid k (mem_middle hk))).mp hov with h | h
    · exact h
    · exact absurd h (hl.not_overlap hown.1 hk hb (ho.trans hown.2.2.symm))
  intro hrd before c after heq hc b hb hbb hbt hbo
  have hcmem : c ∈ pre ++ post := by rw [heq]; simp
  have hbmem : b ∈ pre ++ post := by rw [heq]; simp [hb]
  obtain ⟨before', after', rfl, rfl⟩ := split_middle ((append_nil _).trans heq)
    (hown_sum hcmem hc) hpre (forall_mem_nil _)
  obtain ⟨hnot, hnots⟩ := hcut hrd (pre ++ conf :: before') c after' (by simp)
    (hown_sum hcmem hc) b (mem_middle hb) hbb hbt hbo
  constructor
  · rw [overlap_addLocks lock hown.2.1 (hl.valid b (mem_middle hbmem))]
    exact not_or.mpr ⟨hnot, hnots conf (by simp) hown (ht.trans hrd)⟩
  · intro c' hc' hown' ht'
    have hmem' : c' ∈ pre ++ (before' ++ c :: after') := by
      rw [heq]
      exact mem_append_left _ hc'
    exact hnots c' (mem_middle hc') (hown_sum hmem' hown') ht'

/-- Taking the first own lock out, and appending others that are not own, does not cut a lock
off. -/
lemma NotCutOff.rest {mid : PosixLock ω} {ps : List (PosixLock ω)} (hlike : Like lock mid)
    (hpre : ∀ k ∈ pre, ¬Own lock k) (hps : ∀ k ∈ ps, ¬Own lock k) :
    NotCutOff (pre ++ post ++ ps) mid := by
  obtain ⟨ht, hs, he, ho, -⟩ := hlike
  simp only [NotCutOff, GetsTo, Own, Overlap, ht, hs, he, ho] at hcut hpre hps ⊢
  intro hrd before c after heq hc b hb hbb hbt hbo
  obtain ⟨before', after', rfl, rfl⟩ := split_middle heq hc hpre hps
  obtain ⟨hnot, hnots⟩ := hcut hrd (pre ++ conf :: before') c after' (by simp) hc b (mem_middle hb)
    hbb hbt hbo
  exact ⟨hnot, fun c' hc' => hnots c' (mem_middle hc')⟩

end

variable {m m' : List (PosixLock ω)}

/-- A lock that holds none of its bytes yet overlaps no own lock. -/
lemma Good.free (h : Good m) (hv : p.flStart ≤ p.flEnd)
    (hnot : ∀ x t, In x p → ¬Holds m p.owner x t) : ∀ k ∈ m, ¬Own p k := by
  rintro k hk ⟨hb, ⟨h₁, h₂⟩, ho⟩
  have hkv := h.valid k hk
  -- the first byte that both have
  exact hnot (max p.flStart k.flStart) k.flType ⟨by omega, by omega⟩
    ⟨k, hk, hb, ho, ⟨by omega, by omega⟩, rfl⟩

private lemma Good.deleteUnlckLocks (h : Good l) : deleteUnlckLocks l = l :=
  filter_eq_self.mpr (fun k hk => decide_eq_true (h.held k hk))

variable [DecidableEq ω] {n : Nat}

/-- A remnant of `conf` whose bytes are free is appended, and sets its bytes. -/
lemma insert_remnant (hm : Good m) (hp : Remnant lock conf p) (hconf : conf.flType ≠ .unlck)
    (hnot : ∀ x t, In x p → ¬Holds m lock.owner x t) (h : insertMergeDepth n m p = some m') :
    m' = m ++ [p] ∧ Good m' ∧ (∀ x t, In x p → (Holds m' lock.owner x t ↔ t = conf.flType)) ∧
      ∀ o x t, ¬(o = lock.owner ∧ In x p) → (Holds m' o x t ↔ Holds m o x t) := by
  have hfree := hm.free hp.valid (by rw [hp.owner]; exact hnot)
  have ht : p.flType ≠ .unlck := by rw [hp.type]; exact hconf
  cases n with
  | zero => cases h
  | succ n =>
    rw [insertMergeDepth_free n hfree ht] at h
    obtain rfl := Option.some.inj h
    obtain ⟨hin, hout⟩ := sets_append hp.granted ht hfree
    rw [hp.owner, hp.type] at hin
    rw [hp.owner] at hout
    refine ⟨rfl, hm.append hp.valid ht (fun _ => hfree), fun x t hx => ?_, hout⟩
    rw [hin x t hx]
    exact ⟨And.left, fun h => ⟨h, h ▸ hconf⟩⟩

/-- What one more level of the recursion relies on. -/
def InsertSets (ω : Type) [DecidableEq ω] (n : Nat) : Prop :=
  ∀ (m : List (PosixLock ω)) (k : PosixLock ω) (m' : List (PosixLock ω)), Good m →
    k.flStart ≤ k.flEnd → k.blocked = false → NotCutOff m k → insertMergeDepth n m k = some m' →
    Good m' ∧ Sets m k m'

section

variable (hins : InsertSets ω n)
include hins

/-- A remnant and then the lock are inserted into the list without `conf`. -/
lemma insert_remnant_lock (hl : Good (pre ++ conf :: post)) (hv : lock.flStart ≤ lock.flEnd)
    (hb : lock.blocked = false) (hown : Own lock conf) (hpre : ∀ k ∈ pre, ¬Own lock k)
    (hcut : NotCutOff (pre ++ conf :: post) lock) (hp : Remnant lock conf p)
    (h : insertMergeDepth n (pre ++ post) p = some m) (h' : insertMergeDepth n m lock = some m') :
    Good m' ∧ (∀ x t, In x lock → (Holds m' lock.owner x t ↔ t = lock.flType ∧ t ≠ .unlck)) ∧
      (∀ x t, In x p → (Holds m' lock.owner x t ↔ t = conf.flType)) ∧
      ∀ o x t, ¬(o = lock.owner ∧ (In x lock ∨ In x p)) →
        (Holds m' o x t ↔ Holds (pre ++ post) o x t) := by
  have hrest : Good (pre ++ post) := hl.sublist (by simp)
  have hheld : conf.flType ≠ .unlck := hl.held conf (by simp)
  obtain ⟨rfl, hgood, hpiece, hother⟩ := insert_remnant hrest hp hheld (fun x t hx => by
    rw [← hown.2.2]
    exact hl.not_holds hown.1 (hp.inside x hx) t) h
  have hnot : ∀ k ∈ [p], ¬Own lock k := by
    intro k hk hk'
    obtain rfl := mem_singleton.mp hk
    obtain ⟨-, ⟨h₁, h₂⟩, -⟩ := hk'
    have hkv := hp.valid
    exact hp.apart (max k.flStart lock.flStart) ⟨by omega, by omega⟩ ⟨by omega, by omega⟩
  obtain ⟨hgood', hsets'⟩ := hins _ lock m' hgood hv hb
    (hcut.rest ⟨rfl, rfl, rfl, rfl, rfl⟩ hpre hnot) h'
  refine ⟨hgood', hsets'.inside, fun x t hx => ?_, fun o x t hout => ?_⟩
  · rw [hsets'.outside _ _ _ (fun hin => hp.apart x hx hin.2)]
    exact hpiece x t hx
  · rw [hsets'.outside o x t (fun hin => hout ⟨hin.1, .inl hin.2⟩)]
    exact hother o x t (fun hin => hout ⟨hin.1, .inr hin.2⟩)

/-- Inserting the pieces of `conf` and the lock into the list without `conf`. -/
lemma insert_pieces {ps : List (PosixLock ω)} (hl : Good (pre ++ conf :: post))
    (hv : lock.flStart ≤ lock.flEnd) (hb : lock.blocked = false) (hown : Own lock conf)
    (hpre : ∀ k ∈ pre, ¬Own lock k) (hcut : NotCutOff (pre ++ conf :: post) lock)
    (hps : Pieces lock conf ps) (h : ps.foldlM (insertMergeDepth n) (pre ++ post) = some l') :
    Good l' ∧ Sets (pre ++ conf :: post) lock l' := by
  have hheld : conf.flType ≠ .unlck := hl.held conf (by simp)
  cases hps with
  | covered mid hlike hcover =>
    simp only [foldlM_cons, foldlM_nil, Option.pure_def, bind_eq_bind, bind_fun_some] at h
    have hmid : NotCutOff (pre ++ post ++ []) mid :=
      hcut.rest hlike hpre (forall_mem_nil _)
    rw [append_nil] at hmid
    obtain ⟨ht, hs, he, ho, hblocked⟩ := hlike
    obtain ⟨hgood, hsets⟩ := hins _ mid l' (hl.sublist (by simp)) (by omega)
      (hblocked.trans hb) hmid h
    have hin : ∀ x, In x lock ↔ In x mid := fun x => by rw [In, In, hs, he]
    refine ⟨hgood, sets_of_parts hl hown ?_ ?_ ?_⟩
    · intro x t hx
      rw [← ho, ← ht]
      exact hsets.inside x t ((hin x).mp hx)
    · exact fun x t hx hout => absurd (hcover x hx) hout
    · intro o x t hout
      exact hsets.outside o x t (fun h => hout ⟨h.1.trans ho, .inl ((hin x).mpr h.2)⟩)
  | oneSide p hp hcover =>
    simp only [foldlM_cons, foldlM_nil, Option.pure_def, bind_eq_bind,
      bind_fun_some, bind_eq_some_iff] at h
    obtain ⟨m, h, h'⟩ := h
    obtain ⟨hgood, hlock, hpiece, hother⟩ :=
      insert_remnant_lock hins hl hv hb hown hpre hcut hp h h'
    refine ⟨hgood, sets_of_parts hl hown hlock ?_ ?_⟩
    · exact fun x t hx hout => hpiece x t ((hcover x hx).resolve_left hout)
    · exact fun o x t hout => hother o x t (fun h => hout ⟨h.1, h.2.imp_right (hp.inside x)⟩)
  | bothSides p q hp hq hapart hcover =>
    simp only [foldlM_cons, foldlM_nil, Option.pure_def, bind_eq_bind,
      bind_fun_some, bind_eq_some_iff] at h
    obtain ⟨m, h, m', h', h''⟩ := h
    obtain ⟨hgood, hlock, hpiece, hother⟩ :=
      insert_remnant_lock hins hl hv hb hown hpre hcut hp h h'
    obtain ⟨-, hgood', hpiece', hother'⟩ := insert_remnant hgood hq hheld (fun x t hx => by
      rw [hother _ x t (fun hin => hin.2.elim (hq.apart x hx) (hapart x hx)), ← hown.2.2]
      exact hl.not_holds hown.1 (hq.inside x hx) t) h''
    refine ⟨hgood', sets_of_parts hl hown ?_ ?_ ?_⟩
    · intro x t hx
      rw [hother' _ _ _ (fun hin => hq.apart x hin.2 hx)]
      exact hlock x t hx
    · intro x t hx hout
      by_cases hxq : In x q
      · exact hpiece' x t hxq
      · rw [hother' _ _ _ (fun hin => hxq hin.2)]
        exact hpiece x t (((hcover x hx).resolve_left hout).resolve_right hxq)
    · intro o x t hout
      rw [hother' o x t (fun hin => hout ⟨hin.1, .inr (hq.inside x hin.2)⟩)]
      exact hother o x t (fun h => hout ⟨h.1, h.2.imp_right (hp.inside x)⟩)

/-- Merging the lock with `conf`, which has its type. -/
lemma insert_sum (hl : Good (pre ++ conf :: post)) (hv : lock.flStart ≤ lock.flEnd)
    (hown : Own lock conf) (hpre : ∀ k ∈ pre, ¬Own lock k)
    (hcut : NotCutOff (pre ++ conf :: post) lock) (ht : conf.flType = lock.flType)
    (h : insertMergeDepth n (pre ++ post) (addLocks lock lock conf) = some l') :
    Good l' ∧ Sets (pre ++ conf :: post) lock l' := by
  have hin := in_addLocks lock hown.2.1
  have hvalid : (addLocks lock lock conf).flStart ≤ (addLocks lock lock conf).flEnd := by
    simp only [addLocks]
    omega
  obtain ⟨hgood, hsets⟩ := hins _ _ l' (hl.sublist (by simp)) hvalid rfl
    (hcut.sum hl hown hpre ht) h
  refine ⟨hgood, sets_of_parts hl hown ?_ ?_ ?_⟩
  · exact fun x t hx => hsets.inside x t ((hin x).mpr (.inl hx))
  · intro x t hx _
    have hheld : conf.flType ≠ .unlck := hl.held conf (by simp)
    rw [show lock.owner = (addLocks lock lock conf).owner from rfl,
      hsets.inside x t ((hin x).mpr (.inr hx)), ht]
    exact ⟨And.left, fun h => ⟨h, by rw [h, ← ht]; exact hheld⟩⟩
  · exact fun o x t hout => hsets.outside o x t (fun h => hout ⟨h.1, (hin x).mp h.2⟩)

end

/-- Inserting a lock that is not cut off keeps the list as it should be and sets the bytes of
the lock. -/
lemma insertMergeDepth_sets (n : Nat) : InsertSets ω n := by
  induction n with
  | zero => exact fun _ _ _ _ _ _ _ h => by cases h
  | succ n ih =>
    intro l lock l' hl hv hb hcut h
    have hs := walk_stops lock l
    unfold insertMergeDepth at h
    cases hw : walk lock l with
    | own conf rest =>
      rw [hw] at hs h
      obtain ⟨pre, post, rfl, rfl, hown, hpre⟩ := hs
      simp only at h
      split at h
      · next ht => exact insert_sum ih hl hv hown hpre hcut ht h
      · obtain ⟨m, hm, rfl⟩ := map_eq_some_iff.mp h
        obtain ⟨hgood, hsets⟩ := insert_pieces ih hl hv hb hown hpre hcut
          (subtractLocks_pieces hv hb hown) hm
        rw [hgood.deleteUnlckLocks]
        exact ⟨hgood, hsets⟩
    | shared =>
      rw [hw] at hs h
      obtain ⟨pre, b, post, rfl, ht, hbb, hbt, hbo, hov, hpre⟩ := hs
      obtain rfl := Option.some.inj h
      -- The walk has passed no own lock, and none is left behind the one it stops at.
      have hfree : ∀ k ∈ pre ++ b :: post, ¬Own lock k := by
        intro k hk hown
        rcases mem_append.mp hk with hk | hk
        · exact hpre k hk hown
        · rcases mem_cons.mp hk with rfl | hk
          · exact hbo hown.2.2
          · obtain ⟨before, after, rfl⟩ := append_of_mem hk
            exact (hcut ht (pre ++ b :: before) k after
              (by simp) hown b (by simp) hbb hbt hbo).1 hov
      have hne : lock.flType ≠ .unlck := by rw [ht]; decide
      exact ⟨hl.append hv hne (fun _ => hfree), sets_append hb hne hfree⟩
    | clear =>
      rw [hw] at hs h
      obtain rfl := Option.some.inj h
      split
      · next ht => exact ⟨hl, sets_unlck ht hs⟩
      · next ht => exact ⟨hl.append hv ht (fun _ => hs), sets_append hb ht hs⟩

end TagItGluster.Locks
