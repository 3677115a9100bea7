import Mathlib.Data.List.Nodup
import TagItGluster.Dht.Layout

/-!
# Anomalies of a layout and the placement of hashes

A layout has no hole and no overlap exactly if the ranges that take part are a chain around the
hash space. The bound of the scan wraps at the end of the hash space, so that such a chain may go
around more than once: behind an entry with the whole hash space the next entry may start at 0
again. The search in turn looks at all entries, also at those that do not take part.
-/

namespace TagItGluster.Dht

open Base List

variable {ξ : Type} {l : List (LayoutEntry ξ)} {e : LayoutEntry ξ}

/-- The range of an entry on the circle of all hashes. -/
def LayoutEntry.toArc (e : LayoutEntry ξ) : Arc (2 ^ 32) :=
  ⟨e.start.toNat, e.stop.toNat, e.start.toNat_lt, e.stop.toNat_lt⟩

/-- The ranges that take part. -/
def arcs (l : List (LayoutEntry ξ)) : List (Arc (2 ^ 32)) :=
  (participating l).map LayoutEntry.toArc

private lemma toNat_add_one (x : UInt32) :
    (x + 1).toNat = if x.toNat + 1 = 2 ^ 32 then 0 else x.toNat + 1 := by
  have hx := x.toNat_lt
  rw [UInt32.toNat_add, UInt32.toNat_one]
  split <;> omega

/-- An entry that does not take part does not change the bound and is no anomaly. -/
lemma scanEntry_skip (s : Scan) (h : ¬e.Participates) :
    (scanEntry s e).prevStop = s.prevStop ∧ (scanEntry s e).isVirgin = s.isVirgin ∧
      (scanEntry s e).holes = s.holes ∧ (scanEntry s e).overlaps = s.overlaps := by
  unfold scanEntry
  split
  · exact ⟨rfl, rfl, rfl, rfl⟩
  split
  · exact ⟨rfl, rfl, rfl, rfl⟩
  split
  · exact ⟨rfl, rfl, rfl, rfl⟩
  split
  · next herr =>
    split
    · exact ⟨rfl, rfl, rfl, rfl⟩
    · next hne => exact absurd ⟨herr, hne⟩ h
  · exact ⟨rfl, rfl, rfl, rfl⟩

private lemma scanEntry_takes (s : Scan) (h : e.Participates) : scanEntry s e = { s with
      isVirgin := false
      holes := s.holes + if s.prevStop + 1 < e.start then 1 else 0
      overlaps := s.overlaps + if e.start < s.prevStop + 1 then 1 else 0
      prevStop := e.stop } := by
  obtain ⟨herr, hne⟩ := h
  simp [scanEntry, herr, hne, enoent, estale, enotconn, enospc]

/-- A scan finds no anomaly exactly along a chain, and the anomalies only become more. -/
lemma scan_chained (l : List (LayoutEntry ξ)) (s : Scan) (q : Nat) :
    s.holes ≤ (l.foldl scanEntry s).holes ∧ s.overlaps ≤ (l.foldl scanEntry s).overlaps ∧
      ((l.foldl scanEntry s).holes = s.holes ∧ (l.foldl scanEntry s).overlaps = s.overlaps ∧
        ((l.foldl scanEntry s).prevStop + 1).toNat = q ↔
        Chained (s.prevStop + 1).toNat (arcs l) q) := by
  induction l generalizing s with
  | nil =>
    refine ⟨Nat.le_refl _, Nat.le_refl _, ?_⟩
    simp [arcs, participating, Chained]
  | cons e l ih =>
    obtain ⟨hholes, hoverlaps, hchain⟩ := ih (scanEntry s e)
    rw [foldl_cons]
    by_cases h : e.Participates
    · have harcs : arcs (e :: l) = e.toArc :: arcs l := by
        simp [arcs, participating, h]
      have hnext : e.toArc.next = (e.stop + 1).toNat := (toNat_add_one e.stop).symm
      have htake := scanEntry_takes s h
      have hh : (scanEntry s e).holes = s.holes + if s.prevStop + 1 < e.start then 1 else 0 := by
        rw [htake]
      have ho : (scanEntry s e).overlaps =
          s.overlaps + if e.start < s.prevStop + 1 then 1 else 0 := by
        rw [htake]
      have hprev : (scanEntry s e).prevStop = e.stop := by
        rw [htake]
      have hstart : e.toArc.start = (s.prevStop + 1).toNat ↔
          ¬s.prevStop + 1 < e.start ∧ ¬e.start < s.prevStop + 1 := by
        rw [UInt32.lt_iff_toNat_lt, UInt32.lt_iff_toNat_lt]
        simp only [LayoutEntry.toArc]
        omega
      rw [hh] at hholes hchain
      rw [ho] at hoverlaps hchain
      rw [hprev] at hchain
      rw [harcs, Chained, hnext, hstart, ← hchain]
      refine ⟨by omega, by omega, ?_⟩
      split at hholes
      · next hlt =>
        constructor
        · omega
        · exact fun h => absurd hlt h.1.1
      next hlt =>
      split at hoverlaps
      · next hgt =>
        constructor
        · omega
        · exact fun h => absurd hgt h.1.2
      · next hgt =>
        rw [if_neg hlt]
        simp [hlt, hgt, true_and]
    · have harcs : arcs (e :: l) = arcs l := by
        simp [arcs, participating, h]
      obtain ⟨hprev, -, hh, ho⟩ := scanEntry_skip s h
      rw [hprev, hh, ho] at hchain
      rw [harcs]
      exact ⟨hh ▸ hholes, ho ▸ hoverlaps, hchain⟩

private lemma scan_isVirgin (l : List (LayoutEntry ξ)) (s : Scan) :
    (l.foldl scanEntry s).isVirgin ↔ s.isVirgin ∧ participating l = [] := by
  induction l generalizing s with
  | nil => simp [participating]
  | cons e l ih =>
    rw [foldl_cons, ih]
    by_cases h : e.Participates
    · rw [scanEntry_takes s h]
      simp [participating, h]
    · rw [(scanEntry_skip s h).2.1]
      simp [participating, h]

/-- No hole and no overlap: some entry takes part, and the ranges that do are a chain from the
start of the first entry around to it. -/
lemma healthy_iff (layout : Layout ξ) : Healthy layout ↔ participating layout.list ≠ [] ∧
      Chained (layout.list.head layout.ne).start.toNat (arcs layout.list)
        (layout.list.head layout.ne).start.toNat := by
  have hstop (start stop : UInt32) : start - 1 - stop = 0 ↔ stop + 1 = start := by
    rw [UInt32.sub_eq_iff_eq_add, UInt32.zero_add, UInt32.sub_eq_iff_eq_add, eq_comm]
  let start := (layout.list.head layout.ne).start
  let s := scanEntries (start - 1) layout.list
  have hchain : s.holes = 0 ∧ s.overlaps = 0 ∧ s.prevStop + 1 = start ↔
      Chained start.toNat (arcs layout.list) start.toNat := by
    have hscan := (scan_chained layout.list ⟨⟨0, 0, 0, 0, 0, 0⟩, start - 1, true⟩ start.toNat).2.2
    simp only [UInt32.sub_add_cancel, UInt32.toNat_inj] at hscan
    exact hscan
  have hvirgin : s.isVirgin ↔ participating layout.list = [] := by
    have hscan := scan_isVirgin layout.list ⟨⟨0, 0, 0, 0, 0, 0⟩, start - 1, true⟩
    simp only [true_and] at hscan
    exact hscan
  have hholes : (dhtLayoutAnomalies layout).holes = 0 ↔
      s.holes = 0 ∧ s.prevStop + 1 = start ∧ ¬s.isVirgin = true := by
    change s.holes + (if start - 1 - s.prevStop ≠ 0 ∨ s.isVirgin = true then 1 else 0) = 0 ↔ _
    rw [← hstop]
    simp
  rw [Healthy, hholes, ← hchain, ne_eq, ← hvirgin]
  constructor
  · rintro ⟨⟨hno, hstops, hused⟩, hover⟩
    exact ⟨hused, hno, hover, hstops⟩
  · rintro ⟨hused, hno, hover, hstops⟩
    exact ⟨⟨hno, hstops, hused⟩, hover⟩

/-- A zeroed range. -/
def LayoutEntry.Zeroed (e : LayoutEntry ξ) : Prop := e.start = 0 ∧ e.stop = 0

instance (e : LayoutEntry ξ) : Decidable e.Zeroed := inferInstanceAs (Decidable (_ ∧ _))

/-- Zeroed entries come first, and the others follow by their start. -/
def ZeroedFirst (l : List (LayoutEntry ξ)) : Prop :=
  l.Pairwise fun e e' => e.Zeroed ∨ (¬e'.Zeroed ∧ e.start ≤ e'.start)

instance (l : List (LayoutEntry ξ)) : Decidable (ZeroedFirst l) :=
  inferInstanceAs (Decidable (l.Pairwise _))

/-- The place of an entry in the order. -/
def LayoutEntry.rank (e : LayoutEntry ξ) : Nat := if e.Zeroed then 0 else e.start.toNat + 1

-- Against a zeroed entry the stops are compared, so that a stop of 0 counts as zeroed.
private lemma cmp_pos_iff (h : e.stop = 0 → e.start = 0) (e' : LayoutEntry ξ) :
    0 < dhtLayoutEntryCmp e e' ↔ e'.rank < e.rank := by
  rw [← UInt32.toNat_inj, ← UInt32.toNat_inj, UInt32.toNat_zero] at h
  show (0 < if e'.Zeroed then _ else _) ↔ _
  simp only [LayoutEntry.rank, LayoutEntry.Zeroed, ← UInt32.toNat_inj, UInt32.toNat_zero]
  split_ifs <;> omega

-- The inner loop brings an entry of the least rank to the front.
private lemma sortInner_le (h : ∀ e' ∈ e :: l, e'.stop = 0 → e'.start = 0) :
    ∀ e' ∈ e :: l, (sortInner e l).1.rank ≤ e'.rank := by
  induction l generalizing e with
  | nil =>
    intro e' he'
    rw [mem_singleton.mp he']
    exact Nat.le_refl _
  | cons e₁ l ih =>
    obtain ⟨he, he₁, hl⟩ := forall_mem_cons.mp h |>.imp_right forall_mem_cons.mp
    have hcmp := cmp_pos_iff he e₁
    unfold sortInner
    split_ifs with hpos
    · have hle := ih (forall_mem_cons.mpr ⟨he₁, hl⟩)
      have hfirst := Nat.le_trans (hle e₁ mem_cons_self) (Nat.le_of_lt (hcmp.mp hpos))
      exact forall_mem_cons.mpr ⟨hfirst, hle⟩
    · obtain ⟨hhead, htail⟩ := forall_mem_cons.mp (ih (forall_mem_cons.mpr ⟨he, hl⟩))
      have hsecond := Nat.le_trans hhead (Nat.not_lt.mp (mt hcmp.mpr hpos))
      exact forall_mem_cons.mpr ⟨hhead, forall_mem_cons.mpr ⟨hsecond, htail⟩⟩

private lemma sortOuter_sorted {n : Nat} (hn : l.length ≤ n)
    (h : ∀ e ∈ l, e.stop = 0 → e.start = 0) :
    (sortOuter n l).Pairwise (fun e e' => e.rank ≤ e'.rank) := by
  induction n generalizing l with
  | zero =>
    rw [length_eq_zero_iff.mp (Nat.le_zero.mp hn)]
    exact .nil
  | succ n ih =>
    cases l with
    | nil => exact .nil
    | cons e l =>
      have hperm := sortInner_perm e l
      have hlen : (sortInner e l).2.length = l.length := Nat.succ.inj hperm.length_eq
      refine pairwise_cons.mpr ⟨?_, ?_⟩
      · intro e' he'
        have hmem : e' ∈ (sortInner e l).2 := (sortOuter_perm n _).subset he'
        exact sortInner_le h e' (hperm.subset (mem_cons_of_mem _ hmem))
      · refine ih (by rw [hlen]; exact Nat.le_of_succ_le_succ hn) ?_
        exact fun e' he' => h e' (hperm.subset (mem_cons_of_mem _ he'))

private lemma zeroed_or_of_rank_le {e' : LayoutEntry ξ} (h : e.rank ≤ e'.rank) :
    e.Zeroed ∨ (¬e'.Zeroed ∧ e.start ≤ e'.start) := by
  unfold LayoutEntry.rank at h
  rw [UInt32.le_iff_toNat_le]
  grind

/-- `dht_layout_sort` of any entries, of which those with a stop of 0 are zeroed. -/
theorem layout_sort_zeroedFirst (l : List (LayoutEntry ξ))
    (h : ∀ e ∈ l, e.stop = 0 → e.start = 0) :
    (sortOuter l.length l).Perm l ∧ ZeroedFirst (sortOuter l.length l) :=
  ⟨sortOuter_perm _ l, (sortOuter_sorted (Nat.le_refl _) h).imp zeroed_or_of_rank_le⟩

theorem layout_sort_three : ∃ l : List (LayoutEntry Nat), l.length = 3 ∧
    ZeroedFirst (sortOuter l.length l) :=
  ⟨[⟨0, 5, 9, 1⟩, ⟨-1, 0, 0, 2⟩, ⟨0, 0, 4, 3⟩], rfl, (layout_sort_zeroedFirst _ (by decide)).2⟩

/-- An entry with a stop of 0 that is not zeroed stays in front of a zeroed one. -/
theorem layout_sort_stop_zero :
    ¬ZeroedFirst (sortOuter 2 [(⟨0, 5, 0, 1⟩ : LayoutEntry Nat), ⟨0, 0, 0, 2⟩]) := by decide

/-- The entries of a sorted layout stand by their start. -/
lemma dhtLayoutSort_sorted (layout : Layout ξ) (h : ∀ e ∈ layout.list, e.start ≤ e.stop) :
    (dhtLayoutSort layout).list.Pairwise (fun e e' => e.start ≤ e'.start) := by
  refine (sortOuter_sorted (Nat.le_refl _) fun e he hstop => ?_).imp fun {e e'} hle => ?_
  · exact UInt32.le_zero_iff.mp (hstop ▸ h e he)
  · rcases zeroed_or_of_rank_le hle with hzero | hle
    · exact hzero.1 ▸ UInt32.zero_le
    · exact hle.2

section

private lemma pairwise_iff_countP {α : Type} (p : α → Prop) [DecidablePred p] (l : List α) :
    l.Pairwise (fun a b => ¬(p a ∧ p b)) ↔ l.countP p ≤ 1 := by
  induction l with
  | nil => simp
  | cons a l ih =>
    rw [pairwise_cons, ih, countP_cons]
    by_cases ha : p a
    · simp only [ha, true_and, decide_true, if_true]
      rw [← countP_eq_zero.trans (by simp : (∀ b ∈ l, ¬decide (p b) = true) ↔ ∀ b ∈ l, ¬p b)]
      omega
    · simp [ha]

/-- A partition, by the number of ranges that a hash is in. -/
lemma partitionsHashSpace_iff (l : List (LayoutEntry ξ)) :
    PartitionsHashSpace l ↔ ∀ hash, l.countP (fun e => Contains hash e) = 1 := by
  have hpair : l.Pairwise (fun e e' => ∀ hash, ¬(Contains hash e ∧ Contains hash e')) ↔
      ∀ hash, l.countP (fun e => Contains hash e) ≤ 1 := by
    simp only [← pairwise_iff_countP (Contains _) l, pairwise_iff_forall_sublist]
    exact ⟨fun h hash _ _ hs => h hs hash, fun h _ _ hs hash => h hash hs⟩
  have hcover (hash : UInt32) : (∃ e ∈ l, Contains hash e) ↔
      0 < l.countP (fun e => Contains hash e) := by
    simp
  rw [PartitionsHashSpace, hpair, forall_congr' hcover, ← forall_and]
  refine forall_congr' fun hash => ?_
  omega

variable {p q : Nat}

private lemma spans_toArc (h : e.start ≤ e.stop) (hash : UInt32) :
    e.toArc.Spans hash.toNat ↔ Contains hash e := by
  have h₂ := e.stop.toNat_lt
  have h₄ := gap_cases (2 ^ 32) e.start.toNat hash.toNat
  have h₅ := gap_cases (2 ^ 32) e.start.toNat e.stop.toNat
  simp only [Contains, Arc.Spans, LayoutEntry.toArc, UInt32.le_iff_toNat_le] at *
  omega

-- Where the ranges start above 0 and stand by their start, the chain does not wrap before its end.
private lemma next_pos {e' : LayoutEntry ξ} (hp : 0 < e.start.toNat)
    (hle : e.start ≤ e'.start) (hnext : e'.toArc.start = e.toArc.next) :
    e.toArc.next = e.stop.toNat + 1 := by
  rw [UInt32.le_iff_toNat_le] at hle
  have hcases := e.toArc.next_cases
  simp only [LayoutEntry.toArc] at *
  omega

private lemma chain_end (hranges : ∀ e ∈ l, e.start ≤ e.stop)
    (hsorted : l.Pairwise (fun e e' => e.start ≤ e'.start)) (hne : l ≠ []) (hp : 0 < p)
    (h : Chained p (l.map LayoutEntry.toArc) q) : q = 0 ∨ p < q := by
  induction l generalizing p with
  | nil => exact absurd rfl hne
  | cons e l ih =>
    obtain ⟨hstart, h⟩ := h
    obtain ⟨he, hl⟩ := forall_mem_cons.mp hranges
    obtain ⟨hle, hsorted⟩ := pairwise_cons.mp hsorted
    have hep : e.start.toNat = p := hstart
    rw [UInt32.le_iff_toNat_le] at he
    cases l with
    | nil =>
      obtain rfl : e.toArc.next = q := h
      have hcases := e.toArc.next_cases
      simp only [LayoutEntry.toArc] at *
      omega
    | cons e' l =>
      have hnext := next_pos (by omega) (hle e' mem_cons_self) h.1
      have hrest := ih hl hsorted (cons_ne_nil _ _) (by omega) h
      omega

-- A chain that starts above 0 and ends at the end of the hash space has each hash behind its
-- start once.
private lemma count_of_chain (hranges : ∀ e ∈ l, e.start ≤ e.stop)
    (hsorted : l.Pairwise (fun e e' => e.start ≤ e'.start)) (hp : 0 < p)
    (h : Chained p (l.map LayoutEntry.toArc) 0) (hash : UInt32) :
    l.countP (fun e => Contains hash e) = if p ≤ hash.toNat then 1 else 0 := by
  have hhash := hash.toNat_lt
  induction l generalizing p with
  | nil =>
    obtain rfl : p = 0 := h
    omega
  | cons e l ih =>
    obtain ⟨hstart, h⟩ := h
    obtain ⟨he, hl⟩ := forall_mem_cons.mp hranges
    obtain ⟨hle, hsorted⟩ := pairwise_cons.mp hsorted
    have hep : e.start.toNat = p := hstart
    have hcases := e.toArc.next_cases
    have hcontains : Contains hash e ↔ p ≤ hash.toNat ∧ hash.toNat ≤ e.stop.toNat := by
      rw [Contains, UInt32.le_iff_toNat_le, UInt32.le_iff_toNat_le, hep]
    have hstop : e.toArc.stop = e.stop.toNat := rfl
    rw [UInt32.le_iff_toNat_le] at he
    rw [countP_cons]
    simp only [hcontains, decide_eq_true_eq]
    cases l with
    | nil =>
      have hnext : e.toArc.next = 0 := h
      rw [countP_nil]
      split <;> split <;> omega
    | cons e' l =>
      have hnext := next_pos (by omega) (hle e' mem_cons_self) h.1
      have hrest := ih hl hsorted (by omega) h
      rw [hrest]
      split <;> split <;> split <;> omega

/-- The range is the whole hash space. -/
def LayoutEntry.IsWhole (e : LayoutEntry ξ) : Prop := e.start = 0 ∧ e.stop = 0xffffffff

/-- One or more ranges with the whole hash space, and behind them a partition of it. -/
def RepeatsHashSpace (l : List (LayoutEntry ξ)) : Prop :=
  ∃ pre post, l = pre ++ post ∧ pre ≠ [] ∧ (∀ e ∈ pre, e.IsWhole) ∧ PartitionsHashSpace post

private lemma contains_of_isWhole (h : e.IsWhole) (hash : UInt32) : Contains hash e := by
  have hhash := hash.toNat_lt
  rw [Contains, h.1, h.2, UInt32.le_iff_toNat_le]
  exact ⟨Nat.zero_le _, Nat.le_of_lt_succ hhash⟩

private lemma next_of_isWhole (h : e.IsWhole) : e.toArc.next = 0 := by
  have hcases := e.toArc.next_cases
  have hstop : e.toArc.stop = 2 ^ 32 - 1 := congrArg UInt32.toNat h.2
  omega

-- The chain goes around once, unless it begins with the whole hash space.
private lemma partitions_or_repeats (hranges : ∀ e ∈ l, e.start ≤ e.stop)
    (hsorted : l.Pairwise (fun e e' => e.start ≤ e'.start)) (hne : l ≠ [])
    (h : Chained 0 (l.map LayoutEntry.toArc) 0) :
    PartitionsHashSpace l ∨ RepeatsHashSpace l := by
  induction l with
  | nil => exact absurd rfl hne
  | cons e l ih =>
    obtain ⟨hstart, h⟩ := h
    obtain ⟨he, hl⟩ := forall_mem_cons.mp hranges
    obtain ⟨hle, hsorted⟩ := pairwise_cons.mp hsorted
    have hzero : e.start.toNat = 0 := hstart
    have hstop : e.toArc.stop = e.stop.toNat := rfl
    rcases e.toArc.next_cases with ⟨hlast, hnext⟩ | ⟨hlast, hnext⟩
    · have hwhole : e.IsWhole := by
        refine ⟨UInt32.toNat_inj.mp hzero, UInt32.toNat_inj.mp ?_⟩
        exact Nat.eq_sub_of_add_eq hlast
      rw [hnext] at h
      by_cases hempty : l = []
      · subst hempty
        refine .inl ((partitionsHashSpace_iff _).mpr fun hash => ?_)
        simp [contains_of_isWhole hwhole hash]
      · right
        rcases ih hl hsorted hempty h with hpart | ⟨pre, post, rfl, -, hpre, hpost⟩
        · exact ⟨[e], l, rfl, cons_ne_nil _ _, forall_mem_singleton.mpr hwhole, hpart⟩
        · exact ⟨e :: pre, post, rfl, cons_ne_nil _ _, forall_mem_cons.mpr ⟨hwhole, hpre⟩, hpost⟩
    · refine .inl ((partitionsHashSpace_iff _).mpr fun hash => ?_)
      have hrest := count_of_chain hl hsorted (by omega) h hash
      have hcontains : Contains hash e ↔ hash.toNat ≤ e.stop.toNat := by
        rw [Contains, UInt32.le_iff_toNat_le, hzero]
        exact and_iff_right (Nat.zero_le _)
      rw [countP_cons, hrest, hnext]
      simp only [hcontains, decide_eq_true_eq]
      split <;> split <;> omega

-- A range has its own start.
private lemma countP_start_pos (l : List (LayoutEntry ξ)) (he : e.start ≤ e.stop) :
    0 < (e :: l).countP (fun e' => Contains e.start e') :=
  countP_pos_iff.mpr ⟨e, mem_cons_self, decide_eq_true ⟨UInt32.le_refl _, he⟩⟩

-- The first range starts at `p`: its start is in a range, and `p` is in some range behind it.
private lemma start_of_count (he : e.start ≤ e.stop) (hle : ∀ e' ∈ l, e.start ≤ e'.start)
    (hp : p < 2 ^ 32)
    (h : ∀ hash, (e :: l).countP (fun e => Contains hash e) = if p ≤ hash.toNat then 1 else 0) :
    e.start.toNat = p := by
  have hself := countP_start_pos l he
  have hfirst : 0 < (e :: l).countP (fun e' => Contains (UInt32.ofNatLT p hp) e') := by
    rw [h, UInt32.toNat_ofNatLT, if_pos (Nat.le_refl p)]
    exact Nat.one_pos
  rw [h e.start] at hself
  obtain ⟨e', he', hcontains⟩ := countP_pos_iff.mp hfirst
  have hmin : e.start ≤ e'.start := by
    rcases mem_cons.mp he' with rfl | hmem
    · exact UInt32.le_refl _
    · exact hle e' hmem
  have hle' := UInt32.le_trans hmin (of_decide_eq_true hcontains).1
  rw [UInt32.le_iff_toNat_le, UInt32.toNat_ofNatLT] at hle'
  split at hself <;> omega

variable (hranges : ∀ e ∈ l, e.start ≤ e.stop)
include hranges

variable (hsorted : l.Pairwise (fun e e' => e.start ≤ e'.start))
include hsorted

-- Conversely, what has each hash from `p` on once is a chain from there.
private lemma chain_of_count (hp : p < 2 ^ 32)
    (h : ∀ hash, l.countP (fun e => Contains hash e) = if p ≤ hash.toNat then 1 else 0) :
    Chained p (l.map LayoutEntry.toArc) 0 := by
  induction l generalizing p with
  | nil =>
    have hle : p ≤ (0xffffffff : UInt32).toNat := Nat.le_of_lt_succ hp
    have hlast := h 0xffffffff
    rw [if_pos hle] at hlast
    cases hlast
  | cons e l ih =>
    obtain ⟨he, hl⟩ := forall_mem_cons.mp hranges
    obtain ⟨hle, hsorted⟩ := pairwise_cons.mp hsorted
    have hstart := start_of_count he hle hp h
    have hrest (hash : UInt32) : l.countP (fun e => Contains hash e) =
        if e.stop.toNat < hash.toNat then 1 else 0 := by
      have hcount := h hash
      have hcontains : Contains hash e ↔ p ≤ hash.toNat ∧ hash.toNat ≤ e.stop.toNat := by
        rw [Contains, UInt32.le_iff_toNat_le, UInt32.le_iff_toNat_le, hstart]
      rw [UInt32.le_iff_toNat_le] at he
      rw [countP_cons] at hcount
      simp only [hcontains, decide_eq_true_eq] at hcount
      split at hcount <;> split at hcount <;> split <;> omega
    refine ⟨hstart, ?_⟩
    have hstop : e.toArc.stop = e.stop.toNat := rfl
    rcases e.toArc.next_cases with ⟨hlast, hnext⟩ | ⟨hlast, hnext⟩
    · rw [hnext]
      cases l with
      | nil => rfl
      | cons e' l =>
        -- the hash space is used up, but the start of a further range is in it
        have hlt := e'.start.toNat_lt
        have hself := countP_start_pos l (hl e' mem_cons_self)
        rw [hrest e'.start] at hself
        split at hself <;> omega
    · refine ih hl hsorted (by omega) fun hash => ?_
      rw [hrest, hnext]
      rfl

private lemma chain_of_partitions (h : PartitionsHashSpace l) :
    l ≠ [] ∧ Chained 0 (l.map LayoutEntry.toArc) 0 := by
  refine ⟨?_, chain_of_count hranges hsorted (by decide) fun hash => ?_⟩
  · rintro rfl
    obtain ⟨e, he, -⟩ := h.1 0
    cases he
  · rw [(partitionsHashSpace_iff l).mp h hash, if_pos (Nat.zero_le _)]

private lemma chain_of_repeats (h : RepeatsHashSpace l) :
    l ≠ [] ∧ Chained 0 (l.map LayoutEntry.toArc) 0 ∧ ¬PartitionsHashSpace l := by
  obtain ⟨pre, post, rfl, hne, hpre, hpost⟩ := h
  have hwhole : Chained 0 (pre.map LayoutEntry.toArc) 0 := by
    clear hranges hsorted hne
    induction pre with
    | nil => rfl
    | cons e pre ih =>
      obtain ⟨he, hpre⟩ := forall_mem_cons.mp hpre
      refine ⟨congrArg UInt32.toNat he.1, ?_⟩
      rw [next_of_isWhole he]
      exact ih hpre
  obtain ⟨-, hrest⟩ := chain_of_partitions (fun e he => hranges e (mem_append_right _ he))
    (hsorted.sublist (sublist_append_right pre post)) hpost
  refine ⟨by simp [hne], by rw [map_append]; exact hwhole.append hrest, fun hpart => ?_⟩
  obtain ⟨e, pre, rfl⟩ := exists_cons_of_ne_nil hne
  have hcount := (partitionsHashSpace_iff _).mp hpart 0
  have hcount' := (partitionsHashSpace_iff _).mp hpost 0
  rw [countP_append, countP_cons, hcount',
    decide_eq_true (contains_of_isWhole (hpre e mem_cons_self) 0)] at hcount
  simp at hcount

end

/-- A sorted layout has no anomaly if its ranges partition the hash space, or repeat it. -/
lemma healthy_sort_iff (layout : Layout ξ) (h : ∀ e ∈ layout.list, e.start ≤ e.stop) :
    Healthy (dhtLayoutSort layout) ↔
      PartitionsHashSpace (participating (dhtLayoutSort layout).list) ∨
        RepeatsHashSpace (participating (dhtLayoutSort layout).list) := by
  have hsorted := dhtLayoutSort_sorted layout h
  have hranges : ∀ e ∈ (dhtLayoutSort layout).list, e.start ≤ e.stop :=
    fun e he => h e ((sortOuter_perm _ _).subset he)
  generalize dhtLayoutSort layout = sorted at hsorted hranges ⊢
  have hranges' : ∀ e ∈ participating sorted.list, e.start ≤ e.stop :=
    fun e he => hranges e (mem_of_mem_filter he)
  have hsorted' := hsorted.sublist (filter_sublist (p := fun e => decide e.Participates))
  -- the first entry has the least start
  have hmin : ∀ e ∈ participating sorted.list, (sorted.list.head sorted.ne).start ≤ e.start := by
    intro e he
    have hmem := mem_of_mem_filter he
    obtain ⟨first, rest, hlist⟩ := exists_cons_of_ne_nil sorted.ne
    simp only [hlist] at hmem hsorted ⊢
    rcases mem_cons.mp hmem with rfl | hmem
    · exact UInt32.le_refl _
    · exact (pairwise_cons.mp hsorted).1 e hmem
  rw [healthy_iff]
  constructor
  · rintro ⟨hne, hloop⟩
    have hzero : (sorted.list.head sorted.ne).start.toNat = 0 := by
      by_contra hpos
      have hend := chain_end hranges' hsorted' hne (Nat.pos_of_ne_zero hpos) hloop
      omega
    rw [hzero] at hloop
    exact partitions_or_repeats hranges' hsorted' hne hloop
  · intro hcases
    obtain ⟨hne, hloop⟩ : participating sorted.list ≠ [] ∧ Chained 0 (arcs sorted.list) 0 := by
      rcases hcases with hpart | hrep
      · exact chain_of_partitions hranges' hsorted' hpart
      · obtain ⟨hne, hloop, -⟩ := chain_of_repeats hranges' hsorted' hrep
        exact ⟨hne, hloop⟩
    have hzero : (sorted.list.head sorted.ne).start.toNat = 0 := by
      obtain ⟨e, rest, hlist⟩ := exists_cons_of_ne_nil hne
      have hfirst := hmin e (hlist ▸ mem_cons_self)
      rw [arcs, hlist] at hloop
      have hstart : e.start.toNat = 0 := hloop.1
      rw [UInt32.le_iff_toNat_le] at hfirst
      omega
    rw [hzero]
    exact ⟨hne, hloop⟩

/-- On a sorted layout, no hole and no overlap means that the ranges that take part partition the
hash space, exactly where they are not one or more ranges with the whole hash space in front of a
partition of it. -/
theorem anomalies_exact_iff (layout : Layout ξ) (h : ∀ e ∈ layout.list, e.start ≤ e.stop) :
    (Healthy (dhtLayoutSort layout) ↔
        PartitionsHashSpace (participating (dhtLayoutSort layout).list)) ↔
      ¬RepeatsHashSpace (participating (dhtLayoutSort layout).list) := by
  have hranges : ∀ e ∈ participating (dhtLayoutSort layout).list, e.start ≤ e.stop :=
    fun e he => h e ((sortOuter_perm _ _).subset (mem_of_mem_filter he))
  have hsorted := (dhtLayoutSort_sorted layout h).sublist
    (filter_sublist (p := fun e => decide e.Participates))
  rw [healthy_sort_iff layout h]
  constructor
  · intro hiff hrep
    exact (chain_of_repeats hranges hsorted hrep).2.2 (hiff.mp (.inr hrep))
  · intro hrep
    exact or_iff_left hrep

/-- Two subvolumes with one half of the hash space each, and one that is zeroed. -/
def halvesLayout : Layout Nat where
  list := [⟨0, 0x80000000, 0xffffffff, 0⟩, ⟨0, 0, 0, 1⟩, ⟨0, 0, 0x7fffffff, 2⟩]
  ne := by decide
  distinct := by decide

theorem anomalies_exact_halves : (Healthy (dhtLayoutSort halvesLayout) ↔
        PartitionsHashSpace (participating (dhtLayoutSort halvesLayout).list)) ↔
      ¬RepeatsHashSpace (participating (dhtLayoutSort halvesLayout).list) :=
  anomalies_exact_iff halvesLayout (by decide)

/-- Two subvolumes that both have the whole hash space: neither a hole nor an overlap is found. -/
theorem two_wholes_no_anomaly :
    let layout : Layout Nat :=
      ⟨[⟨0, 0, 0xffffffff, 0⟩, ⟨0, 0, 0xffffffff, 1⟩], by decide, by decide⟩
    (∀ e ∈ layout.list, e.start ≤ e.stop) ∧ Healthy (dhtLayoutSort layout) ∧
      ¬PartitionsHashSpace (participating (dhtLayoutSort layout).list) := by
  refine ⟨by decide, by decide, fun h => ?_⟩
  have hcount := (partitionsHashSpace_iff _).mp h 0
  exact absurd hcount (by decide)

variable {hash : UInt32}

/-- One range that takes part has the hash, no other one does, and the search finds it. -/
def FindsOwner (layout : Layout ξ) (hash : UInt32) : Prop :=
  ∃ pre e post, layout.list = pre ++ e :: post ∧ e.Participates ∧ Contains hash e ∧
    (∀ e' ∈ pre ++ post, e'.Participates → ¬Contains hash e') ∧
    dhtLayoutSearch layout hash = some e.xlator

/-- The entry stops below its start, and the hash is in its range around the end of the hash
space. -/
def WrapsOver (hash : UInt32) (e : LayoutEntry ξ) : Prop :=
  e.stop < e.start ∧ e.toArc.Spans hash.toNat

instance (hash : UInt32) (e : LayoutEntry ξ) : Decidable (WrapsOver hash e) :=
  inferInstanceAs (Decidable (_ ∧ _))

/-- The ranges that take part have as many hashes as there are, and as many again for each of
them that goes around the end of the hash space over the hash. -/
def FillsOnce (layout : Layout ξ) (hash : UInt32) : Prop :=
  totalSize (arcs layout.list) =
    2 ^ 32 * (1 + (participating layout.list).countP (fun e => WrapsOver hash e))

instance (layout : Layout ξ) (hash : UInt32) : Decidable (FillsOnce layout hash) :=
  inferInstanceAs (Decidable (_ = _))

/-- An entry that does not take part and has the hash stands behind one that does take part and
has it. -/
def NoneInFront (layout : Layout ξ) (hash : UInt32) : Prop :=
  ∀ pre e post, layout.list = pre ++ e :: post → ¬e.Participates → Contains hash e →
    ∃ e' ∈ pre, e'.Participates ∧ Contains hash e'

-- A range has the hash on the circle, either as it stands or around the end.
private lemma count_spans (l : List (LayoutEntry ξ)) (hash : UInt32) :
    (l.map LayoutEntry.toArc).countP (fun a => a.Spans hash.toNat) =
      l.countP (fun e => Contains hash e) + l.countP (fun e => WrapsOver hash e) := by
  induction l with
  | nil => rfl
  | cons e l ih =>
    rw [map_cons, countP_cons, countP_cons, countP_cons]
    simp only [decide_eq_true_eq]
    by_cases hle : e.start ≤ e.stop
    · have hwrap : ¬WrapsOver hash e := fun h => absurd h.1 (UInt32.not_lt.mpr hle)
      rw [if_neg hwrap]
      simp only [spans_toArc hle hash]
      omega
    have hcontains : ¬Contains hash e := fun h => hle (UInt32.le_trans h.1 h.2)
    have hwrap : WrapsOver hash e ↔ e.toArc.Spans hash.toNat :=
      and_iff_right (UInt32.not_le.mp hle)
    rw [if_neg hcontains]
    simp only [hwrap]
    omega

private lemma fillsOnce_iff {layout : Layout ξ} (h : Healthy layout) : FillsOnce layout hash ↔
      layout.list.countP (fun e => e.Participates ∧ Contains hash e) = 1 := by
  have hloop := ((healthy_iff layout).mp h).2.count_loop hash.toNat_lt
  have hfilter : (participating layout.list).countP (fun e => Contains hash e) =
      layout.list.countP (fun e => e.Participates ∧ Contains hash e) := by
    rw [participating, countP_filter]
    congr 1
    funext e
    rw [Bool.decide_and, Bool.and_comm]
  rw [FillsOnce, hloop, arcs, count_spans, hfilter]
  omega

private lemma countP_middle {pre post : List (LayoutEntry ξ)} (hpart : e.Participates)
    (hcontains : Contains hash e) :
    (pre ++ e :: post).countP (fun e => e.Participates ∧ Contains hash e) = 1 ↔
      ∀ e' ∈ pre ++ post, e'.Participates → ¬Contains hash e' := by
  have hzero : (pre ++ post).countP (fun e => e.Participates ∧ Contains hash e) = 0 ↔
      ∀ e' ∈ pre ++ post, e'.Participates → ¬Contains hash e' := by
    rw [countP_eq_zero]
    simp [decide_eq_true_eq]
  rw [← hzero, countP_append, countP_append, countP_cons,
    if_pos (decide_eq_true ⟨hpart, hcontains⟩)]
  omega

-- What stands behind the first entry with the hash.
private lemma mem_of_first {as bs pre post : List (LayoutEntry ξ)} {e' : LayoutEntry ξ}
    (hsplit : as ++ e :: bs = pre ++ e' :: post) (has : ∀ a ∈ as, ¬Contains hash a)
    (hne : e ≠ e') (hcontains : Contains hash e') : e ∈ pre := by
  rcases append_eq_append_iff.mp hsplit with ⟨cs, rfl, hcs⟩ | ⟨cs, rfl, hcs⟩
  · cases cs with
    | nil => exact absurd (List.cons.inj hcs).1 hne
    | cons c cs =>
      rw [(List.cons.inj hcs).1]
      exact mem_append_right _ mem_cons_self
  · cases cs with
    | nil => exact absurd (List.cons.inj hcs).1.symm hne
    | cons c cs =>
      rw [← (List.cons.inj hcs).1] at has
      exact absurd hcontains (has e' (mem_append_right _ mem_cons_self))

/-- On a layout without holes and overlaps the search finds the one subvolume that takes part and
has the hash, exactly where the ranges fill the hash space once and no entry that does not take
part is in front with the hash. -/
theorem finds_owner_iff (layout : Layout ξ) (hash : UInt32) (h : Healthy layout) :
    FindsOwner layout hash ↔ FillsOnce layout hash ∧ NoneInFront layout hash := by
  rw [fillsOnce_iff h]
  constructor
  · rintro ⟨pre, e, post, hlist, hpart, hcontains, hothers, hsearch⟩
    have hmem : e ∈ layout.list := by
      rw [hlist]
      exact mem_append_right _ mem_cons_self
    obtain ⟨f, hfind, hxlator⟩ := Option.map_eq_some_iff.mp hsearch
    obtain rfl := inj_on_of_nodup_map layout.distinct (mem_of_find?_eq_some hfind) hmem hxlator
    obtain ⟨-, as, bs, hsplit, has⟩ := find?_eq_some_iff_append.mp hfind
    refine ⟨?_, fun pre' e' post' hlist' hskip hcontains' => ⟨f, ?_, hpart, hcontains⟩⟩
    · rw [hlist]
      exact (countP_middle hpart hcontains).mpr hothers
    · refine mem_of_first (hsplit.symm.trans hlist') (fun a ha => ?_) ?_ hcontains'
      · simpa using has a ha
      · rintro rfl
        exact hskip hpart
  · rintro ⟨hone, hfront⟩
    have hsome : ∃ e ∈ layout.list, decide (Contains hash e) = true := by
      obtain ⟨e, he, htrue⟩ := countP_pos_iff.mp (hone ▸ Nat.one_pos)
      exact ⟨e, he, decide_eq_true (of_decide_eq_true htrue).2⟩
    obtain ⟨f, hfind⟩ := Option.isSome_iff_exists.mp (find?_isSome.mpr hsome)
    obtain ⟨hcontains, as, bs, hsplit, has⟩ := find?_eq_some_iff_append.mp hfind
    have hcontains : Contains hash f := of_decide_eq_true hcontains
    have hpart : f.Participates := by
      by_contra hskip
      obtain ⟨e', he', -, hc⟩ := hfront as f bs hsplit hskip hcontains
      exact absurd (has e' he') (by simpa using hc)
    refine ⟨as, f, bs, hsplit, hpart, hcontains, ?_, by rw [dhtLayoutSearch, hfind]; rfl⟩
    rw [hsplit] at hone
    exact (countP_middle hpart hcontains).mp hone

/-- A hash of the second half of the hash space is found on the subvolume that has it. -/
theorem finds_owner_halves : FindsOwner (dhtLayoutSort halvesLayout) 0x80000001 := by
  refine (finds_owner_iff (dhtLayoutSort halvesLayout) 0x80000001 (by decide)).mpr
    ⟨by decide, fun pre e post hlist hskip hcontains => ?_⟩
  have hpart : ∀ e ∈ (dhtLayoutSort halvesLayout).list,
      Contains 0x80000001 e → e.Participates := by decide
  exact absurd (hpart e (by rw [hlist]; simp) hcontains) hskip

/-- The zeroed subvolume stands in front and has the hash 0. -/
theorem hash_zero_on_zeroed : Healthy (dhtLayoutSort halvesLayout) ∧
      dhtLayoutSearch (dhtLayoutSort halvesLayout) 0 = some 1 ∧
      ¬FindsOwner (dhtLayoutSort halvesLayout) 0 := by
  refine ⟨by decide, by decide, ?_⟩
  rintro ⟨pre, e, post, hlist, hpart, -, -, hsearch⟩
  have hzeroed : ∀ e ∈ (dhtLayoutSort halvesLayout).list,
      dhtLayoutSearch (dhtLayoutSort halvesLayout) 0 = some e.xlator → ¬e.Participates := by decide
  exact hzeroed e (by rw [hlist]; simp) hsearch hpart

end TagItGluster.Dht
