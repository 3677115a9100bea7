import TagItGluster.Base.Text

/-!
# Consuming the changelog history

`gf_history_consume` of `gf-history-changelog.c` parses the changelogs of a range in batches
of threads and publishes them in order. The loop that gathers a batch tests `ccd->retval`,
the result of the first thread of the batch, for every one of its threads.

The range is the list of its changelogs in the order of the htime file. What the system
answers to `pthread_create`, `pthread_join` and `gf_changelog_publish` is an input, batch by
batch. Line numbers: `xlators/features/changelog/lib/src/gf-history-changelog.c`.
-/

namespace TagItGluster.Changelog

open Base List

/-- A changelog of the range: the path in the htime file, whether `pread` gets at it, and
what `gf_changelog_consume` (gf-changelog-journal-handler.c:557) returns for it. -/
structure Record where
  path : Text
  readable : Bool
  consume : Int
  deriving DecidableEq, Repr

/-- The name in the paths of changelogs without content. -/
def lowC : Text := "changelog".toList

/-- `gf_is_changelog_usable` (490). -/
def gfIsChangelogUsable (path : Text) : Bool :=
  !(afterLast '/' path).tails.any (fun t => lowC.isPrefixOf t)

/-- `gf_changelog_consume_wrap` (511): the `retval` it leaves. -/
def gfChangelogConsumeWrap (r : Record) : Int :=
  if !r.readable then -1
  else if gfIsChangelogUsable r.path && r.consume != 0 then -1
  else 0

/-- The changelog was parsed, or needed no parsing. -/
def Record.parsed (r : Record) : Bool := gfChangelogConsumeWrap r == 0

/-- Answers of the system in one batch: how many threads can be created before an attempt
fails, which of them are joined, and for whose changelogs `gf_changelog_publish`
(gf-changelog-journal-handler.c:523) returns 0. It does so without a move, too, where there is
nothing to move (`gf-changelog-journal-handler.c:535–540`). -/
structure Answers where
  created : Nat
  joined : Nat → Bool
  moved : Nat → Bool

/-- The flag `publish`, and the changelogs published so far. -/
structure Progress where
  publish : Bool
  published : List Text
  deriving DecidableEq, Repr

/-- The loop at the label `sync` over the threads of a batch, from thread `iter` on; `first`
is `ccd->retval`. -/
def syncLoop (ans : Answers) (first : Int) : (iter : Nat) → List Record → Progress → Progress
  | _, [], p => p
  | iter, r :: rs, p =>
    if !ans.joined iter then syncLoop ans first (iter + 1) rs { p with publish := false }
    else if !p.publish then syncLoop ans first (iter + 1) rs p
    else if first ≠ 0 then syncLoop ans first (iter + 1) rs { p with publish := false }
    else if !ans.moved iter then syncLoop ans first (iter + 1) rs { p with publish := false }
    else syncLoop ans first (iter + 1) rs { p with published := p.published ++ [r.path] }

/-- `ccd->retval` when the threads of a batch have ended. -/
def firstRetval : List Record → Int
  | [] => 0
  | r :: _ => gfChangelogConsumeWrap r

/-- The loop over the batches, the `n`-th next; `none` when it takes more than `fuel` of
them. -/
def consumeLoop (nParallel : Nat) (sys : Nat → Answers) :
    (fuel n : Nat) → List Record → Progress → Option Progress
  | _, _, [], p => some p
  | 0, _, _ :: _, _ => none
  | fuel + 1, n, r :: rs, p =>
    let envoked := min nParallel (sys n).created
    let batch := (r :: rs).take envoked
    consumeLoop nParallel sys fuel (n + 1) ((r :: rs).drop envoked)
      (syncLoop (sys n) (firstRetval batch) 0 batch p)

/-- What the consumer leaves: the published changelogs and `hist_done`. -/
structure Outcome where
  published : List Text
  histDone : Int
  deriving DecidableEq, Repr

/-- `gf_history_consume` (557) on a range. -/
def gfHistoryConsume (nParallel : Nat) (sys : Nat → Answers) (fuel : Nat)
    (range : List Record) : Option Outcome :=
  (consumeLoop nParallel sys fuel 0 range ⟨true, []⟩).map
    (fun p => ⟨p.published, if p.publish then 0 else -1⟩)

/-- `MAX_PARALLELS`. -/
def maxParallels : Nat := 10

/-- The degree of parallelism as `gf_history_changelog` (769) passes it on: positive, and capped. -/
structure Parallelism where
  n : Nat
  pos : 0 < n
  cap : n ≤ maxParallels

/-- Every thread can be created and joined, and every publication succeeds. -/
def Answers.Fine (nParallel : Nat) (ans : Answers) : Prop :=
  nParallel ≤ ans.created ∧ (∀ i, ans.joined i = true) ∧ ∀ i, ans.moved i = true

section

variable {ans : Answers} {par : Parallelism} {sys : Nat → Answers}

/-- Once publishing has ceased, nothing more is published. -/
lemma syncLoop_ceased (first : Int) (iter : Nat) (rs : List Record) (out : List Text) :
    syncLoop ans first iter rs ⟨false, out⟩ = ⟨false, out⟩ := by
  induction rs generalizing iter with
  | nil => rfl
  | cons r rs ih => simp [syncLoop, ih]

/-- A batch whose first changelog was parsed is published as a whole. -/
lemma syncLoop_publish (hj : ∀ i, ans.joined i) (hm : ∀ i, ans.moved i) (iter : Nat)
    (rs : List Record) (out : List Text) :
    syncLoop ans 0 iter rs ⟨true, out⟩ = ⟨true, out ++ rs.map Record.path⟩ := by
  induction rs generalizing iter out with
  | nil => simp [syncLoop]
  | cons r rs ih => simp [syncLoop, hj, hm, ih]

private lemma consumeLoop_ceased (hs : ∀ n, (sys n).Fine par.n) (fuel n : Nat) (rs : List Record)
    (out : List Text) (hfuel : rs.length ≤ fuel) :
    consumeLoop par.n sys fuel n rs ⟨false, out⟩ = some ⟨false, out⟩ := by
  induction fuel generalizing n rs with
  | zero =>
    rw [length_eq_zero_iff.mp (Nat.le_zero.mp hfuel)]
    rfl
  | succ fuel ih =>
    cases rs with
    | nil => rfl
    | cons r rs =>
      have hpos := par.pos
      have hmin : min par.n (sys n).created = par.n := min_eq_left (hs n).1
      rw [consumeLoop, syncLoop_ceased]
      apply ih
      rw [length_drop]
      omega

/-- A run stops after `m` changelogs: at the end of the range, or before a batch whose first
changelog was not parsed, all batches before it starting with a parsed one. -/
structure Stops (k : Nat) (rs : List Record) (m : Nat) : Prop where
  le : m ≤ rs.length
  early : m < rs.length → m % k = 0 ∧ ∃ r, rs[m]? = some r ∧ r.parsed = false
  heads : ∀ i, i < m → i % k = 0 → ∀ r, rs[i]? = some r → r.parsed = true

private lemma stops_head_failed {k : Nat} {r : Record} (hr : r.parsed = false) (rs : List Record) :
    Stops k (r :: rs) 0 where
  le := Nat.zero_le _
  early _ := ⟨Nat.zero_mod k, r, rfl, hr⟩
  heads i hi := absurd hi (Nat.not_lt_zero i)

/-- A batch that starts with a parsed changelog moves the stop of the rest along. -/
lemma stops_batch {k m : Nat} {r : Record} {rs : List Record}
    (hr : r.parsed) (hm : Stops k ((r :: rs).drop k) m) :
    Stops k (r :: rs) (min k (r :: rs).length + m) := by
  have hle := hm.le
  rw [length_drop] at hle
  by_cases hshort : (r :: rs).length ≤ k
  · -- the batch is the last one
    have hm0 : m = 0 := by omega
    rw [Nat.min_eq_right hshort, hm0]
    refine ⟨Nat.le_refl _, fun h => absurd h (Nat.lt_irrefl _), ?_⟩
    intro i hi hik r' hr'
    have hi0 : i = 0 := by
      rw [Nat.mod_eq_of_lt (by omega)] at hik
      exact hik
    subst hi0
    cases hr'
    exact hr
  · rw [Nat.min_eq_left (by omega)]
    refine ⟨by omega, ?_, ?_⟩
    · intro hlt
      obtain ⟨hmod, r', hr', hfail⟩ := hm.early (by rw [length_drop]; omega)
      rw [getElem?_drop] at hr'
      exact ⟨by rw [Nat.add_mod_left, hmod], r', hr', hfail⟩
    intro i hi hik r' hr'
    by_cases hik' : i < k
    · rw [Nat.mod_eq_of_lt hik'] at hik
      subst hik
      cases hr'
      exact hr
    have hsub : i - k < m := by omega
    have hmod : (i - k) % k = 0 := by
      rw [← Nat.add_mod_right, Nat.sub_add_cancel (by omega)]
      exact hik
    apply hm.heads (i - k) hsub hmod
    rw [getElem?_drop, Nat.add_sub_cancel' (by omega)]
    exact hr'

/-- A run publishes the changelogs up to its stop, and reports completion at the end. -/
lemma consumeLoop_stops (hs : ∀ n, (sys n).Fine par.n) (fuel n : Nat) (rs : List Record)
    (out : List Text) (hfuel : rs.length ≤ fuel) :
    ∃ m, Stops par.n rs m ∧ consumeLoop par.n sys fuel n rs ⟨true, out⟩ =
      some ⟨decide (m = rs.length), out ++ (rs.take m).map Record.path⟩ := by
  induction fuel generalizing n rs out with
  | zero =>
    rw [length_eq_zero_iff.mp (Nat.le_zero.mp hfuel)]
    exact ⟨0, ⟨le_refl _, fun h => absurd h (by simp), fun i hi => absurd hi (by simp)⟩,
      by simp [consumeLoop]⟩
  | succ fuel ih =>
    cases rs with
    | nil =>
      exact ⟨0, ⟨le_refl _, fun h => absurd h (by simp), fun i hi => absurd hi (by simp)⟩,
        by simp [consumeLoop]⟩
    | cons r rs =>
      have hpos := par.pos
      have hmin : min par.n (sys n).created = par.n := min_eq_left (hs n).1
      have hfuel' : ((r :: rs).drop par.n).length ≤ fuel := by
        rw [length_drop]
        omega
      have hbatch : (r :: rs).take par.n = r :: rs.take (par.n - 1) := by
        obtain ⟨k, hk⟩ := Nat.exists_eq_succ_of_ne_zero (Nat.pos_iff_ne_zero.mp hpos)
        rw [hk]
        rfl
      have hfirst : firstRetval ((r :: rs).take par.n) = gfChangelogConsumeWrap r := by
        rw [hbatch]
        rfl
      rw [consumeLoop, hmin, hfirst]
      by_cases hr : gfChangelogConsumeWrap r = 0
      · have hparsed : r.parsed := by
          rw [Record.parsed, hr]
          rfl
        rw [hr, syncLoop_publish (hs n).2.1 (hs n).2.2]
        obtain ⟨m, hm, hrun⟩ := ih (n + 1) ((r :: rs).drop par.n)
          (out ++ ((r :: rs).take par.n).map Record.path) hfuel'
        refine ⟨min par.n (r :: rs).length + m, stops_batch hparsed hm, ?_⟩
        rw [hrun, Option.some.injEq, Progress.mk.injEq]
        constructor
        · rw [length_drop, decide_eq_decide]
          omega
        · rw [append_assoc, ← map_append, take_add, ← take_eq_take_min]
          by_cases hshort : (r :: rs).length ≤ par.n
          · rw [min_eq_right hshort, drop_length, drop_eq_nil_of_le hshort]
          · rw [min_eq_left (by omega)]
      · have hfail : r.parsed = false := beq_eq_false_iff_ne.mpr hr
        have hcease : syncLoop (sys n) (gfChangelogConsumeWrap r) 0 (r :: rs.take (par.n - 1))
            ⟨true, out⟩ = ⟨false, out⟩ := by
          simp [syncLoop, hr, syncLoop_ceased]
        rw [hbatch, hcease, consumeLoop_ceased hs _ _ _ _ hfuel']
        exact ⟨0, stops_head_failed hfail rs, by simp⟩

private lemma Stops.unique {k m m' : Nat} {rs : List Record} (h : Stops k rs m) (h' : Stops k rs m')
    : m = m' := by
  have hno : ∀ {a b : Nat}, Stops k rs a → Stops k rs b → ¬a < b := by
    intro a b ha hb hab
    obtain ⟨hmod, r, hr, hfail⟩ := ha.early (lt_of_lt_of_le hab hb.le)
    rw [hb.heads a hab hmod r hr] at hfail
    cases hfail
  exact le_antisymm (Nat.not_lt.mp (hno h' h)) (Nat.not_lt.mp (hno h h'))

end

/-- The changelogs before the first one that was not parsed. -/
def beforeFailure (range : List Record) : List Record := range.takeWhile Record.parsed

/-- The consumer ends, has published exactly the changelogs before the first failure, in
order, and reports completion if and only if there was none. -/
def StopsAtFailure (nParallel : Nat) (sys : Nat → Answers) (range : List Record) : Prop :=
  ∃ out, (∀ fuel, range.length ≤ fuel → gfHistoryConsume nParallel sys fuel range = some out) ∧
    out.published = (beforeFailure range).map Record.path ∧
    (out.histDone = 0 ↔ ∀ r ∈ range, r.parsed = true)

section

variable {range : List Record}

private lemma take_beforeFailure : range.take (beforeFailure range).length = beforeFailure range :=
  prefix_iff_eq_take.mp (List.takeWhile_prefix _) |>.symm

private lemma parsed_of_lt {i : Nat} {r : Record} (hi : i < (beforeFailure range).length)
    (hr : range[i]? = some r) : r.parsed = true := by
  have hmem : r ∈ beforeFailure range := by
    rw [← take_beforeFailure]
    apply mem_of_getElem?
    rw [getElem?_take_of_lt hi]
    exact hr
  exact mem_takeWhile_imp hmem

private lemma failed_at {r : Record} (hr : range[(beforeFailure range).length]? = some r) :
    r.parsed = false := by
  have hsplit : beforeFailure range ++ range.dropWhile Record.parsed = range :=
    takeWhile_append_dropWhile
  have hhead : (range.dropWhile Record.parsed)[0]? = some r := by
    have hat : (beforeFailure range ++ range.dropWhile Record.parsed)[
        (beforeFailure range).length]? = some r := by
      rw [hsplit]
      exact hr
    rwa [getElem?_append_right (Nat.le_refl _), Nat.sub_self] at hat
  have hne : range.dropWhile Record.parsed ≠ [] := by
    intro hnil
    rw [hnil] at hhead
    cases hhead
  have hnot := head_dropWhile_not Record.parsed hne
  have heq : (range.dropWhile Record.parsed).head hne = r := by
    rw [← head?_eq_getElem?, head?_eq_some_head hne] at hhead
    exact Option.some.inj hhead
  rwa [heq] at hnot

private lemma all_parsed_iff :
    (∀ r ∈ range, r.parsed) ↔ (beforeFailure range).length = range.length := by
  rw [beforeFailure, ← takeWhile_eq_self_iff]
  constructor
  · intro h
    rw [h]
  · intro h
    exact (List.takeWhile_prefix _).eq_of_length h

end

/-- The consumer meets its purpose exactly if nothing fails, or the first failure comes at
the start of a batch. -/
theorem history_consume_iff (par : Parallelism) (sys : Nat → Answers)
    (hs : ∀ n, (sys n).Fine par.n) (range : List Record) :
    StopsAtFailure par.n sys range ↔ (beforeFailure range).length = range.length ∨
        (beforeFailure range).length % par.n = 0 := by
  obtain ⟨m, hm, -⟩ := consumeLoop_stops hs range.length 0 range [] (le_refl _)
  have hrun : ∀ fuel, range.length ≤ fuel → gfHistoryConsume par.n sys fuel range =
      some ⟨(range.take m).map Record.path, if m = range.length then 0 else -1⟩ := by
    intro fuel hfuel
    obtain ⟨m', hm', hloop⟩ := consumeLoop_stops hs fuel 0 range [] hfuel
    rw [gfHistoryConsume, hloop, hm'.unique hm]
    simp
  have hT : (beforeFailure range).length ≤ range.length :=
    (List.takeWhile_prefix _).length_le
  have hdone : ((if m = range.length then 0 else -1) = 0) ↔ m = range.length := by
    split <;> simp [*]
  constructor
  · rintro ⟨out, hout, hpub, -⟩
    have heq := Option.some.inj ((hrun _ (le_refl _)).symm.trans (hout _ (le_refl _)))
    rw [← heq] at hpub
    have hlen := congrArg List.length hpub
    simp only [length_map, length_take] at hlen
    by_cases hlt : m < range.length
    · right
      have hmT : m = (beforeFailure range).length := by omega
      rw [← hmT]
      exact (hm.early hlt).1
    · left
      omega
  · intro hcond
    -- the run cannot stop before the first failure, nor pass it
    have hmT : m = (beforeFailure range).length := by
      apply le_antisymm
      · apply Nat.not_lt.mp
        intro hlt
        have hlen : (beforeFailure range).length < range.length := lt_of_lt_of_le hlt hm.le
        have hmod := hcond.resolve_left (ne_of_lt hlen)
        obtain ⟨r, hr⟩ : ∃ r, range[(beforeFailure range).length]? = some r :=
          ⟨_, getElem?_eq_getElem hlen⟩
        have hpar := hm.heads _ hlt hmod r hr
        rw [failed_at hr] at hpar
        cases hpar
      · apply Nat.not_lt.mp
        intro hlt
        obtain ⟨-, r, hr, hfail⟩ := hm.early (lt_of_lt_of_le hlt hT)
        rw [parsed_of_lt hlt hr] at hfail
        cases hfail
    refine ⟨_, hrun, ?_, ?_⟩
    · rw [hmT, take_beforeFailure]
    · rw [hdone, all_parsed_iff, hmT]

/-- The system as it is without errors. -/
def noErrors : Nat → Answers := fun _ => ⟨maxParallels, fun _ => true, fun _ => true⟩

/-- A changelog that can be parsed. -/
def goodLog (c : Char) : Record := ⟨"/CHANGELOG.".toList ++ [c], true, 0⟩

/-- A changelog that cannot. -/
def badLog (c : Char) : Record := ⟨"/CHANGELOG.".toList ++ [c], true, -1⟩

/-- With two threads the failure of the third changelog is found. -/
theorem history_consume_third :
    StopsAtFailure 2 noErrors [goodLog '0', goodLog '1', badLog '2', goodLog '3'] :=
  (history_consume_iff ⟨2, by decide, by decide⟩ noErrors
    (fun _ => ⟨Parallelism.cap _, fun _ => rfl, fun _ => rfl⟩) _).mpr (.inr (by decide))

/-- With two threads the failure of the second changelog is not: both changelogs are published
and completion is reported. -/
theorem history_consume_missed : gfHistoryConsume 2 noErrors 2 [goodLog '0', badLog '1'] =
      some ⟨[(goodLog '0').path, (badLog '1').path], 0⟩ ∧
    ¬StopsAtFailure 2 noErrors [goodLog '0', badLog '1'] := by
  have hrun : gfHistoryConsume 2 noErrors 2 [goodLog '0', badLog '1'] =
      some ⟨[(goodLog '0').path, (badLog '1').path], 0⟩ := by
    decide
  refine ⟨hrun, ?_⟩
  rintro ⟨out, hout, hpub, -⟩
  have heq := Option.some.inj (hrun.symm.trans (hout 2 (by decide)))
  rw [← heq] at hpub
  exact absurd hpub (by decide)

end TagItGluster.Changelog
