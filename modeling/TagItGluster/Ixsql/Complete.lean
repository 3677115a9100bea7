import TagItGluster.Ixsql.Slice

/-!
# When a sliced query delivers the whole result

With a slice count that is not zero as an `int` the loop returns and has printed every row of
every brick once. A negative count asks for more rows than any result has, so that one round
is enough. With zero no round makes progress: as long as some brick has a row, it keeps
telling the client to come back. A row or a name of a brick that does not fit its buffer
overruns it in the first round.
-/

namespace TagItGluster.Ixsql

open Base Libglusterfs Server Dht List

variable {session sql : Text} {sched : Nat → List (Nat × Int)}

private lemma length_rows_lt (sql : Text) (b : BrickServer) : (b.rows sql).length < 2 ^ 31 := by
  unfold BrickServer.rows
  split
  · decide
  · next rs _ => exact rs.rows_lt

-- Up to `n` rows of each brick fit into the counter of the client.
private lemma length_take_le (sql : Text) (n : Nat) (bricks : List BrickServer) :
    (bricks.flatMap (fun b => (b.rows sql).take n)).length ≤ bricks.length * 2 ^ 31 := by
  induction bricks with
  | nil => exact le_refl 0
  | cons b bricks ih =>
    have hb := length_rows_lt sql b
    rw [flatMap_cons, length_append, length_cons, length_take]
    omega

private lemma take_all {n : Nat} {bricks : List BrickServer}
    (h : ∀ b ∈ bricks, (b.rows sql).length ≤ n) :
    bricks.flatMap (fun b => (b.rows sql).take n) = bricks.flatMap (BrickServer.rows sql) :=
  flatMap_congr (fun b hb => take_of_length_le (h b hb))

-- What does not depend on the registered results is the same before and after a round.
private lemma flatMap_rows {β : Type} (f : List Text → List β) {bricks bricks' : List BrickServer}
    (h : bricks'.map (BrickServer.rows sql) = bricks.map (BrickServer.rows sql)) :
    bricks'.flatMap (fun b => f (b.rows sql)) = bricks.flatMap (fun b => f (b.rows sql)) := by
  have hmap (bs : List BrickServer) : bs.flatMap (fun b => f (b.rows sql)) =
      (bs.map (BrickServer.rows sql)).flatMap f := by
    rw [flatMap_map]
  rw [hmap, hmap, h]

section

variable {c : Nat}

/-- Before round `k` of a loop with slices of `c` rows. -/
private structure AtRound (session sql : Text) (sched : Nat → List (Nat × Int)) (c k : Nat)
    (s : SliceState) : Prop where
  serving : Serving session sql sched s.bricks
  offset : s.offset = (k * c : Nat)
  offset_lt : k * c < 2 ^ 31
  resCount : s.resCount = s.printed.length
  printed : s.printed.Perm (s.bricks.flatMap (fun b => (b.rows sql).take (k * c)))

private lemma toUint64_offset {n : Nat} (h : n < 2 ^ 31) : toUint64 (n : Int) = n :=
  toUint64_natCast (by omega)

-- The slices of round `k` extend what has been printed.
private lemma perm_next {s : SliceState} {k : Nat} (h : AtRound session sql sched c k s)
    (hc : c < 2 ^ 31) {rows : List Text} (hrows : rows.Perm (roundRows sql s.offset c s.bricks)) :
    (s.printed ++ rows).Perm (s.bricks.flatMap (fun b => (b.rows sql).take ((k + 1) * c))) := by
  have hsplit : s.bricks.flatMap (fun b => (b.rows sql).take ((k + 1) * c)) = s.bricks.flatMap
      (fun b => (b.rows sql).take (k * c) ++ ((b.rows sql).drop (k * c)).take c) := by
    refine flatMap_congr (fun b _ => ?_)
    rw [Nat.succ_mul, take_add]
  rw [roundRows, h.offset, toUint64_offset h.offset_lt, toUint64_offset hc] at hrows
  rw [hsplit]
  exact (h.printed.append hrows).trans (flatMap_append_perm _ _ _)

private lemma allServed_iff {s : SliceState} {k : Nat} (h : AtRound session sql sched c k s)
    (hc : c < 2 ^ 31) : AllServed sql s.offset c s.bricks ↔
      ∀ b ∈ s.bricks, (b.rows sql).length ≤ (k + 1) * c := by
  rw [AllServed, h.offset, toUint64_offset h.offset_lt, toUint64_offset hc, Nat.succ_mul]

private lemma keyFits {s : SliceState} {k : Nat} (h : AtRound session sql sched c k s) :
    KeyFits (toUint64 s.offset) (toUint64 c) := by
  have hlt := h.offset_lt
  rw [h.offset, toUint64_offset hlt]
  exact .inr (by omega)

private lemma round_atRound (hc : c < 2 ^ 31) {k : Nat} {s : SliceState}
    (h : AtRound session sql sched c k s) : ∃ rows, rows.Perm (roundRows sql s.offset c s.bricks) ∧
      sliceRound session sql c sched s = some
        (if AllServed sql s.offset c s.bricks then .stop ⟨0, s.printed ++ rows⟩
        else .next ⟨s.round + 1, toInt32 (s.offset + c), s.resCount + rows.length,
          afterRound session sql c s, s.printed ++ rows⟩) := by
  refine sliceRound_eq h.serving (keyFits h) ?_
  have hlen := (perm_next h hc (List.Perm.refl _)).length_eq
  have hle := length_take_le sql ((k + 1) * c) s.bricks
  have hlt := h.serving.length_lt
  rw [length_append] at hlen
  rw [h.resCount]
  omega

-- A brick with rows left has fewer than `2 ^ 31` of them, so the offset has not overflowed.
private lemma atRound_next (hc : c < 2 ^ 31) {k : Nat} {s : SliceState}
    (h : AtRound session sql sched c k s) {rows : List Text}
    (hrows : rows.Perm (roundRows sql s.offset c s.bricks))
    (hleft : ¬AllServed sql s.offset c s.bricks) :
    AtRound session sql sched c (k + 1) ⟨s.round + 1, toInt32 (s.offset + c),
      s.resCount + rows.length, afterRound session sql c s, s.printed ++ rows⟩ := by
  have hoffset : (k + 1) * c < 2 ^ 31 := by
    rw [allServed_iff h hc] at hleft
    by_contra hge
    exact hleft (fun b _ => by have := length_rows_lt sql b; omega)
  constructor
  · exact serving_afterRound h.serving (keyFits h)
  · simp only
    rw [h.offset, toInt32_eq_self] <;> rw [Nat.succ_mul] at hoffset
    · rw [Nat.succ_mul]
      omega
    · omega
    · omega
  · exact hoffset
  · rw [h.resCount, length_append]
  · rw [flatMap_rows (fun rows => rows.take ((k + 1) * c)) (rows_afterRound c s)]
    exact perm_next h hc hrows

-- The number of rounds is bounded by the longest result.
private lemma loop_atRound (hc : c < 2 ^ 31) {j k : Nat} {s : SliceState}
    (h : AtRound session sql sched c k s)
    (hj : ∀ b ∈ s.bricks, (b.rows sql).length ≤ (k + j + 1) * c) :
    ∃ printed, sliceLoop session sql c sched (j + 1) s = some ⟨0, printed⟩ ∧
      printed.Perm (s.bricks.flatMap (BrickServer.rows sql)) := by
  induction j generalizing k s with
  | zero =>
    obtain ⟨rows, hrows, hround⟩ := round_atRound hc h
    rw [if_pos ((allServed_iff h hc).mpr hj)] at hround
    refine ⟨s.printed ++ rows, by rw [sliceLoop, hround], ?_⟩
    have hperm := perm_next h hc hrows
    rwa [take_all hj] at hperm
  | succ j ih =>
    obtain ⟨rows, hrows, hround⟩ := round_atRound hc h
    by_cases hall : AllServed sql s.offset c s.bricks
    · rw [if_pos hall] at hround
      refine ⟨s.printed ++ rows, by rw [sliceLoop, hround], ?_⟩
      have hperm := perm_next h hc hrows
      rwa [take_all ((allServed_iff h hc).mp hall)] at hperm
    rw [if_neg hall] at hround
    have hsame := @rows_afterRound session sql c s
    obtain ⟨printed, hloop, hperm⟩ := ih (atRound_next hc h hrows hall) (by
      have hold : ∀ rows ∈ s.bricks.map (BrickServer.rows sql),
          rows.length ≤ (k + 1 + j + 1) * c := by
        intro rows hmem
        obtain ⟨b, hb, rfl⟩ := mem_map.mp hmem
        rw [add_right_comm k 1 j]
        exact hj b hb
      rw [← hsame] at hold
      intro b hb
      exact hold _ (mem_map_of_mem hb))
    refine ⟨printed, by rw [sliceLoop, hround]; exact hloop, ?_⟩
    exact hperm.trans (List.Perm.of_eq (flatMap_rows id hsame))

end

-- One round is enough where no result is longer than a slice.
private lemma loop_one_round {bricks : List BrickServer} {count : Int}
    (h : Serving session sql sched bricks) (hall : AllServed sql 0 count bricks) :
    ∃ printed, sliceLoop session sql count sched 1 ⟨0, 0, 0, bricks, []⟩ = some ⟨0, printed⟩ ∧
      printed.Perm (bricks.flatMap (BrickServer.rows sql)) := by
  have hrows : roundRows sql 0 count bricks = bricks.flatMap (BrickServer.rows sql) := by
    rw [← take_all (fun b hb => by simpa [toUint64] using hall b hb)]
    rfl
  have hlen : (bricks.flatMap (BrickServer.rows sql)).length < 2 ^ 64 := by
    have hle := length_take_le sql (2 ^ 31) bricks
    rw [take_all (fun b _ => le_of_lt (length_rows_lt sql b))] at hle
    have hlt := h.length_lt
    omega
  obtain ⟨rows, hperm, hround⟩ := @sliceRound_eq session sql sched ⟨0, 0, 0, bricks, []⟩ h count
    (.inr (by simp [toUint64])) (by simp only; rw [hrows]; omega)
  rw [if_pos hall] at hround
  refine ⟨rows, by rw [sliceLoop, hround]; rfl, ?_⟩
  rw [← hrows]
  exact hperm

-- With a count of zero the loop asks for the same empty slice again.
private lemma loop_zero {s : SliceState} (h : Serving session sql sched s.bricks)
    (hoffset : s.offset = 0) (hcount : s.resCount = 0)
    (hleft : ∃ b ∈ s.bricks, b.rows sql ≠ []) (fuel : Nat) :
    sliceLoop session sql 0 sched fuel s = none := by
  induction fuel generalizing s with
  | zero => rfl
  | succ fuel ih =>
    have hempty : roundRows sql s.offset 0 s.bricks = [] := by
      simp [roundRows, toUint64]
    have hkey : KeyFits (toUint64 s.offset) (toUint64 0) := .inl rfl
    obtain ⟨rows, hperm, hround⟩ := sliceRound_eq h hkey (by rw [hempty, hcount]; decide)
    rw [hempty, perm_nil] at hperm
    obtain ⟨b, hb, hne⟩ := hleft
    have hnot : ¬AllServed sql s.offset 0 s.bricks := by
      intro hall
      have hle := hall b hb
      rw [hoffset] at hle
      exact hne (length_eq_zero_iff.mp (Nat.le_zero.mp hle))
    rw [if_neg hnot] at hround
    rw [sliceLoop, hround]
    refine ih (serving_afterRound h hkey) ?_ ?_ ?_
    · rw [hoffset]
      rfl
    · rw [hcount, hperm]
      rfl
    · have hmem : b.rows sql ∈ (afterRound session sql 0 s).map (BrickServer.rows sql) := by
        rw [rows_afterRound]
        exact mem_map_of_mem hb
      obtain ⟨b', hb', he⟩ := mem_map.mp hmem
      exact ⟨b', hb', he ▸ hne⟩

-- A positive slice count: as many rounds as a brick can have rows are enough.
private lemma loop_pos {bricks : List BrickServer} (h : Serving session sql sched bricks)
    {c : Nat} (hc : 1 ≤ c) (hmax : c < 2 ^ 31) :
    ∃ fuel printed, sliceLoop session sql c sched fuel ⟨0, 0, 0, bricks, []⟩ = some ⟨0, printed⟩ ∧
      printed.Perm (bricks.flatMap (BrickServer.rows sql)) := by
  have hstart : AtRound session sql sched c 0 ⟨0, 0, 0, bricks, []⟩ := by
    refine ⟨h, by simp, by omega, rfl, ?_⟩
    simp
  have hfuel : ∀ b ∈ bricks, (b.rows sql).length ≤ (0 + 2 ^ 31 + 1) * c := by
    intro b _
    have hlt := length_rows_lt sql b
    calc (b.rows sql).length ≤ (0 + 2 ^ 31 + 1) * 1 := by omega
      _ ≤ (0 + 2 ^ 31 + 1) * c := Nat.mul_le_mul_left _ hc
  obtain ⟨printed, hloop, hperm⟩ := @loop_atRound _ _ _ c (by omega) (2 ^ 31) 0 _ hstart hfuel
  exact ⟨2 ^ 31 + 1, printed, hloop, hperm⟩

/-- What the buffers on the way of a result can take: the name of the brick in `keybuf[64]` of
`dht_ipc_cbk`, the rows and their numbers in `buf[1024]` and `keybuf[10]` of
`direct_query_callback`. -/
structure BrickServer.FitsBuffers (sql : Text) (b : BrickServer) : Prop where
  identity : b.identity.length ≤ 55
  row : ∀ row ∈ b.rows sql, row.length ≤ 1022
  rows : (b.rows sql).length ≤ 10 ^ 9

private lemma fits_iff {b : BrickServer} {rs : ResultSet} (h : b.query.exec sql = some rs) :
    rs.Fits ↔ (∀ row ∈ b.rows sql, row.length ≤ 1022) ∧ (b.rows sql).length ≤ 10 ^ 9 := by
  have hrows : b.rows sql = rs.rows := by rw [BrickServer.rows, h]
  rw [hrows, ResultSet.Fits]
  exact and_congr_left' (forall₂_congr (fun row _ => by omega))

-- A query that returns has not overrun a buffer in its first round.
private lemma fitsBuffers_of_loop (hcolon : ':' ∈ session) {bricks : List BrickServer}
    (hsched : Interleaves bricks.length (sched 0))
    (hexec : ∀ b ∈ bricks, ∃ rs, b.query.exec sql = some rs)
    (hfresh : ∀ b ∈ bricks, b.qrset.lookup session = none) {count : Int} {fuel : Nat}
    {o : Outcome} (hret : sliceLoop session sql count sched fuel ⟨0, 0, 0, bricks, []⟩ = some o) :
    ∀ b ∈ bricks, b.FitsBuffers sql := by
  have hround : sliceRound session sql count sched ⟨0, 0, 0, bricks, []⟩ ≠ none := by
    intro hnone
    cases fuel with
    | zero => cases hret
    | succ fuel =>
      rw [sliceLoop, hnone] at hret
      cases hret
  have hfits : ∀ b ∈ bricks, ∀ rs, b.query.exec sql = some rs → rs.Fits := by
    intro b hb rs hrs
    by_contra hnot
    have hover : bricks.any (BrickServer.overruns (ixsqlSqlQuery session sql 0 count)) :=
      any_eq_true.mpr ⟨b, hb, overruns_of_not_fits 0 count hrs hnot (hfresh b hb)⟩
    exact hround (by simp only [sliceRound, hover, if_true])
  have hready : ∀ b ∈ bricks, Ready session sql b := by
    intro b hb
    obtain ⟨rs, hrs⟩ := hexec b hb
    exact ⟨rs, hrs, hfits b hb rs hrs, .inl (hfresh b hb)⟩
  have hshort : ∀ b ∈ bricks, b.identity.length ≤ 55 := by
    by_contra hlong
    exact hround (sliceRound_long (s := ⟨0, 0, 0, bricks, []⟩) hcolon hsched hready
      (.inr (by simp [toUint64])) hlong)
  intro b hb
  obtain ⟨rs, hrs⟩ := hexec b hb
  obtain ⟨hrow, hrows⟩ := (fits_iff hrs).mp (hfits b hb rs hrs)
  exact ⟨hshort b hb, hrow, hrows⟩

/-- A brick on which every statement has the two rows `a` and `b`. -/
def sampleBrick : BrickServer where
  identity := "h-/db".toList
  query := (sampleRequest 0 0).env
  active := sampleActive
  qrset := ∅

private lemma sample_interleaves (_ : Nat) :
    Interleaves [sampleBrick].length [(0, 1), (0, 2)] := by
  refine ⟨by decide, ?_⟩
  intro i hi
  obtain rfl : i = 0 := by simpa using hi
  rfl

end TagItGluster.Ixsql
