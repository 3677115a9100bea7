import TagItGluster.Dht.Agreement
import TagItGluster.Dht.Arrivals

/-!
# Sliced queries

`ixsql` sends a select statement to all bricks and fetches the result in slices, until no
brick asks it to come back. The size of a slice is an unsigned 64-bit number that the user
gives; the loop keeps it, and the offset it counts, in an `int`. Line numbers:
`tools/imess-cli/src/ixsql.c`.
-/

namespace TagItGluster.Ixsql

open Base Libglusterfs Server Dht List

/-- A brick, as far as ipc requests go. -/
structure BrickServer where
  identity : Text
  query : QueryEnv
  active : ActiveEnv
  qrset : Qrset

/-- The brick overruns a buffer when it answers a request. -/
def BrickServer.overruns (xin : Dict) (b : BrickServer) : Bool :=
  (imsIpc b.identity b.query b.active xin b.qrset).isNone

/-- The brick answers a request; an error return is told as such. -/
def BrickServer.serve (xin : Dict) (b : BrickServer) : BrickServer × IpcReply :=
  match imsIpc b.identity b.query b.active xin b.qrset with
  | some (qrset, some x) => ({ b with qrset }, ⟨0, x⟩)
  | some (qrset, none) => ({ b with qrset }, ⟨-1, ∅⟩)
  | none => (b, ⟨-1, ∅⟩)

@[simp]
lemma serve_identity (xin : Dict) (b : BrickServer) : (b.serve xin).1.identity = b.identity := by
  unfold BrickServer.serve
  split <;> rfl

@[simp]
lemma serve_query (xin : Dict) (b : BrickServer) : (b.serve xin).1.query = b.query := by
  unfold BrickServer.serve
  split <;> rfl

/-- `ixsql_new_session_id` (37). -/
def ixsqlNewSessionId (hostname : Text) (pid seq : Nat) : Text :=
  hostname ++ ":".toList ++ dec pid ++ ":".toList ++ dec seq

/-- The request that `ixsql_sql_query` (ixsql-cmd.c:240) sends. -/
def ixsqlSqlQuery (session sql : Text) (offset count : Int) : Dict :=
  (((((∅ : Dict).setStr "type".toList "query".toList).setStr "session".toList session).setStr
    "sql".toList sql).setUint64 "offset".toList (toUint64 offset)).setUint64
      "count".toList (toUint64 count)

/-- `glfs_ipc` on a distributed volume: the dictionary that the caller is unwound with, where
the callbacks of the replies interleave as `ms` says; `none` when one of them has overrun its
`keybuf`. -/
def glfsIpc (ms : List (Nat × Int)) (replies : List IpcReply) : Option (Option Dict) :=
  ((dhtIpc replies).run ipcHandle ms).bind
    (fun c => if c.state.merge.overrun then none else (unwound c).head?)

/-- `print_query_result` (216): rows from `i` on, at most `n`, up to the first one missing. -/
def printQueryResult (result : Dict) : Nat → Nat → List Text
  | 0, _ => []
  | n + 1, i =>
    match result.getStr (dec i) with
    | none => []
    | some row => row :: printQueryResult result n (i + 1)

/-- The pattern `*:count`. -/
def isCountKey (key : Text) : Bool := ":count".toList.isSuffixOf key

/-- `data_to_uint64` (dict.c:1090), for the values that are matched. -/
def dataToUint64 : Data → Nat
  | .num z => toUint64 z
  | _ => 0

/-- The variables of `process_sql_sliced`, the bricks, and what has been printed. -/
structure SliceState where
  round : Nat
  offset : Int
  resCount : Nat
  bricks : List BrickServer
  printed : List Text

/-- The end of `process_sql_sliced`: its return value and what has been printed. -/
structure Outcome where
  ret : Int
  printed : List Text

/-- One round of the loop: it returns, or goes on. -/
inductive Round where
  | stop (o : Outcome)
  | next (s : SliceState)

/-- What a round does with the merged dictionary. -/
def sliceResult (count : Int) (s : SliceState) (bricks : List BrickServer) (result : Dict) :
    Round :=
  let counts := (result.members isCountKey).map (fun e => dataToUint64 e.2)
  if counts.length = 0 then .stop ⟨-1, s.printed⟩
  else
    let resCount := (s.resCount + counts.sum) % 2 ^ 64
    let printed := s.printed ++ printQueryResult result resCount 0
    match result.getInt32 "comeback".toList with
    | none => .stop ⟨-2, printed⟩
    | some comeback =>
      if 0 < comeback then
        .next ⟨s.round + 1, toInt32 (s.offset + count), resCount, bricks, printed⟩
      else .stop ⟨0, printed⟩

/-- One round of `process_sql_sliced`; `none` when a buffer has been overrun. On a null
dictionary nothing is counted or printed, and reading `comeback` is an error. -/
def sliceRound (session sql : Text) (count : Int) (sched : Nat → List (Nat × Int))
    (s : SliceState) : Option Round :=
  let xin := ixsqlSqlQuery session sql s.offset count
  let served := s.bricks.map (BrickServer.serve xin)
  if s.bricks.any (BrickServer.overruns xin) then none
  else match glfsIpc (sched s.round) (served.map Prod.snd) with
  | none => none
  | some none => some (.stop ⟨-22, s.printed⟩)
  | some (some result) => some (sliceResult count s (served.map Prod.fst) result)

/-- The loop, for at most `fuel` rounds; `none` when it has not returned. -/
def sliceLoop (session sql : Text) (count : Int) (sched : Nat → List (Nat × Int)) :
    Nat → SliceState → Option Outcome
  | 0, _ => none
  | fuel + 1, s =>
    match sliceRound session sql count sched s with
    | none => none
    | some (.stop o) => some o
    | some (.next s') => sliceLoop session sql count sched fuel s'

/-- `process_sql_sliced` (261) with a slice count that `.slice` or `-s` has set. -/
def processSqlSliced (session sql : Text) (sliceCount : Nat) (sched : Nat → List (Nat × Int))
    (fuel : Nat) (bricks : List BrickServer) : Option Outcome :=
  sliceLoop session sql (toInt32 sliceCount) sched fuel ⟨0, 0, 0, bricks, []⟩

/-- The rows that the statement has on a brick. -/
def BrickServer.rows (sql : Text) (b : BrickServer) : List Text :=
  match b.query.exec sql with
  | none => []
  | some rs => rs.rows

/-- Each of `n` callbacks takes its two locked sections. -/
def Interleaves (n : Nat) (ms : List (Nat × Int)) : Prop :=
  (∀ m ∈ ms, m.1 < n) ∧ ∀ i < n, ms.countP (fun m => m.1 == i) = 2

private lemma isCountKey_dec (n : Nat) : isCountKey (dec n) = false := by
  rw [isCountKey, Bool.eq_false_iff, ne_eq, isSuffixOf_iff_suffix]
  intro h
  have hmem : ':' ∈ dec n := h.subset (by decide)
  exact absurd (isDigit_of_mem_dec hmem) (by decide)

private lemma isCountKey_name (name : Text) : isCountKey (name ++ ":count".toList) = true := by
  rw [isCountKey, isSuffixOf_iff_suffix]
  exact suffix_append name _

private lemma isCountKey_other (name : Text) :
    ∀ suffix ∈ [":latency", ":dbtime", ":ret", ":runtime"],
      isCountKey (name ++ suffix.toList) = false := by
  intro suffix hs
  simp only [mem_cons, not_mem_nil, or_false] at hs
  rcases hs with rfl | rfl | rfl | rfl <;> rw [isCountKey, List.isSuffixOf, reverse_append] <;> rfl

/-- The keys `*:count` of the merged dictionary tell the number of rows of each reply. -/
lemma mergeAll_members (order : List (Int × QueryReply)) (hlen : order.length < 2 ^ 31)
    (hnames : (order.map (fun x => x.2.xlname)).Nodup) :
    (mergeAll order).xdata.members isCountKey =
      order.reverse.map (fun x => (x.2.xlname ++ ":count".toList, .num x.2.rows.length)) := by
  induction order using List.reverseRecOn with
  | nil => decide
  | append_singleton order x ih =>
    rw [length_append] at hlen
    rw [map_append, nodup_append] at hnames
    have hold := mergeAll_holds order (by omega)
    have hmem := ih (by omega) hnames.1
    obtain ⟨m, hm, -⟩ := accept_query x.2
    obtain ⟨hrows, hback⟩ := merge_bounds order x.2 hlen
    rw [mergeAll_snoc order hm, hold.reply_members x.1 hm hrows hback isCountKey_dec
      ⟨by decide, by decide⟩ (isCountKey_other _) (isCountKey_name _) ?_, hmem]
    · rw [reverse_append, reverse_singleton, singleton_append, map_cons]
    rw [hmem, map_map]
    intro hin
    obtain ⟨y, hy, he⟩ := mem_map.mp hin
    have hsame : y.2.xlname = x.2.xlname := append_cancel_right he
    exact hnames.2.2 _ (mem_map_of_mem (mem_reverse.mp hy)) _
      (mem_map_of_mem (mem_singleton_self x)) hsame

/-- When all bricks answer, every interleaving of the callbacks gives the caller a merge of
all replies, if no name of a brick is too long. -/
lemma glfsIpc_eq (qs : List QueryReply) (hne : qs ≠ []) (ms : List (Nat × Int))
    (hms : Interleaves qs.length ms) : ∃ order, (order.map Prod.snd).Perm qs ∧
      glfsIpc ms (qs.map (fun q => queryReply (some q))) =
        if ∀ q ∈ qs, q.xlname.length ≤ 55 then some (some (mergeAll order).xdata) else none := by
  have hmap : qs.map (fun q => queryReply (some q)) = (qs.map some).map queryReply := by
    rw [map_map]
    rfl
  obtain ⟨c, hrun, hfin⟩ := @Pool.run_of_takes _ _ _ _ _
      (dhtIpc (qs.map (fun q => queryReply (some q)))) ms ipcHandle
        (by simpa [dhtIpc] using hms.1) (by
    intro i p hp
    simp only [dhtIpc, map_map, getElem?_map] at hp
    obtain ⟨q, hq, rfl⟩ := Option.map_eq_some_iff.mp hp
    obtain ⟨hi, -⟩ := List.getElem?_eq_some_iff.mp hq
    obtain ⟨m, hm, -⟩ := accept_query q
    rw [hms.2 i hi, Function.comp_apply, dhtIpcCbk, hm]
    exact .ask _ _ (fun _ => .ask _ _ (fun _ => .done _)))
  have hrun' := hrun
  rw [hmap] at hrun'
  obtain ⟨i, r, order, -, hr, hperm, hmerge, hunw⟩ :=
    unwound_eq (qs.map some) (by simpa using hne) ms c hrun' hfin
  have hred : (qs.map some).reduceOption = qs := by
    rw [List.reduceOption, filterMap_map]
    exact filterMap_some
  have hsome : r.isSome := by
    rw [getElem?_map] at hr
    obtain ⟨q, -, rfl⟩ := Option.map_eq_some_iff.mp hr
    rfl
  rw [hred] at hperm
  refine ⟨order, hperm, ?_⟩
  have hshort : (mergeAll order).overrun = false ↔ ∀ q ∈ qs, q.xlname.length ≤ 55 := by
    rw [mergeAll_overrun]
    exact forall_congr' (fun q => imp_congr_left hperm.mem_iff)
  rw [glfsIpc, hrun, Option.bind_some, hunw, hsome, hmerge]
  by_cases hall : ∀ q ∈ qs, q.xlname.length ≤ 55
  · rw [if_pos hall, hshort.mpr hall]
    rfl
  · rw [if_neg hall, if_pos (by simpa using mt hshort.mp hall)]

/-- All rows are printed when at least as many are asked for. -/
lemma printQueryResult_eq {result : Dict} {rows : List Text} (h : result.HasRows rows)
    {n i : Nat} (hn : rows.length ≤ n + i) :
    printQueryResult result n i = rows.drop i := by
  induction n generalizing i with
  | zero => rw [printQueryResult, drop_eq_nil_of_le (by omega)]
  | succ n ih =>
    rw [printQueryResult, h.getStr]
    by_cases hi : i < rows.length
    · rw [getElem?_eq_getElem hi, drop_eq_getElem_cons hi]
      rw [ih (by omega)]
    · rw [getElem?_eq_none (by omega), drop_eq_nil_of_le (by omega)]

section

/-- The brick can serve the session: the statement succeeds there with rows that fit their
buffers, and the session is new or has its result registered. -/
def Ready (session sql : Text) (b : BrickServer) : Prop :=
  ∃ rs, b.query.exec sql = some rs ∧ rs.Fits ∧ (b.qrset.lookup session = none ∨
    b.qrset.lookup session = some (newResult rs b.query.dbtime))

/-- The replies of the bricks to a request. -/
private structure Replies (sql : Text) (offset count : Int) (bricks : List BrickServer)
    (qs : List QueryReply) : Prop where
  rows : qs.map QueryReply.rows = bricks.map
    (fun b => ((b.rows sql).drop (toUint64 offset)).take (toUint64 count))
  names : qs.map QueryReply.xlname = bricks.map BrickServer.identity
  backs : qs.map QueryReply.comeback = bricks.map
    (fun b => if (b.rows sql).length ≤ toUint64 offset + toUint64 count then 0 else 1)

variable {session sql : Text}

private lemma asks_query (offset count : Int) :
    Asks (ixsqlSqlQuery session sql offset count) session (toUint64 offset) (toUint64 count) := by
  have hlt (z : Int) : toUint64 (toUint64 z % 2 ^ 64 : Nat) = toUint64 z := by
    unfold toUint64
    omega
  constructor
  · refine Dict.getStr_of_lookup ?_
    rw [ixsqlSqlQuery, Dict.lookup_setUint64_ne (by decide), Dict.lookup_setUint64_ne (by decide),
      Dict.lookup_setStr_ne (by decide), Dict.lookup_setStr]
  · rw [Dict.getUint64_of_lookup, hlt]
    rw [ixsqlSqlQuery, Dict.lookup_setUint64_ne (by decide), Dict.lookup_setUint64]
  · rw [Dict.getUint64_of_lookup, hlt]
    rw [ixsqlSqlQuery, Dict.lookup_setUint64]

private lemma sql_query (offset count : Int) :
    (ixsqlSqlQuery session sql offset count).getStr "sql".toList = some sql := by
  refine Dict.getStr_of_lookup ?_
  rw [ixsqlSqlQuery, Dict.lookup_setUint64_ne (by decide), Dict.lookup_setUint64_ne (by decide),
    Dict.lookup_setStr]

variable {b : BrickServer}

private lemma sessionResult_ready {rs : ResultSet} (offset count : Int)
    (hrs : b.query.exec sql = some rs) (hfits : rs.Fits) (h : b.qrset.lookup session = none ∨
      b.qrset.lookup session = some (newResult rs b.query.dbtime)) :
    ∃ qrset, sessionResult b.query (ixsqlSqlQuery session sql offset count) session b.qrset =
        .found qrset (newResult rs b.query.dbtime) ∧
      qrset.lookup session = some (newResult rs b.query.dbtime) := by
  rcases h with h | h
  · refine ⟨b.qrset.insert session (newResult rs b.query.dbtime), ?_, AList.lookup_insert _⟩
    simp only [sessionResult, h, sql_query, hrs, Option.bind_some, if_pos hfits]
  · exact ⟨b.qrset, by simp [sessionResult, h], h⟩

/-- The first request executes the statement, and rows that do not fit overrun their buffers. -/
lemma overruns_of_not_fits {rs : ResultSet} (offset count : Int)
    (hrs : b.query.exec sql = some rs) (hfits : ¬rs.Fits) (h : b.qrset.lookup session = none) :
    b.overruns (ixsqlSqlQuery session sql offset count) := by
  have hasks := @asks_query session sql offset count
  have hres : sessionResult b.query (ixsqlSqlQuery session sql offset count) session b.qrset =
      .overrun := by
    simp only [sessionResult, h, sql_query, hrs, Option.bind_some, if_neg hfits]
  have hipc : imsIpc b.identity b.query b.active (ixsqlSqlQuery session sql offset count) b.qrset =
      none := by
    change imsIpcQuery b.query (ixsqlSqlQuery session sql offset count) _ b.qrset = none
    simp only [imsIpcQuery, hasks.session, hasks.offset, hasks.count, hres]
  rw [BrickServer.overruns, hipc]
  rfl

variable (hsession : ':' ∈ session)
include hsession

-- Serving a slice may remove a numeral or the empty key from the table, not the session.
private lemma lookup_afterServing (r r' : Result) (offset count : Nat) {qrset : Qrset}
    (h : qrset.lookup session = some r') :
    (afterServing r offset count qrset).lookup session = some r' := by
  have hdec (n : Nat) : session ≠ dec n := (dec_ne_of_mem hsession (by decide) n).symm
  have hne : session ≠ leftoverKey r.rows.length offset count := by
    unfold leftoverKey
    split
    · exact ne_nil_of_mem hsession
    · split <;> exact hdec _
  unfold afterServing
  split
  · rw [AList.lookup_erase_ne hne, h]
  · exact h

/-- A brick that is ready serves its slice and stays ready. -/
lemma serve_ready (h : Ready session sql b) {offset count : Int}
    (hkey : KeyFits (toUint64 offset) (toUint64 count)) :
    b.overruns (ixsqlSqlQuery session sql offset count) = false ∧
    Ready session sql (b.serve (ixsqlSqlQuery session sql offset count)).1 ∧
    ∃ q, (b.serve (ixsqlSqlQuery session sql offset count)).2 = queryReply (some q) ∧
      q.rows = ((b.rows sql).drop (toUint64 offset)).take (toUint64 count) ∧
      q.xlname = b.identity ∧
      q.comeback = (if (b.rows sql).length ≤ toUint64 offset + toUint64 count then 0 else 1) := by
  obtain ⟨rs, hrs, hfits, hreg⟩ := h
  have hrows : b.rows sql = rs.rows := by rw [BrickServer.rows, hrs]
  obtain ⟨qrset, hres, hlook⟩ := sessionResult_ready offset count hrs hfits hreg
  obtain ⟨q, hq, hqr, hqn, hqc⟩ :=
    @exists_queryReply _ _ _ _ _ b.identity _ _ _ (asks_query offset count) hres hkey
  have hipc : imsIpc b.identity b.query b.active (ixsqlSqlQuery session sql offset count) b.qrset =
      some (afterServing (newResult rs b.query.dbtime) (toUint64 offset) (toUint64 count) qrset,
        some q.xdata) := by
    rw [← hq, imsIpc]
    rfl
  rw [BrickServer.overruns, BrickServer.serve, hipc]
  refine ⟨rfl, ⟨rs, hrs, hfits, .inr ?_⟩, q, rfl, ?_, hqn, ?_⟩
  · exact lookup_afterServing hsession _ _ _ _ hlook
  · rw [hqr, hrows]
    rfl
  · rw [hqc, hrows]
    rfl

/-- The bricks of a volume serve their slices. -/
private lemma serve_all {offset count : Int} (hkey : KeyFits (toUint64 offset) (toUint64 count))
    {bricks : List BrickServer} (h : ∀ b ∈ bricks, Ready session sql b) :
    bricks.any (BrickServer.overruns (ixsqlSqlQuery session sql offset count)) = false ∧
    ∃ qs, bricks.map (fun b => (b.serve (ixsqlSqlQuery session sql offset count)).2) =
      qs.map (fun q => queryReply (some q)) ∧ Replies sql offset count bricks qs := by
  induction bricks with
  | nil => exact ⟨rfl, [], rfl, rfl, rfl, rfl⟩
  | cons b bricks ih =>
    rw [forall_mem_cons] at h
    obtain ⟨hover, -, q, hq, hrows, hname, hback⟩ := serve_ready hsession h.1 hkey
    obtain ⟨hovers, qs, hqs, hrest⟩ := ih h.2
    refine ⟨by rw [any_cons, hover, hovers]; rfl, q :: qs, ?_, ?_, ?_, ?_⟩
    · rw [map_cons, hq, hqs, map_cons]
    · rw [map_cons, hrest.rows, hrows, map_cons]
    · rw [map_cons, hrest.names, hname, map_cons]
    · rw [map_cons, hrest.backs, hback, map_cons]

end

variable {session sql : Text} {sched : Nat → List (Nat × Int)}

/-- What holds of the bricks before every round. -/
structure Serving (session sql : Text) (sched : Nat → List (Nat × Int))
    (bricks : List BrickServer) : Prop where
  colon : ':' ∈ session
  ne : bricks ≠ []
  length_lt : bricks.length < 2 ^ 31
  names : (bricks.map BrickServer.identity).Nodup
  short : ∀ b ∈ bricks, b.identity.length ≤ 55
  interleaves : ∀ k, Interleaves bricks.length (sched k)
  ready : ∀ b ∈ bricks, Ready session sql b

/-- The bricks after a round. -/
def afterRound (session sql : Text) (count : Int) (s : SliceState) : List BrickServer :=
  s.bricks.map (fun b => (b.serve (ixsqlSqlQuery session sql s.offset count)).1)

variable {s : SliceState}

lemma serving_afterRound (h : Serving session sql sched s.bricks) {count : Int}
    (hkey : KeyFits (toUint64 s.offset) (toUint64 count)) :
    Serving session sql sched (afterRound session sql count s) where
  colon := h.colon
  ne := by simpa [afterRound] using h.ne
  length_lt := by simpa [afterRound] using h.length_lt
  names := by
    have hsame : (afterRound session sql count s).map BrickServer.identity =
        s.bricks.map BrickServer.identity := by
      rw [afterRound, map_map]
      exact map_congr_left (fun b _ => serve_identity _ b)
    rw [hsame]
    exact h.names
  short := by
    intro b hb
    obtain ⟨b₀, hb₀, rfl⟩ := mem_map.mp hb
    rw [serve_identity]
    exact h.short b₀ hb₀
  interleaves := by simpa [afterRound] using h.interleaves
  ready := by
    intro b hb
    obtain ⟨b₀, hb₀, rfl⟩ := mem_map.mp hb
    exact (serve_ready h.colon (h.ready b₀ hb₀) hkey).2.1

lemma rows_afterRound (count : Int) (s : SliceState) :
    (afterRound session sql count s).map (BrickServer.rows sql) =
      s.bricks.map (BrickServer.rows sql) := by
  rw [afterRound, map_map]
  refine map_congr_left (fun b _ => ?_)
  rw [Function.comp_apply, BrickServer.rows, serve_query]
  rfl

private lemma comebacks_eq_zero (qs : List QueryReply) :
    comebacks qs = 0 ↔ ∀ z ∈ qs.map QueryReply.comeback, z = 0 := by
  induction qs with
  | nil => simp [comebacks]
  | cons q qs ih =>
    rw [map_cons, forall_mem_cons, ← ih]
    simp only [comebacks, map_cons]
    rcases q.comeback_mem with h | h <;> rw [h] <;> simp

-- The dictionary of a round has all that the client reads out of it.
private lemma sliceResult_eq {bricks : List BrickServer} (count : Int)
    {order : List (Int × QueryReply)} (hne : order ≠ []) (hlen : order.length < 2 ^ 31)
    (hnames : (order.map (fun x => x.2.xlname)).Nodup)
    (hbound : s.resCount + ((order.map Prod.snd).flatMap QueryReply.rows).length < 2 ^ 64) :
    sliceResult count s bricks (mergeAll order).xdata = if comebacks (order.map Prod.snd) = 0 then
        .stop ⟨0, s.printed ++ (order.map Prod.snd).flatMap QueryReply.rows⟩
      else .next ⟨s.round + 1, toInt32 (s.offset + count),
        s.resCount + ((order.map Prod.snd).flatMap QueryReply.rows).length, bricks,
        s.printed ++ (order.map Prod.snd).flatMap QueryReply.rows⟩ := by
  have hmem := mergeAll_members order hlen hnames
  have hold := mergeAll_holds order hlen
  have hle := comebacks_le (order.map Prod.snd)
  rw [length_map] at hle
  generalize hrows : (order.map Prod.snd).flatMap QueryReply.rows = rows at hold hbound ⊢
  generalize comebacks (order.map Prod.snd) = back at hold hle ⊢
  have hsum : (((mergeAll order).xdata.members isCountKey).map
      (fun e => dataToUint64 e.2)).sum = rows.length := by
    have hcounts : ((mergeAll order).xdata.members isCountKey).map (fun e => dataToUint64 e.2) =
        (order.map (fun x => x.2.rows.length)).reverse := by
      rw [hmem, map_map, ← map_reverse]
      refine map_congr_left (fun x _ => ?_)
      have hlt := x.2.rows_lt
      exact toUint64_natCast (by omega)
    rw [hcounts, sum_reverse, ← hrows, length_flatMap, map_map]
    rfl
  have hsome : (((mergeAll order).xdata.members isCountKey).map
      (fun e => dataToUint64 e.2)).length ≠ 0 := by
    rw [hmem]
    simpa using hne
  have hprint : printQueryResult (mergeAll order).xdata (s.resCount + rows.length) 0 = rows := by
    rw [printQueryResult_eq hold.hasRows (by omega), drop_zero]
  have hback : (mergeAll order).xdata.getInt32 "comeback".toList = some (back : Int) := by
    rw [Dict.getInt32_of_lookup hold.comeback (by omega) (by omega),
      toInt32_eq_self (by omega) (by omega)]
  simp only [sliceResult, if_neg hsome, hsum, Nat.mod_eq_of_lt hbound, hprint, hback]
  by_cases hz : back = 0
  · rw [if_pos hz, if_neg (by omega)]
  · rw [if_neg hz, if_pos (by omega)]

/-- What a round does when every brick serves its slice. -/
private lemma sliceRound_served (hcolon : ':' ∈ session) (hne : s.bricks ≠ [])
    (hms : Interleaves s.bricks.length (sched s.round))
    (hready : ∀ b ∈ s.bricks, Ready session sql b) {count : Int}
    (hkey : KeyFits (toUint64 s.offset) (toUint64 count)) :
    ∃ qs order, (order.map Prod.snd).Perm qs ∧ Replies sql s.offset count s.bricks qs ∧
      sliceRound session sql count sched s = if ∀ b ∈ s.bricks, b.identity.length ≤ 55 then
          some (sliceResult count s (afterRound session sql count s) (mergeAll order).xdata)
        else none := by
  obtain ⟨hover, qs, hqs, hreplies⟩ := serve_all hcolon hkey hready
  have hlen : qs.length = s.bricks.length := by
    rw [← length_map, hreplies.rows, length_map]
  obtain ⟨order, hperm, hipc⟩ := glfsIpc_eq qs
    (by rintro rfl; exact hne (length_eq_zero_iff.mp hlen.symm)) (sched s.round)
    (by rw [hlen]; exact hms)
  refine ⟨qs, order, hperm, hreplies, ?_⟩
  have hshort : (∀ q ∈ qs, q.xlname.length ≤ 55) ↔ ∀ b ∈ s.bricks, b.identity.length ≤ 55 := by
    have hmap := congrArg (fun names => ∀ name ∈ names, name.length ≤ 55) hreplies.names
    simpa only [forall_mem_map] using iff_of_eq hmap
  have hsnd : (s.bricks.map (BrickServer.serve (ixsqlSqlQuery session sql s.offset count))).map
      Prod.snd = qs.map (fun q => queryReply (some q)) := by
    rw [map_map]
    exact hqs
  have hfst : (s.bricks.map (BrickServer.serve (ixsqlSqlQuery session sql s.offset count))).map
      Prod.fst = afterRound session sql count s := by
    rw [map_map]
    rfl
  by_cases hall : ∀ b ∈ s.bricks, b.identity.length ≤ 55
  · rw [if_pos (hshort.mpr hall)] at hipc
    simp only [sliceRound, hover, hsnd, hipc, hfst, if_pos hall, Bool.false_eq_true, if_false]
  · rw [if_neg (mt hshort.mp hall)] at hipc
    simp only [sliceRound, hover, hsnd, hipc, if_neg hall, Bool.false_eq_true, if_false]

/-- The rows of a round. -/
def roundRows (sql : Text) (offset count : Int) (bricks : List BrickServer) : List Text :=
  bricks.flatMap (fun b => ((b.rows sql).drop (toUint64 offset)).take (toUint64 count))

/-- Every brick has served all its rows after a request. -/
def AllServed (sql : Text) (offset count : Int) (bricks : List BrickServer) : Prop :=
  ∀ b ∈ bricks, (b.rows sql).length ≤ toUint64 offset + toUint64 count

instance (sql : Text) (offset count : Int) (bricks : List BrickServer) :
    Decidable (AllServed sql offset count bricks) :=
  inferInstanceAs (Decidable (∀ b ∈ bricks, _ ≤ _))

/-- One round prints the slices of all bricks in some order. It is the last one when no brick
has rows left. -/
lemma sliceRound_eq (h : Serving session sql sched s.bricks) {count : Int}
    (hkey : KeyFits (toUint64 s.offset) (toUint64 count))
    (hbound : s.resCount + (roundRows sql s.offset count s.bricks).length < 2 ^ 64) :
    ∃ rows, rows.Perm (roundRows sql s.offset count s.bricks) ∧
      sliceRound session sql count sched s = some
        (if AllServed sql s.offset count s.bricks then .stop ⟨0, s.printed ++ rows⟩
        else .next ⟨s.round + 1, toInt32 (s.offset + count), s.resCount + rows.length,
          afterRound session sql count s, s.printed ++ rows⟩) := by
  obtain ⟨qs, order, hperm, hreplies, hround⟩ :=
    sliceRound_served h.colon h.ne (h.interleaves s.round) h.ready hkey
  have hflat : (qs.flatMap QueryReply.rows) = roundRows sql s.offset count s.bricks := by
    rw [roundRows, flatMap_def, hreplies.rows, ← flatMap_def]
  have hrowsPerm : ((order.map Prod.snd).flatMap QueryReply.rows).Perm
      (roundRows sql s.offset count s.bricks) := hflat ▸ hperm.flatMap_right _
  have hserved : comebacks (order.map Prod.snd) = 0 ↔ AllServed sql s.offset count s.bricks := by
    rw [comebacks_eq_zero]
    have hmem : ∀ z, z ∈ (order.map Prod.snd).map QueryReply.comeback ↔
        z ∈ qs.map QueryReply.comeback := fun z => (hperm.map _).mem_iff
    simp only [hmem, hreplies.backs, forall_mem_map]
    refine forall₂_congr (fun b _ => ?_)
    split <;> simp_all
  have hlen : order.length = s.bricks.length := by
    rw [← length_map Prod.snd, hperm.length_eq, ← length_map QueryReply.rows, hreplies.rows,
      length_map]
  have hresult := @sliceResult_eq s (afterRound session sql count s) count order
    (by rintro rfl; exact h.ne (length_eq_zero_iff.mp hlen.symm))
    (by rw [hlen]; exact h.length_lt)
    (by
      have hp := hperm.map QueryReply.xlname
      rw [map_map, hreplies.names] at hp
      exact hp.nodup_iff.mpr h.names)
    (by rw [hrowsPerm.length_eq]; exact hbound)
  refine ⟨_, hrowsPerm, ?_⟩
  rw [hround, if_pos h.short, hresult]
  simp only [hserved]

/-- A round with a reply of a brick whose name is too long overruns a buffer. -/
lemma sliceRound_long (hcolon : ':' ∈ session) (hms : Interleaves s.bricks.length (sched s.round))
    (hready : ∀ b ∈ s.bricks, Ready session sql b) {count : Int}
    (hkey : KeyFits (toUint64 s.offset) (toUint64 count))
    (hlong : ¬∀ b ∈ s.bricks, b.identity.length ≤ 55) :
    sliceRound session sql count sched s = none := by
  have hne : s.bricks ≠ [] := by
    intro hnil
    rw [hnil] at hlong
    exact hlong nofun
  obtain ⟨_, _, -, -, hround⟩ := sliceRound_served hcolon hne hms hready hkey
  rw [hround, if_neg hlong]

end TagItGluster.Ixsql
