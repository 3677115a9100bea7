import TagItGluster.Libglusterfs.Dict

/-!
# Query sessions of a brick

A query is executed once, on the first request of its session. The result is registered
under the session and served in slices: each request names an offset and a count, and the
reply says with `comeback` whether rows are left. A request that serves the last row is
meant to remove the session from the table of registered results; it removes the key that
the row loop has left in its buffer.

Rows and their numbers are printed into buffers of fixed sizes. What a brick does after it has
written beyond one of them is not defined. Line numbers:
`xlators/features/imess-server/src/imess-server-ipc.c`.
-/

namespace TagItGluster.Server

open Base Libglusterfs List Option

/-- The rows of a statement as `direct_query_callback` prints them. They fit into a
dictionary, which counts its members in an `int32_t`. -/
structure ResultSet where
  rows : List Text
  rows_lt : rows.length < 2 ^ 31

/-- `direct_query_callback` (imess-server-xdb.c:296) prints a row, with two zeros behind it, into
`buf[1024]`, and its number, with one, into `keybuf[10]` (`imess-server-xdb.c:303–317`). -/
def ResultSet.Fits (r : ResultSet) : Prop :=
  (∀ row ∈ r.rows, row.length + 2 ≤ 1024) ∧ r.rows.length ≤ 10 ^ 9

instance (r : ResultSet) : Decidable r.Fits :=
  inferInstanceAs (Decidable (_ ∧ _))

/-- `direct_query_callback` for each row in turn, from row `n` on. -/
def putRows : Nat → List Text → Dict → Dict
  | _, [], d => d
  | n, row :: rows, d => putRows (n + 1) rows (d.setStr (dec n) row)

/-- `ims_xdb_direct_query` (imess-server-xdb.c:848) of a statement that succeeds, with rows that fit
their buffers. -/
def imsXdbDirectQuery (r : ResultSet) (d : Dict) : Dict :=
  ((putRows 0 r.rows d).setUint64 "count".toList r.rows.length).setInt32 "ret".toList 0

private lemma putRows_hasRows {d : Dict} {rows : List Text} (h : d.HasRows rows) (rs : List Text) :
    (putRows rows.length rs d).HasRows (rows ++ rs) := by
  induction rs generalizing rows d with
  | nil =>
    rw [append_nil]
    exact h
  | cons r rs ih =>
    have hnext := ih (h.snoc r)
    rw [length_append, append_assoc] at hnext
    exact hnext

/-- A query result as it is registered. -/
structure Result where
  dict : Dict
  rows : List Text
  rows_lt : rows.length < 2 ^ 31
  hasRows : dict.HasRows rows
  count : dict.lookup "count".toList = some (.num rows.length)
  dbtime : ∃ t, dict.lookup "dbtime".toList = some (.dbl t)

/-- The result that `ims_ipc_new_query` (500) builds. -/
def newResult (r : ResultSet) (latency : Int) : Result where
  dict := (imsXdbDirectQuery r ∅).setDouble "dbtime".toList latency
  rows := r.rows
  rows_lt := r.rows_lt
  hasRows := by
    exact (((putRows_hasRows Dict.hasRows_empty r.rows).insert_other _
      (dec_ne (by decide))).insert_other _ (dec_ne (by decide))).insert_other _ (dec_ne (by decide))
  count := by
    have hlt := r.rows_lt
    rw [Dict.lookup_setDouble_ne (by decide), imsXdbDirectQuery,
      Dict.lookup_setInt32_ne (by decide), Dict.lookup_setUint64, Nat.mod_eq_of_lt (by omega)]
  dbtime := ⟨latency, Dict.lookup_setDouble latency⟩

/-- The table of registered results, by session. -/
abbrev Qrset := AList (fun _ : Text => Result)

/-- The row loop: the number of rows served, what is left in the key buffer, the reply. -/
structure Served where
  i : Nat
  key : Text
  xdata : Dict

/-- The row loop of `ims_ipc_process_query_result`, for at most `n` more rows. -/
def serveLoop (qres : Dict) (offset : Nat) : Nat → Served → Served
  | 0, s => s
  | n + 1, s =>
    let current := (offset + s.i) % 2 ^ 64
    match qres.getStr (dec current) with
    | none => { s with key := dec current }
    | some row => serveLoop qres offset n ⟨s.i + 1, dec s.i, s.xdata.setStr (dec s.i) row⟩

/-- The time of the query goes with its first slice. -/
def putDbtime (qres xdata : Dict) (offset : Nat) : Option Dict :=
  if offset = 0 then
    (qres.getDouble "dbtime".toList).map (fun t => xdata.setDouble "dbtime".toList t)
  else some xdata

/-- What follows the row loop: the end of the result, and the metadata of the reply. -/
def finishServing (total offset : Nat) (s : Served) (qrset : Qrset) : Qrset × Dict :=
  let processed := decide (total ≤ (offset + s.i) % 2 ^ 64)
  (if processed then qrset.erase s.key else qrset,
    ((s.xdata.setUint64 "count".toList s.i).setInt32 "ret".toList 0).setInt32 "comeback".toList
      (if processed then 0 else 1))

/-- `ims_ipc_process_query_result` (562); `none` for an error return. -/
def imsIpcProcessQueryResult (qrset : Qrset) (qres xdata : Dict) (offset count : Nat) :
    Option (Qrset × Dict) := do
  let total ← qres.getUint64 "count".toList
  let xdata ← putDbtime qres xdata offset
  some (finishServing total offset (serveLoop qres offset count ⟨0, [], xdata⟩) qrset)

/-- What a query request finds outside of the index: the rows of its statement (`none` for
an SQL error) and the two times that are measured. -/
structure QueryEnv where
  exec : Text → Option ResultSet
  dbtime : Int
  runtime : Int

/-- What a request finds under its session. -/
inductive SessionResult where
  | error
  | overrun
  | found (qrset : Qrset) (r : Result)

/-- The result of a session: the registered one, or a new one of `ims_ipc_new_query` that is
then registered (`imess-server-ipc.c:499–559, 651–670`). A request of a new session without
statement, or with one that fails, registers nothing. -/
def sessionResult (env : QueryEnv) (xin : Dict) (session : Text) (qrset : Qrset) :
    SessionResult :=
  match qrset.lookup session with
  | some r => .found qrset r
  | none =>
    match (xin.getStr "sql".toList).bind env.exec with
    | none => .error
    | some rows =>
      let r := newResult rows env.dbtime
      if rows.Fits then .found (qrset.insert session r) r else .overrun

/-- The numbers of the rows asked for are printed into `key[20]`
(`imess-server-ipc.c:572, 591`). -/
def KeyFits (offset count : Nat) : Prop := count = 0 ∨ offset < 10 ^ 19

instance (offset count : Nat) : Decidable (KeyFits offset count) :=
  inferInstanceAs (Decidable (_ ∨ _))

/-- `ims_ipc_query` (615): the table afterwards, and the reply unless there was an error; `none`
when a buffer has been overrun. -/
def imsIpcQuery (env : QueryEnv) (xin xout : Dict) (qrset : Qrset) :
    Option (Qrset × Option Dict) :=
  match xin.getStr "session".toList, xin.getUint64 "offset".toList,
      xin.getUint64 "count".toList with
  | some session, some offset, some count =>
    match sessionResult env xin session qrset with
    | .error => some (qrset, none)
    | .overrun => none
    | .found qrset r =>
      if KeyFits offset count then
        match imsIpcProcessQueryResult qrset r.dict xout offset count with
        | none => some (qrset, none)
        | some (qrset, xout) =>
          some (qrset, some (xout.setDouble "runtime".toList env.runtime))
      else none
  | _, _, _ => some (qrset, none)

/-- What the row loop leaves in its key buffer, for a result of `total` rows. -/
def leftoverKey (total offset count : Nat) : Text :=
  if count = 0 then []
  else if count ≤ total - offset then dec (count - 1)
  else dec (max offset total)

/-- The rows that a request is served. -/
def Result.slice (r : Result) (offset count : Nat) : List Text := (r.rows.drop offset).take count

/-- The request serves the last row, or starts after it. -/
def Result.Exhausts (r : Result) (offset count : Nat) : Prop := r.rows.length ≤ offset + count

instance (r : Result) (offset count : Nat) : Decidable (r.Exhausts offset count) :=
  inferInstanceAs (Decidable (r.rows.length ≤ offset + count))

/-- The table after a request has been served from `r`. -/
def afterServing (r : Result) (offset count : Nat) (qrset : Qrset) : Qrset :=
  if r.Exhausts offset count then qrset.erase (leftoverKey r.rows.length offset count) else qrset

/-- A reply that serves rows; `xout` is what the dictionary of the reply had before. -/
structure Serves (x : Dict) (rows : List Text) (comeback : Int) (xout : Dict) : Prop where
  hasRows : x.HasRows rows
  count : x.lookup "count".toList = some (.num rows.length)
  ret : x.lookup "ret".toList = some (.num 0)
  comeback : x.lookup "comeback".toList = some (.num comeback)
  sender : x.lookup "from".toList = xout.lookup "from".toList

/-- Only numerals are written. -/
lemma putRows_lookup_ne {key : Text} (hk : ∀ i, dec i ≠ key) (n : Nat) (rows : List Text)
    (d : Dict) : (putRows n rows d).lookup key = d.lookup key := by
  induction rows generalizing n d with
  | nil => rfl
  | cons row rows ih =>
    rw [putRows, ih, Dict.lookup_setStr_ne (hk n).symm]

-- Until it breaks or has done `n` rounds, the loop copies rows and leaves the key of the last
-- copy in the buffer; a break leaves the key that was not found.
private lemma serveLoop_eq (r : Result) {offset i : Nat} (n : Nat) (key : Text) (x : Dict)
    (hlt : offset + i < 2 ^ 64) :
    serveLoop r.dict offset n ⟨i, key, x⟩ = ⟨i + min n (r.rows.length - (offset + i)),
        if n = 0 then key
        else if n ≤ r.rows.length - (offset + i) then dec (i + n - 1)
        else dec (max (offset + i) r.rows.length),
        putRows i ((r.rows.drop (offset + i)).take n) x⟩ := by
  have hr := r.rows_lt
  induction n generalizing i key x with
  | zero => simp [serveLoop, putRows]
  | succ n ih =>
    have hcur : r.dict.getStr (dec ((offset + i) % 2 ^ 64)) = r.rows[offset + i]? := by
      rw [Nat.mod_eq_of_lt hlt, r.hasRows.getStr]
    rw [serveLoop]
    by_cases hend : offset + i < r.rows.length
    · simp only [hcur, getElem?_eq_getElem hend]
      rw [ih _ _ (by omega), drop_eq_getElem_cons hend, take_succ_cons]
      congr 1
      · omega
      by_cases hn : n = 0
      · subst hn
        rw [if_pos rfl, if_neg (by omega), if_pos (by omega)]
        rfl
      rw [if_neg hn, if_neg (Nat.succ_ne_zero n)]
      by_cases hle : n ≤ r.rows.length - (offset + (i + 1))
      · rw [if_pos hle, if_pos (by omega)]
        congr 1
        omega
      · rw [if_neg hle, if_neg (by omega)]
        congr 1
        omega
    · simp only [hcur, getElem?_eq_none (Nat.le_of_not_lt hend)]
      rw [drop_eq_nil_of_le (by omega), if_neg (by omega), if_neg (by omega)]
      congr 1
      · omega
      · congr 1
        omega

private lemma exists_putDbtime (r : Result) (offset : Nat) (xdata : Dict) :
    ∃ x, putDbtime r.dict xdata offset = some x ∧ (xdata.HasRows [] → x.HasRows []) ∧
      x.lookup "from".toList = xdata.lookup "from".toList := by
  obtain ⟨t, ht⟩ := r.dbtime
  unfold putDbtime
  split
  · refine ⟨xdata.setDouble "dbtime".toList t, ?_, ?_, Dict.lookup_setDouble_ne (by decide)⟩
    · rw [Dict.getDouble_of_lookup ht, map_some]
    · intro hx
      exact hx.insert_other _ (dec_ne (by decide))
  · exact ⟨xdata, rfl, id, rfl⟩

private lemma serves_finish {rows : List Text} {x : Dict} (hx : x.HasRows rows) (comeback : Int)
    (hc : comeback = 0 ∨ comeback = 1) (hlt : rows.length < 2 ^ 64) :
    Serves (((x.setUint64 "count".toList rows.length).setInt32 "ret".toList 0).setInt32
      "comeback".toList comeback) rows comeback x := by
  constructor
  · exact ((hx.insert_other _ (dec_ne (by decide))).insert_other _
      (dec_ne (by decide))).insert_other _ (dec_ne (by decide))
  · rw [Dict.lookup_setInt32_ne (by decide), Dict.lookup_setInt32_ne (by decide),
      Dict.lookup_setUint64, Nat.mod_eq_of_lt hlt]
  · rw [Dict.lookup_setInt32_ne (by decide)]
    rfl
  · rcases hc with rfl | rfl <;> rfl
  · rw [Dict.lookup_setInt32_ne (by decide), Dict.lookup_setInt32_ne (by decide),
      Dict.lookup_setUint64_ne (by decide)]

/-- A request on a registered result is served its slice. -/
lemma imsIpcProcessQueryResult_eq (r : Result) (qrset : Qrset) {xdata : Dict}
    (hx : xdata.HasRows []) {offset : Nat} (count : Nat) (hoff : offset < 2 ^ 64) :
    ∃ x, imsIpcProcessQueryResult qrset r.dict xdata offset count =
        some (afterServing r offset count qrset, x) ∧
      Serves x (r.slice offset count) (if r.Exhausts offset count then 0 else 1) xdata := by
  have hr := r.rows_lt
  have htotal : r.dict.getUint64 "count".toList = some r.rows.length := by
    rw [Dict.getUint64_of_lookup r.count]
    unfold toUint64
    congr 1
    omega
  obtain ⟨x₀, hx₀, hrows₀, hfrom₀⟩ := exists_putDbtime r offset xdata
  have hlen : (r.slice offset count).length = min count (r.rows.length - offset) := by
    rw [Result.slice, length_take, length_drop]
  have hloop : serveLoop r.dict offset count ⟨0, [], x₀⟩ = ⟨(r.slice offset count).length,
      leftoverKey r.rows.length offset count, putRows 0 (r.slice offset count) x₀⟩ := by
    rw [serveLoop_eq r count [] x₀ (by omega), hlen]
    simp only [zero_add]
    rfl
  have hdone : r.rows.length ≤ (offset + (r.slice offset count).length) % 2 ^ 64 ↔
      r.Exhausts offset count := by
    rw [Result.Exhausts]
    omega
  have hput : (putRows 0 (r.slice offset count) x₀).HasRows (r.slice offset count) :=
    putRows_hasRows (hrows₀ hx) _
  have hserve := serves_finish hput (if r.Exhausts offset count then 0 else 1)
    (by split <;> simp) (by omega)
  refine ⟨_, ?_, hserve.hasRows, hserve.count, hserve.ret, hserve.comeback, ?_⟩
  · simp only [imsIpcProcessQueryResult, htotal, hx₀, hloop, bind_eq_bind, bind_some,
      finishServing, decide_eq_true_eq, hdone]
    rfl
  · rw [hserve.sender, putRows_lookup_ne (dec_ne (by decide)), hfrom₀]

/-- The keys of a query request. -/
structure Asks (xin : Dict) (session : Text) (offset count : Nat) : Prop where
  session : xin.getStr "session".toList = some session
  offset : xin.getUint64 "offset".toList = some offset
  count : xin.getUint64 "count".toList = some count

/-- A query is served from the result of its session. -/
lemma imsIpcQuery_eq {env : QueryEnv} {xin xout : Dict} {qrset qrset' : Qrset} {r : Result}
    {session : Text} {offset count : Nat} (h : Asks xin session offset count)
    (hr : sessionResult env xin session qrset = .found qrset' r) (hkey : KeyFits offset count)
    (hx : xout.HasRows []) :
    ∃ x, imsIpcQuery env xin xout qrset = some (afterServing r offset count qrset', some x) ∧
      Serves x (r.slice offset count) (if r.Exhausts offset count then 0 else 1) xout ∧
      x.lookup "runtime".toList = some (.dbl env.runtime) := by
  obtain ⟨x, hp, hs⟩ := imsIpcProcessQueryResult_eq r qrset' hx count (Dict.getUint64_lt h.offset)
  refine ⟨x.setDouble "runtime".toList env.runtime, ?_, ⟨?_, ?_, ?_, ?_, ?_⟩, ?_⟩
  · simp only [imsIpcQuery, h.session, h.offset, h.count, hr, if_pos hkey, hp]
  · exact hs.hasRows.insert_other _ (dec_ne (by decide))
  · rw [Dict.lookup_setDouble_ne (by decide), hs.count]
  · rw [Dict.lookup_setDouble_ne (by decide), hs.ret]
  · rw [Dict.lookup_setDouble_ne (by decide), hs.comeback]
  · rw [Dict.lookup_setDouble_ne (by decide), hs.sender]
  · exact Dict.lookup_setDouble _

/-- A query without one of its keys, or whose statement fails, changes nothing. Any other
overruns a buffer or is served from the result of its session. -/
lemma imsIpcQuery_cases (env : QueryEnv) (xin xout : Dict) (qrset : Qrset) :
    imsIpcQuery env xin xout qrset = some (qrset, none) ∨
      ∃ session offset count, Asks xin session offset count ∧
        (imsIpcQuery env xin xout qrset = none ∧
            sessionResult env xin session qrset = .overrun ∨
          ∃ qrset' r, sessionResult env xin session qrset = .found qrset' r ∧
            (KeyFits offset count ∨ imsIpcQuery env xin xout qrset = none)) := by
  unfold imsIpcQuery
  split
  · next session offset count hs ho hc =>
    cases hr : sessionResult env xin session qrset with
    | error => exact .inl rfl
    | overrun => exact .inr ⟨session, offset, count, ⟨hs, ho, hc⟩, .inl ⟨rfl, hr⟩⟩
    | found qrset' r =>
      refine .inr ⟨session, offset, count, ⟨hs, ho, hc⟩, .inr ⟨qrset', r, hr, ?_⟩⟩
      exact or_iff_not_imp_left.mpr (fun hkey => if_neg hkey)
  · exact .inl rfl

end TagItGluster.Server
