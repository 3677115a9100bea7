import TagItGluster.Base.Prog
import TagItGluster.Libglusterfs.Dict

/-!
# Merging the replies of all subvolumes to one ipc

`dht_ipc` winds a request to the selected subvolumes. Each reply runs `dht_ipc_cbk`, which
copies an accepted reply into one shared dictionary under a lock, then counts itself as
returned under the lock; whoever brings the count to zero unwinds to the caller. The
callbacks run on any threads, so the two locked sections of different replies interleave. Line
numbers: `xlators/cluster/dht/src/dht-common.c`.
-/

namespace TagItGluster.Dht

open Base Libglusterfs List

/-- What `dht_ipc_cbk` reads out of a reply before it takes the lock. -/
structure ReplyMeta where
  xcnt : Nat
  dbRet : Int
  xlname : Text
  runtime : Int
  xcomeback : Int
  dbtime : Int

/-- A reply of a subvolume. A reply without dictionary is given the empty one: no key is
found in either. -/
structure IpcReply where
  opRet : Int
  xdata : Dict

/-- The checks of `dht_ipc_cbk`: `none` is `goto out`. -/
def IpcReply.accept (r : IpcReply) : Option ReplyMeta :=
  if r.opRet = -1 then none
  else do
    let xcnt ← r.xdata.getUint64 "count".toList
    let dbRet ← r.xdata.getInt32 "ret".toList
    let xlname ← r.xdata.getStr "from".toList
    let runtime ← r.xdata.getDouble "runtime".toList
    let xcomeback ← r.xdata.getInt32 "comeback".toList
    some ⟨xcnt, dbRet, xlname, runtime, xcomeback, (r.xdata.getDouble "dbtime".toList).getD 0⟩

/-- The name of the brick is printed into `keybuf[64]` (`dht-common.c:7210`), each time with a
suffix and the closing zero. `:latency` is printed for every reply and no suffix is longer;
the number of a row always fits. -/
def ReplyMeta.overruns (m : ReplyMeta) : Bool :=
  decide (64 < m.xlname.length + ":latency".toList.length + 1)

lemma ReplyMeta.fits_iff (m : ReplyMeta) : m.overruns = false ↔ m.xlname.length ≤ 55 := by
  rw [ReplyMeta.overruns, show ":latency".toList.length = 8 from rfl, decide_eq_false_iff_not]
  omega

/-- The shared dictionary and the position of its next row. `overrun` says that some callback
has written beyond its `keybuf`; what the process does from then on is not defined. -/
structure Merge where
  xdata : Dict
  pos : Nat
  overrun : Bool

/-- Copy one row. A key that the reply does not have is passed to `dict_set` as a null
value, which is refused; the position moves on. -/
def Merge.copyRow (xdata : Dict) (i : Nat) (d : Merge) : Merge :=
  match xdata.lookup (dec i) with
  | some v => { d with xdata := d.xdata.insert (dec d.pos) v, pos := (d.pos + 1) % 2 ^ 64 }
  | none => { d with pos := (d.pos + 1) % 2 ^ 64 }

/-- The loop over the rows of a reply. -/
def Merge.copyRows (xdata : Dict) (xcnt : Nat) (d : Merge) : Merge :=
  (List.range xcnt).foldl (fun d i => d.copyRow xdata i) d

/-- The times that are written after the rows. -/
def mergeTimes (latency : Int) (m : ReplyMeta) (x : Dict) : Dict :=
  let x := x.setDouble (m.xlname ++ ":latency".toList) latency
  if m.dbtime > 0 then x.setDouble (m.xlname ++ ":dbtime".toList) m.dbtime else x

/-- The metadata that is written after the rows. Where the shared dictionary has no `count`
or no `comeback`, the rest is skipped. -/
def mergeMeta (latency : Int) (m : ReplyMeta) (x : Dict) : Dict :=
  let x := mergeTimes latency m x
  match x.getUint64 "count".toList with
  | none => x
  | some count =>
    let x := x.setUint64 "count".toList (count + m.xcnt)
    match x.getInt32 "comeback".toList with
    | none => x
    | some comeback =>
      let x := x.setUint64 "comeback".toList (toUint64 (toInt32 (comeback + m.xcomeback)))
      let x := x.setUint64 (m.xlname ++ ":count".toList) m.xcnt
      let x := x.setInt32 (m.xlname ++ ":ret".toList) m.dbRet
      x.setDouble (m.xlname ++ ":runtime".toList) m.runtime

/-- The first locked section of `dht_ipc_cbk` (`dht-common.c:7239–7295`). -/
def Merge.reply (latency : Int) (m : ReplyMeta) (xdata : Dict) (d : Merge) : Merge :=
  let copied := d.copyRows xdata m.xcnt
  ⟨mergeMeta latency m copied.xdata, copied.pos, d.overrun || m.overruns⟩

/-- The shared dictionary as `dht_ipc` sets it up. -/
def Merge.init : Merge :=
  ⟨((∅ : Dict).setUint64 "count".toList 0).setInt32 "comeback".toList 0, 0, false⟩

/-- `dht_ipc_data_t`. -/
structure IpcData where
  merge : Merge
  callCnt : Int

/-- The locked sections of a callback. -/
inductive CbkReq where
  | merge (m : ReplyMeta) (xdata : Dict)
  | ret

/-- One locked section; `latency` is the time since the request was wound. The count is the
reply of `dht_ipc_return` (7155). -/
def ipcHandle (latency : Int) : CbkReq → IpcData → Int × IpcData
  | .merge m xdata, s => (0, { s with merge := s.merge.reply latency m xdata })
  | .ret, s => (s.callCnt - 1, { s with callCnt := s.callCnt - 1 })

/-- The local `dict_req` of a callback: null until the reply has been accepted. -/
inductive DictReq where
  | null
  | shared
deriving DecidableEq

/-- `out:` of `dht_ipc_cbk` (7190): the last callback to return unwinds with its own `dict_req`. -/
def ipcOut (dictReq : DictReq) : Prog CbkReq Int (Option DictReq) :=
  .ask .ret (fun cnt => .done (if cnt = 0 then some dictReq else none))

/-- `dht_ipc_cbk`. -/
def dhtIpcCbk (r : IpcReply) : Prog CbkReq Int (Option DictReq) :=
  match r.accept with
  | none => ipcOut .null
  | some m => .ask (.merge m r.xdata) (fun _ => ipcOut .shared)

/-- `dht_ipc` (7310), once the replies of all selected subvolumes are on their way. -/
def dhtIpc (replies : List IpcReply) : Pool CbkReq Int (Option DictReq) IpcData :=
  ⟨replies.map dhtIpcCbk, ⟨.init, replies.length⟩, []⟩

/-- What a finished callback has unwound, if it has. -/
def unwoundBy (x : Dict) : Prog CbkReq Int (Option DictReq) → Option (Option Dict)
  | .done (some .null) => some none
  | .done (some .shared) => some (some x)
  | _ => none

/-- The dictionaries that have been unwound to the caller; `none` is the null pointer. -/
def unwound (c : Pool CbkReq Int (Option DictReq) IpcData) : List (Option Dict) :=
  c.progs.filterMap (unwoundBy c.state.merge.xdata)

/-- A successful reply to a query, as a brick builds it. A dictionary counts its members in
an `int32_t`. -/
structure QueryReply where
  xdata : Dict
  rows : List Text
  xlname : Text
  comeback : Int
  hasRows : xdata.HasRows rows
  rows_lt : rows.length < 2 ^ 31
  count : xdata.lookup "count".toList = some (.num rows.length)
  ret : ∃ z, xdata.getInt32 "ret".toList = some z
  xlname_eq : xdata.lookup "from".toList = some (.str xlname)
  runtime : ∃ t, xdata.lookup "runtime".toList = some (.dbl t)
  comeback_eq : xdata.lookup "comeback".toList = some (.num comeback)
  comeback_mem : comeback = 0 ∨ comeback = 1

/-- The reply of one subvolume to a query: `none` for a failed call. -/
def queryReply : Option QueryReply → IpcReply
  | none => ⟨-1, ∅⟩
  | some q => ⟨0, q.xdata⟩

/-- Every successful reply to a query is accepted, with its own metadata. -/
lemma accept_query (q : QueryReply) : ∃ m, (queryReply (some q)).accept = some m ∧
    m.xcnt = q.rows.length ∧ m.xlname = q.xlname ∧ m.xcomeback = q.comeback := by
  have hlt := q.rows_lt
  have hcb : -2 ^ 31 ≤ q.comeback ∧ q.comeback < 2 ^ 31 := by
    rcases q.comeback_mem with h | h <;> omega
  obtain ⟨z, hret⟩ := q.ret
  obtain ⟨t, hrun⟩ := q.runtime
  have hcount := Dict.getUint64_of_lookup q.count
  rw [toUint64_natCast (by omega)] at hcount
  have hcome := Dict.getInt32_of_lookup q.comeback_eq (by omega) (by omega)
  rw [toInt32_eq_self hcb.1 hcb.2] at hcome
  refine ⟨⟨q.rows.length, z, q.xlname, t, q.comeback,
    (q.xdata.getDouble "dbtime".toList).getD 0⟩, ?_, rfl, rfl, rfl⟩
  simp only [IpcReply.accept, queryReply, hcount, hret, Dict.getStr_of_lookup q.xlname_eq,
    Dict.getDouble_of_lookup hrun, hcome]
  rfl

/-- The shared dictionary after some replies: their rows one after the other, the number of
rows and the sum of the `comeback` values. -/
structure Merge.Holds (d : Merge) (rows : List Text) (comeback : Nat) : Prop where
  hasRows : d.xdata.HasRows rows
  pos : d.pos = rows.length
  count : d.xdata.lookup "count".toList = some (.num rows.length)
  comeback : d.xdata.lookup "comeback".toList = some (.num comeback)

lemma Merge.init_holds : Merge.init.Holds [] 0 := by
  have hrows : Merge.init.xdata.HasRows [] :=
    (Dict.hasRows_empty.insert_other _ (dec_ne (by decide))).insert_other _ (dec_ne (by decide))
  exact ⟨hrows, rfl, by decide, by decide⟩

variable {xdata : Dict} {rs rows : List Text} {d : Merge}

-- The loop has copied the first `n` rows of the reply.
private lemma copyRows_take (hx : xdata.HasRows rs) (hrows : d.xdata.HasRows rows)
    (hpos : d.pos = rows.length) (hlt : rows.length + rs.length < 2 ^ 64) {n : Nat}
    (hn : n ≤ rs.length) :
    (d.copyRows xdata n).xdata.HasRows (rows ++ rs.take n) ∧
      (d.copyRows xdata n).pos = rows.length + n ∧
      ∀ key, (∀ i, dec i ≠ key) →
        (d.copyRows xdata n).xdata.lookup key = d.xdata.lookup key := by
  induction n with
  | zero => simpa [Merge.copyRows] using ⟨hrows, hpos⟩
  | succ n ih =>
    obtain ⟨hr, hp, hf⟩ := ih (by omega)
    have hstep : d.copyRows xdata (n + 1) =
        ⟨(d.copyRows xdata n).xdata.insert (dec (rows ++ rs.take n).length) (.str rs[n]),
          rows.length + (n + 1), (d.copyRows xdata n).overrun⟩ := by
      rw [Merge.copyRows, range_succ, foldl_append, ← Merge.copyRows]
      simp only [foldl_cons, Merge.copyRow, hx n, hp,
        getElem?_eq_getElem (show n < rs.length by omega)]
      have hlen : (rows ++ rs.take n).length = rows.length + n := by
        rw [length_append, length_take]
        omega
      rw [hlen, Nat.mod_eq_of_lt (by omega)]
      rfl
    rw [hstep]
    refine ⟨?_, rfl, ?_⟩
    · rw [take_succ_eq_append_getElem (by omega), ← append_assoc]
      exact hr.snoc _
    · intro key hk
      rw [AList.lookup_insert_ne (hk _).symm]
      exact hf key hk

private lemma name_ne {key : Text} (name : Text) {suffix : Text} (hk : ':' ∉ key)
    (hs : ':' ∈ suffix) : key ≠ name ++ suffix := by
  rintro rfl
  exact hk (mem_append_right name hs)

private lemma dec_ne_name (name : Text) {suffix : Text} (hs : ':' ∈ suffix) (n : Nat) :
    dec n ≠ name ++ suffix :=
  dec_ne_of_mem (mem_append_right name hs) (by decide) n

private lemma mergeTimes_lookup (latency : Int) (m : ReplyMeta) (x : Dict) {key : Text}
    (hk : ':' ∉ key) : (mergeTimes latency m x).lookup key = x.lookup key := by
  have hlat := @AList.lookup_insert_ne _ _ _ key _ (Data.dbl latency) x
    (name_ne m.xlname hk (show ':' ∈ ":latency".toList by decide))
  unfold mergeTimes Dict.setDouble
  split
  · rw [AList.lookup_insert_ne (name_ne m.xlname hk (by decide)), hlat]
  · exact hlat

private lemma mergeTimes_hasRows (latency : Int) (m : ReplyMeta) {x : Dict} {rows : List Text}
    (h : x.HasRows rows) : (mergeTimes latency m x).HasRows rows := by
  have hlat := h.insert_other (.dbl latency)
    (dec_ne_name m.xlname (show ':' ∈ ":latency".toList by decide))
  unfold mergeTimes
  split
  · exact hlat.insert_other _ (dec_ne_name m.xlname (by decide))
  · exact hlat

/-- The metadata where the counters of the shared dictionary are in place. -/
lemma mergeMeta_eq (latency : Int) (m : ReplyMeta) {x : Dict} {count comeback : Nat}
    (hc : x.lookup "count".toList = some (.num count)) (hcount : count < 2 ^ 64)
    (hb : x.lookup "comeback".toList = some (.num comeback)) (hcomeback : comeback < 2 ^ 31) :
    mergeMeta latency m x =
      (((((mergeTimes latency m x).setUint64 "count".toList (count + m.xcnt)).setUint64
        "comeback".toList (toUint64 (toInt32 (comeback + m.xcomeback)))).setUint64
          (m.xlname ++ ":count".toList) m.xcnt).setInt32
            (m.xlname ++ ":ret".toList) m.dbRet).setDouble
              (m.xlname ++ ":runtime".toList) m.runtime := by
  have hget : (mergeTimes latency m x).getUint64 "count".toList = some count := by
    rw [Dict.getUint64_of_lookup (by rw [mergeTimes_lookup _ _ _ (by decide), hc]),
      toUint64_natCast hcount]
  have hback : ((mergeTimes latency m x).setUint64 "count".toList (count + m.xcnt)).getInt32
      "comeback".toList = some (comeback : Int) := by
    rw [Dict.getInt32_of_lookup (z := comeback) ?_ (by omega) (by omega),
      toInt32_eq_self (by omega) (by omega)]
    rw [Dict.lookup_setUint64_ne (by decide), mergeTimes_lookup _ _ _ (by decide), hb]
  simp only [mergeMeta, hget, hback]

/-- One more reply: its rows follow, and both counters are added to. -/
lemma Merge.Holds.reply {q : QueryReply} {m : ReplyMeta} {rows : List Text} {comeback : Nat}
    {d : Merge} (h : d.Holds rows comeback) (latency : Int)
    (hm : (queryReply (some q)).accept = some m)
    (hrows : rows.length + q.rows.length < 2 ^ 64) (hcome : comeback + 1 < 2 ^ 31) :
    (d.reply latency m q.xdata).Holds (rows ++ q.rows) (comeback + q.comeback.toNat) := by
  obtain ⟨m', hm', hcnt, -, hback⟩ := accept_query q
  obtain rfl : m' = m := Option.some.inj (hm'.symm.trans hm)
  obtain ⟨hr, hp, hf⟩ := copyRows_take q.hasRows h.hasRows h.pos hrows (le_refl _)
  rw [take_length] at hr
  have hc := (hf "count".toList (dec_ne (by decide))).trans h.count
  have hb := (hf "comeback".toList (dec_ne (by decide))).trans h.comeback
  have hsum : toUint64 (toInt32 (comeback + m'.xcomeback)) = comeback + q.comeback.toNat := by
    rcases q.comeback_mem with he | he <;> rw [toInt32_eq_self (by omega) (by omega)] <;>
      unfold toUint64 <;> omega
  have hmeta := mergeMeta_eq latency m' hc (by omega) hb (by omega)
  rw [Merge.reply, hcnt, hmeta, hcnt, hsum]
  refine ⟨?_, ?_, ?_, ?_⟩
  · have hname {suffix : Text} (hs : ':' ∈ suffix) := dec_ne_name m'.xlname hs
    exact (((((mergeTimes_hasRows latency m' hr).insert_other _ (dec_ne (by decide))).insert_other _
      (dec_ne (by decide))).insert_other _ (hname (by decide))).insert_other _
        (hname (by decide))).insert_other _ (hname (by decide))
  · rw [length_append]
    exact hp
  · rw [Dict.lookup_setDouble_ne (name_ne _ (by decide) (by decide)),
      Dict.lookup_setInt32_ne (name_ne _ (by decide) (by decide)),
      Dict.lookup_setUint64_ne (name_ne _ (by decide) (by decide)),
      Dict.lookup_setUint64_ne (by decide), Dict.lookup_setUint64, Nat.mod_eq_of_lt hrows,
      length_append]
  · rw [Dict.lookup_setDouble_ne (name_ne _ (by decide) (by decide)),
      Dict.lookup_setInt32_ne (name_ne _ (by decide) (by decide)),
      Dict.lookup_setUint64_ne (name_ne _ (by decide) (by decide)), Dict.lookup_setUint64,
      Nat.mod_eq_of_lt ?_]
    rcases q.comeback_mem with he | he <;> rw [he] <;> omega

variable {p : Text → Bool}

private lemma copyRows_members (hp : ∀ n, p (dec n) = false) (xdata : Dict) (n : Nat)
    (d : Merge) : (d.copyRows xdata n).xdata.members p = d.xdata.members p := by
  induction n with
  | zero => rfl
  | succ n ih =>
    rw [Merge.copyRows, range_succ, foldl_append, ← ih]
    simp only [foldl_cons, Merge.copyRow]
    split
    · exact Dict.members_insert_of_not _ (hp _)
    · rfl

/-- A walk over the members finds a new one for each reply merged, if the pattern selects
none of the other keys. -/
lemma Merge.Holds.reply_members {q : QueryReply} {m : ReplyMeta} {rows : List Text}
    {comeback : Nat} {d : Merge} (h : d.Holds rows comeback) (latency : Int)
    (hm : (queryReply (some q)).accept = some m)
    (hrows : rows.length + q.rows.length < 2 ^ 64) (hcome : comeback + 1 < 2 ^ 31)
    (hdec : ∀ n, p (dec n) = false)
    (hcounters : p "count".toList = false ∧ p "comeback".toList = false)
    (hothers : ∀ suffix ∈ [":latency", ":dbtime", ":ret", ":runtime"],
      p (q.xlname ++ suffix.toList) = false)
    (hcount : p (q.xlname ++ ":count".toList))
    (hnew : q.xlname ++ ":count".toList ∉ (d.xdata.members p).map Prod.fst) :
    (d.reply latency m q.xdata).xdata.members p =
      (q.xlname ++ ":count".toList, .num q.rows.length) :: d.xdata.members p := by
  obtain ⟨m', hm', hcnt, hname, -⟩ := accept_query q
  obtain rfl : m' = m := Option.some.inj (hm'.symm.trans hm)
  obtain ⟨-, -, hf⟩ := copyRows_take q.hasRows h.hasRows h.pos hrows (le_refl _)
  have hc := (hf "count".toList (dec_ne (by decide))).trans h.count
  have hb := (hf "comeback".toList (dec_ne (by decide))).trans h.comeback
  have hcopied := copyRows_members hdec q.xdata q.rows.length d
  generalize hx : (d.copyRows q.xdata q.rows.length).xdata = x at hc hb hcopied
  have htimes : (mergeTimes latency m' x).members p = d.xdata.members p := by
    unfold mergeTimes
    rw [hname]
    split
    · rw [Dict.setDouble, Dict.members_insert_of_not _ (hothers _ (by decide)), Dict.setDouble,
        Dict.members_insert_of_not _ (hothers _ (by decide)), hcopied]
    · rw [Dict.setDouble, Dict.members_insert_of_not _ (hothers _ (by decide)), hcopied]
  rw [Merge.reply, hcnt, hx, mergeMeta_eq latency m' hc (by omega) hb (by omega), hname, hcnt]
  rw [Dict.setDouble, Dict.members_insert_of_not _ (hothers _ (by decide)), Dict.setInt32,
    Dict.members_insert_of_not _ (hothers _ (by decide)), Dict.setUint64,
    Nat.mod_eq_of_lt (by omega)]
  have hold : Dict.members (((mergeTimes latency m' x).setUint64 "count".toList
      (rows.length + q.rows.length)).setUint64 "comeback".toList
        (toUint64 (toInt32 (comeback + m'.xcomeback)))) p = d.xdata.members p := by
    rw [Dict.setUint64, Dict.members_insert_of_not _ hcounters.2, Dict.setUint64,
      Dict.members_insert_of_not _ hcounters.1, htimes]
  rw [Dict.members_insert_of_new _ hcount ?_, hold]
  exact Dict.lookup_eq_none_of_members hcount (by rw [hold]; exact hnew)

end TagItGluster.Dht
