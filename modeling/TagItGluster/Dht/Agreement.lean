import TagItGluster.Dht.Ipc
import TagItGluster.Server.Ipc

/-!
# What bricks send and what the merge accepts

The merge of `dht_ipc_cbk` takes a reply only with all of `count`, `ret`, `from`, `runtime`
and `comeback`. A brick writes `comeback` in the replies to queries alone.
-/

namespace TagItGluster.Dht

open Base Libglusterfs Server Option

/-- The merge accepts the reply without writing beyond `keybuf`, and merging it into what any
other replies have led to adds all of its rows. -/
def Delivered (x : Dict) : Prop :=
  ∃ rows m, x.HasRows rows ∧ (IpcReply.mk 0 x).accept = some m ∧ m.overruns = false ∧
    ∀ latency d before comeback, Merge.Holds d before comeback →
      before.length + rows.length < 2 ^ 64 → comeback + 1 < 2 ^ 31 →
        ∃ comeback', (d.reply latency m x).Holds (before ++ rows) comeback'

private lemma length_slice_le (r : Result) (offset count : Nat) :
    (r.slice offset count).length ≤ r.rows.length := by
  rw [Result.slice, List.length_take, List.length_drop]
  omega

/-- The reply of a brick to a query, as the merge sees it. -/
lemma exists_queryReply {env : QueryEnv} {xin : Dict} {qrset qrset' : Qrset} {r : Result}
    {identity session : Text} {offset count : Nat} (h : Asks xin session offset count)
    (hr : sessionResult env xin session qrset = .found qrset' r) (hkey : KeyFits offset count) :
    ∃ q : QueryReply, imsIpcQuery env xin (replyFrom identity) qrset =
        some (afterServing r offset count qrset', some q.xdata) ∧
      q.rows = r.slice offset count ∧ q.xlname = identity ∧
      q.comeback = if r.Exhausts offset count then 0 else 1 := by
  obtain ⟨x, hq, hs, hrun⟩ := imsIpcQuery_eq h hr hkey (replyFrom_hasRows identity)
  have hlen := length_slice_le r offset count
  have hlt := r.rows_lt
  refine ⟨⟨x, r.slice offset count, identity, if r.Exhausts offset count then 0 else 1, hs.hasRows,
    by omega, hs.count, ⟨0, Dict.getInt32_of_lookup hs.ret (by decide) (by decide)⟩, ?_,
    ⟨_, hrun⟩, hs.comeback, ?_⟩, hq, rfl, rfl, rfl⟩
  · rw [hs.sender]
    exact Dict.lookup_setStr identity
  · split
    · exact .inl rfl
    · exact .inr rfl

private lemma delivered_query (q : QueryReply) : Delivered q.xdata ↔ q.xlname.length ≤ 55 := by
  obtain ⟨m, hm, -, hname, -⟩ := accept_query q
  have hfits : m.overruns = false ↔ q.xlname.length ≤ 55 := by rw [m.fits_iff, hname]
  constructor
  · rintro ⟨rows, m', -, hm', hshort, -⟩
    obtain rfl : m = m' := Option.some.inj (hm.symm.trans hm')
    exact hfits.mp hshort
  · intro hshort
    refine ⟨q.rows, m, q.hasRows, hm, hfits.mpr hshort, ?_⟩
    intro latency d before comeback hd hrows hcome
    exact ⟨_, hd.reply latency hm hrows hcome⟩

/-- Without `comeback` a reply is refused. -/
lemma not_delivered {x : Dict} (h : x.lookup "comeback".toList = none) : ¬Delivered x := by
  rintro ⟨rows, m, -, hm, -⟩
  obtain ⟨xcnt, -, hm⟩ := bind_eq_some_iff.mp hm
  obtain ⟨dbRet, -, hm⟩ := bind_eq_some_iff.mp hm
  obtain ⟨xlname, -, hm⟩ := bind_eq_some_iff.mp hm
  obtain ⟨runtime, -, hm⟩ := bind_eq_some_iff.mp hm
  obtain ⟨xcomeback, hback, -⟩ := bind_eq_some_iff.mp hm
  rw [Dict.getInt32, h] at hback
  cases hback

section

variable {env : ActiveEnv} {operator : Text} {work : WorkState → Text → WorkState}

-- The loops over the files write rows only.
private lemma lookup_foldl (hwork : ∀ s file, (work s file).result.lookup "comeback".toList =
      s.result.lookup "comeback".toList) (files : List Text) (s : WorkState) :
    (files.foldl work s).result.lookup "comeback".toList = s.result.lookup "comeback".toList := by
  induction files generalizing s with
  | nil => rfl
  | cons file files ih =>
    rw [List.foldl_cons, ih, hwork]

private lemma lookup_workFiles (hwork : ∀ s file, (work s file).result.lookup "comeback".toList =
      s.result.lookup "comeback".toList) (files : List Text) (x : Dict) :
    (workFiles work files x).lookup "comeback".toList = x.lookup "comeback".toList := by
  unfold workFiles
  rw [Dict.lookup_setUint64_ne (by decide), Dict.lookup_setInt32_ne (by decide), lookup_foldl hwork]

private lemma lookup_activeWork (type : IpcType) (files : List Text) (x : Dict) :
    (activeWork env operator type files x).lookup "comeback".toList =
      x.lookup "comeback".toList := by
  cases type with
  | exec =>
    refine lookup_workFiles (fun s file => ?_) files x
    unfold execFile
    split
    · rfl
    · exact putRows_lookup_ne (dec_ne (by decide)) _ _ _
  | extractor =>
    refine lookup_workFiles (fun s file => ?_) files x
    unfold extractFile
    split <;> rfl
  | filter | query => rfl

/-- No active request writes `comeback`. -/
lemma lookup_imsIpcActiveExec {type : IpcType} {xin xout x : Dict}
    (h : imsIpcActiveExec env type xin xout = some x) :
    x.lookup "comeback".toList = xout.lookup "comeback".toList := by
  obtain ⟨sql, -, h⟩ := bind_eq_some_iff.mp h
  obtain ⟨operator, -, h⟩ := bind_eq_some_iff.mp h
  obtain ⟨files, -, h⟩ := bind_eq_some_iff.mp h
  split at h
  · cases h
    rw [Dict.lookup_setDouble_ne (by decide), Dict.lookup_setUint64_ne (by decide),
      Dict.lookup_setInt32_ne (by decide)]
  · cases h
    rw [Dict.lookup_setDouble_ne (by decide), lookup_activeWork]

end

/-- A program that prints `x` for the one file that the statement selects. -/
def sampleActive : ActiveEnv where
  exec _ := some ⟨["/f".toList], by decide⟩
  run _ _ := some (["x".toList], 0)
  setxattr _ _ := true
  brickPath := "/brick".toList
  runtime := 5

/-- A request with a type, a statement and a program or a session. -/
def sampleIpc (type : Text) : Dict :=
  ((((((∅ : Dict).setStr "type".toList type).setStr "sql".toList
    "select path from xfile".toList).setStr "operator".toList "wc".toList).setStr
      "session".toList "h:1:0".toList).setUint64 "offset".toList 0).setUint64 "count".toList 10

end TagItGluster.Dht
