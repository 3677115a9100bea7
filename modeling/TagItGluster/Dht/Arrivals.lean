import Mathlib.Algebra.Order.Group.Multiset
import Mathlib.Algebra.Ring.Int.Defs
import Mathlib.Data.List.Induction
import Mathlib.Data.List.ReduceOption
import TagItGluster.Base.Workers
import TagItGluster.Dht.Ipc

/-!
# Every order of arrival of the replies

Whatever the interleaving of the callbacks, the shared dictionary is the one that merging the
successful replies one after the other in some order leads to, and exactly one callback
unwinds. It unwinds the shared dictionary if its own reply was accepted, and a null pointer
if not, whatever the others have merged.
-/

namespace TagItGluster.Dht

open Base Libglusterfs List

/-- The effect of one successful reply on the shared dictionary. -/
def Merge.query (d : Merge) (x : Int × QueryReply) : Merge :=
  match (queryReply (some x.2)).accept with
  | none => d
  | some m => d.reply x.1 m x.2.xdata

/-- Replies, each with its latency, merged one after the other. -/
def mergeAll (order : List (Int × QueryReply)) : Merge := order.foldl Merge.query .init

/-- The number of replies that ask to come back. -/
def comebacks (qs : List QueryReply) : Nat := (qs.map (fun q => q.comeback.toNat)).sum

lemma comebacks_le (qs : List QueryReply) : comebacks qs ≤ qs.length := by
  induction qs with
  | nil => exact le_refl 0
  | cons q qs ih =>
    have hq : q.comeback.toNat ≤ 1 := by
      rcases q.comeback_mem with h | h <;> rw [h] <;> decide
    simp only [comebacks, map_cons, sum_cons, length_cons] at ih ⊢
    omega

private lemma length_rows_le (qs : List QueryReply) :
    (qs.flatMap QueryReply.rows).length ≤ qs.length * 2 ^ 31 := by
  induction qs with
  | nil => exact le_refl 0
  | cons q qs ih =>
    have hq := q.rows_lt
    simp only [flatMap_cons, length_append, length_cons]
    omega

section

variable (order : List (Int × QueryReply))
include order

lemma mergeAll_snoc {x : Int × QueryReply} {m : ReplyMeta}
    (hm : (queryReply (some x.2)).accept = some m) :
    mergeAll (order ++ [x]) = (mergeAll order).reply x.1 m x.2.xdata := by
  simp [mergeAll, Merge.query, hm]

/-- The counters do not overflow while fewer than `2 ^ 31` replies are merged. -/
lemma merge_bounds (q : QueryReply) (hlen : order.length + 1 < 2 ^ 31) :
    ((order.map Prod.snd).flatMap QueryReply.rows).length + q.rows.length < 2 ^ 64 ∧
      comebacks (order.map Prod.snd) + 1 < 2 ^ 31 := by
  have hrows := length_rows_le (order.map Prod.snd)
  have hback := comebacks_le (order.map Prod.snd)
  have hq := q.rows_lt
  rw [length_map] at hrows hback
  omega

/-- The replies merged one after the other. -/
lemma mergeAll_holds (hlen : order.length < 2 ^ 31) :
    (mergeAll order).Holds ((order.map Prod.snd).flatMap QueryReply.rows)
      (comebacks (order.map Prod.snd)) := by
  induction order using List.reverseRecOn with
  | nil => exact Merge.init_holds
  | append_singleton order x ih =>
    rw [length_append] at hlen
    obtain ⟨m, hm, -⟩ := accept_query x.2
    obtain ⟨hrows, hback⟩ := merge_bounds order x.2 hlen
    have hnew := (ih (by omega)).reply x.1 hm hrows hback
    rw [mergeAll_snoc order hm]
    simpa [comebacks] using hnew

/-- Some `keybuf` has been overrun exactly if a name was longer than 55 bytes. -/
lemma mergeAll_overrun :
    (mergeAll order).overrun = false ↔ ∀ q ∈ order.map Prod.snd, q.xlname.length ≤ 55 := by
  induction order using List.reverseRecOn with
  | nil => simp [mergeAll, Merge.init]
  | append_singleton order x ih =>
    obtain ⟨m, hm, -, hname, -⟩ := accept_query x.2
    rw [mergeAll_snoc order hm, Merge.reply, Bool.or_eq_false_iff, ih, m.fits_iff, hname,
      map_append, forall_mem_append]
    simp

end

section

/-- How far the callback of a reply has come. -/
private inductive Thread where
  | failed
  | fresh (q : QueryReply)
  | merged (q : QueryReply)
  | gone (r : Option QueryReply)

/-- No section has been taken. -/
private def Thread.start : Option QueryReply → Thread
  | none => failed
  | some q => fresh q

/-- The reply of the callback. -/
private def Thread.reply : Thread → Option QueryReply
  | failed => none
  | fresh q => some q
  | merged q => some q
  | gone r => r

/-- What the callback has left to do. -/
private def Thread.prog : Thread → Prog CbkReq Int (Option DictReq)
  | failed => ipcOut .null
  | fresh q => dhtIpcCbk (queryReply (some q))
  | merged _ => ipcOut .shared
  | gone _ => .done none

/-- The reply, once it is merged. -/
private def Thread.merges : Thread → Multiset QueryReply
  | failed => 0
  | fresh _ => 0
  | merged q => {q}
  | gone r => r.toList

/-- Whether the callback is still counted. -/
private def Thread.opened : Thread → Nat
  | gone _ => 0
  | _ => 1

/-- While a callback is still to return: the shared dictionary is a merge of the replies whose
callbacks are past their first section, and nothing has been unwound. -/
private structure Running (replies : List (Option QueryReply))
    (c : Pool CbkReq Int (Option DictReq) IpcData) (ts : List Thread)
    (order : List (Int × QueryReply)) : Prop where
  progs : c.progs = ts.map Thread.prog
  replies : ts.map Thread.reply = replies
  callCnt : c.state.callCnt = (ts.map Thread.opened).sum
  merge : c.state.merge = mergeAll order
  merged : (order.map Prod.snd : Multiset QueryReply) = (ts.map Thread.merges).sum

/-- All have returned, callback `i` as the last one. -/
private structure Final (replies : List (Option QueryReply))
    (c : Pool CbkReq Int (Option DictReq) IpcData) (i : Nat) (r : Option QueryReply)
    (order : List (Int × QueryReply)) : Prop where
  last : (c.log.map Event.who).getLast? = some i
  reply : replies[i]? = some r
  progs : c.progs = (List.replicate replies.length (.done none)).set i
    (.done (some (if r.isSome then .shared else .null)))
  merge : c.state.merge = mergeAll order
  merged : (order.map Prod.snd).Perm replies.reduceOption

private lemma running_start (replies : List (Option QueryReply)) :
    Running replies (dhtIpc (replies.map queryReply)) (replies.map Thread.start) [] := by
  constructor
  · simp only [dhtIpc, map_map]
    exact map_congr_left (fun r _ => by cases r <;> rfl)
  · rw [map_map]
    conv_rhs => rw [← map_id replies]
    exact map_congr_left (fun r _ => by cases r <;> rfl)
  · have hone : replies.map (Thread.opened ∘ Thread.start) = replies.map (fun _ => 1) :=
      map_congr_left (fun r _ => by cases r <;> rfl)
    simp [dhtIpc, hone]
  · rfl
  · have hzero : replies.map (Thread.merges ∘ Thread.start) = replies.map (fun _ => 0) :=
      map_congr_left (fun r _ => by cases r <;> rfl)
    simp [hzero]

variable {replies : List (Option QueryReply)} {c c' : Pool CbkReq Int (Option DictReq) IpcData}
  {ts : List Thread} {order : List (Int × QueryReply)} {m : Nat × Int} {t : Thread}

-- A move does not change which reply a callback has.
private lemma replies_set (h : Running replies c ts order) {i : Nat} (ht : ts[i]? = some t)
    (t' : Thread) (hr : t'.reply = t.reply) : (ts.set i t').map Thread.reply = replies := by
  rw [← h.replies, map_set, hr]
  refine ext_getElem? (fun j => ?_)
  by_cases hj : i = j
  · subst hj
    rw [getElem?_set_self', getElem?_map, ht]
    rfl
  · rw [getElem?_set_ne hj]

-- The callback copies its reply.
private lemma running_merge (h : Running replies c ts order) {q : QueryReply} {rm : ReplyMeta}
    (ht : ts[m.1]? = some (.fresh q)) (hrm : (queryReply (some q)).accept = some rm) :
    Running replies ⟨c.progs.set m.1 (ipcOut .shared),
      { c.state with merge := c.state.merge.reply m.2 rm q.xdata },
      c.log ++ [⟨m.1, .merge rm q.xdata, 0⟩]⟩ (ts.set m.1 (.merged q)) (order ++ [(m.2, q)]) := by
  constructor
  · rw [h.progs, map_set]
    rfl
  · exact replies_set h ht _ rfl
  · have hsum := sum_map_set Thread.opened ht (.merged q)
    rw [show Thread.opened (.fresh q) = Thread.opened (.merged q) from rfl,
      add_right_cancel_iff] at hsum
    rw [hsum]
    exact h.callCnt
  · rw [mergeAll_snoc order hrm, ← h.merge]
  · have hsum := sum_map_set Thread.merges ht (.merged q)
    rw [show Thread.merges (.fresh q) = 0 from rfl, add_zero] at hsum
    rw [hsum, ← h.merged, map_append]
    rfl

/-- The two places where a callback returns, and the dictionary it would unwind with. -/
private def Thread.returning (t : Thread) : Prop :=
  t.prog = ipcOut (if t.reply.isSome then .shared else .null) ∧ t.opened = 1 ∧
    t.merges = t.reply.toList

private lemma running_ret (h : Running replies c ts order) (ht : ts[m.1]? = some t)
    (hret : t.returning) :
    Running replies ⟨c.progs.set m.1 (.done none), { c.state with callCnt := c.state.callCnt - 1 },
      c.log ++ [⟨m.1, .ret, c.state.callCnt - 1⟩]⟩ (ts.set m.1 (.gone t.reply)) order := by
  constructor
  · rw [h.progs, map_set]
    rfl
  · exact replies_set h ht _ rfl
  · have hsum := sum_map_set Thread.opened ht (.gone t.reply)
    rw [hret.2.1, show Thread.opened (.gone t.reply) = 0 from rfl] at hsum
    have hold := h.callCnt
    simp only
    omega
  · exact h.merge
  · have hsum := sum_map_set Thread.merges ht (.gone t.reply)
    rw [hret.2.2, show Thread.merges (.gone t.reply) = t.reply.toList from rfl,
      add_left_inj] at hsum
    rw [hsum]
    exact h.merged

private lemma gone_of_opened_zero (h : (ts.map Thread.opened).sum = 0) :
    ∀ t ∈ ts, t = .gone t.reply := by
  induction ts with
  | nil => exact forall_mem_nil _
  | cons t ts ih =>
    rw [map_cons, sum_cons, Nat.add_eq_zero_iff] at h
    refine forall_mem_cons.mpr ⟨?_, ih h.2⟩
    cases t with
    | gone r => rfl
    | failed | fresh | merged => cases h.1

private lemma merges_of_gone (h : ∀ t ∈ ts, t = .gone t.reply) :
    (ts.map Thread.merges).sum = ((ts.map Thread.reply).reduceOption : Multiset QueryReply) := by
  induction ts with
  | nil => rfl
  | cons t ts ih =>
    rw [forall_mem_cons] at h
    rw [map_cons, sum_cons, ih h.2, h.1]
    cases hr : t.reply with
    | none => simp [Thread.merges, Thread.reply]
    | some q => simp [Thread.merges, Thread.reply]

-- The last callback to return unwinds.
private lemma final_ret (h : Running replies c ts order) (ht : ts[m.1]? = some t)
    (hret : t.returning) (hcnt : c.state.callCnt - 1 = 0) :
    Final replies ⟨c.progs.set m.1 (.done (some (if t.reply.isSome then .shared else .null))),
      { c.state with callCnt := c.state.callCnt - 1 },
      c.log ++ [⟨m.1, .ret, c.state.callCnt - 1⟩]⟩ m.1 t.reply order := by
  have hsum := sum_map_set Thread.opened ht (.gone t.reply)
  rw [hret.2.1, show Thread.opened (.gone t.reply) = 0 from rfl] at hsum
  have hold := h.callCnt
  have hgone : ∀ t' ∈ ts.set m.1 (.gone t.reply), t' = .gone t'.reply :=
    gone_of_opened_zero (by omega)
  have hreplies := replies_set h ht (.gone t.reply) rfl
  constructor
  · simp
  · rw [← h.replies, getElem?_map, ht]
    rfl
  · have hall : (ts.set m.1 (.gone t.reply)).map Thread.prog =
        List.replicate replies.length (.done none) := by
      rw [eq_replicate_iff]
      refine ⟨by rw [← h.replies]; simp, ?_⟩
      intro p hp
      obtain ⟨t', ht', rfl⟩ := mem_map.mp hp
      rw [hgone t' ht']
      rfl
    rw [← hall, h.progs, map_set, set_set]
  · exact h.merge
  · rw [← Multiset.coe_eq_coe, h.merged]
    have hm := sum_map_set Thread.merges ht (.gone t.reply)
    rw [hret.2.2, show Thread.merges (.gone t.reply) = t.reply.toList from rfl, add_left_inj] at hm
    rw [← hm, merges_of_gone hgone, hreplies]

/-- Where a run can be: some callback is still to return, or all have. -/
private def Stage (replies : List (Option QueryReply))
    (c : Pool CbkReq Int (Option DictReq) IpcData) : Prop :=
  (∃ ts order, Running replies c ts order ∧ c.state.callCnt ≠ 0) ∨
    ∃ i r order, Final replies c i r order

private lemma stage_ret (h : Running replies c ts order) (ht : ts[m.1]? = some t)
    (hret : t.returning) (hs : c.step ipcHandle m = some c') : Stage replies c' := by
  obtain ⟨q, k, hq, rfl⟩ := Pool.step_eq_some hs
  rw [h.progs, getElem?_map, ht, Option.map_some, hret.1] at hq
  obtain ⟨rfl, rfl⟩ := Prog.ask.inj (Option.some.inj hq)
  by_cases hz : c.state.callCnt - 1 = 0
  · refine .inr ⟨m.1, t.reply, order, ?_⟩
    simpa [ipcHandle, hz] using final_ret h ht hret hz
  · refine .inl ⟨ts.set m.1 (.gone t.reply), order, ?_, hz⟩
    simpa [ipcHandle, hz] using running_ret h ht hret

private lemma stage_step (h : Stage replies c) (hs : c.step ipcHandle m = some c') :
    Stage replies c' := by
  rcases h with ⟨ts, order, h, hcnt⟩ | ⟨i, r, order, h⟩
  · have hmove := Pool.step_eq_some hs
    obtain ⟨q, k, hq, hc'⟩ := hmove
    rw [h.progs, getElem?_map] at hq
    obtain ⟨t, ht, hprog⟩ := Option.map_eq_some_iff.mp hq
    cases t with
    | failed | merged => exact stage_ret h ht ⟨rfl, rfl, rfl⟩ hs
    | gone r => cases hprog
    | fresh q' =>
      obtain ⟨rm, hrm, -⟩ := accept_query q'
      rw [Thread.prog, dhtIpcCbk, hrm] at hprog
      cases hprog
      rw [hc']
      exact .inl ⟨_, _, running_merge h ht hrm, hcnt⟩
  · -- nobody is left to move
    obtain ⟨q, k, hq, -⟩ := Pool.step_eq_some hs
    have hmem := mem_of_getElem? hq
    rw [h.progs] at hmem
    rcases mem_or_eq_of_mem_set hmem with hm | hm
    · cases (eq_of_mem_replicate hm)
    · cases hm

private lemma final_of_finished (h : Stage replies c) (hfin : c.Finished) :
    ∃ i r order, Final replies c i r order := by
  rcases h with ⟨ts, order, h, hcnt⟩ | h
  · exfalso
    refine hcnt ?_
    have hall : ∀ n ∈ ts.map Thread.opened, n = 0 := by
      intro n hn
      obtain ⟨t, ht, rfl⟩ := mem_map.mp hn
      obtain ⟨a, ha⟩ := hfin t.prog (by rw [h.progs]; exact mem_map_of_mem ht)
      cases t with
      | gone r => rfl
      | failed | merged => cases ha
      | fresh q =>
        obtain ⟨rm, hrm, -⟩ := accept_query q
        rw [Thread.prog, dhtIpcCbk, hrm] at ha
        cases ha
    rw [h.callCnt, eq_replicate_of_mem hall]
    simp
  · exact h

end

/-- The caller has been given the union of the successful replies: their rows under the keys
`0` to `n - 1`, `n` as `count` and the sum of their `comeback` values. -/
def UnionOf (replies : List (Option QueryReply)) (d : Option Dict) : Prop :=
  ∃ x rows, d = some x ∧ rows.Perm (replies.reduceOption.flatMap QueryReply.rows) ∧
    x.HasRows rows ∧ x.lookup "count".toList = some (.num rows.length) ∧
    x.lookup "comeback".toList = some (.num (replies.reduceOption.map QueryReply.comeback).sum)

private lemma sum_comeback (qs : List QueryReply) :
    (qs.map QueryReply.comeback).sum = (comebacks qs : Int) := by
  induction qs with
  | nil => rfl
  | cons q qs ih =>
    simp only [comebacks, map_cons, sum_cons] at ih ⊢
    rw [ih]
    rcases q.comeback_mem with h | h <;> rw [h] <;> simp

private lemma unionOf_final {replies : List (Option QueryReply)} {order : List (Int × QueryReply)}
    (hlen : replies.length < 2 ^ 31) (hp : (order.map Prod.snd).Perm replies.reduceOption) :
    UnionOf replies (some (mergeAll order).xdata) := by
  have hle : order.length ≤ replies.length := by
    have hred := reduceOption_length_le replies
    have hperm := hp.length_eq
    rw [length_map] at hperm
    omega
  have h := mergeAll_holds order (by omega)
  refine ⟨_, _, rfl, hp.flatMap_right _, h.hasRows, h.count, ?_⟩
  rw [h.comeback, ← (hp.map QueryReply.comeback).sum_eq, sum_comeback]

private lemma filterMap_set_replicate {α β : Type} {f : α → Option β} {a b : α} {y : β}
    {n i : Nat} (ha : f a = none) (hb : f b = some y) (hi : i < n) :
    ((List.replicate n a).set i b).filterMap f = [y] := by
  rw [set_eq_take_append_cons_drop, if_pos (by simpa using hi), filterMap_append,
    filterMap_cons, hb, take_replicate]
  simp [filterMap_replicate_of_none ha]

/-- Every finished interleaving unwinds once. The shared dictionary is a merge of the
successful replies one after the other, and the last callback to return decides whether the
caller gets it. -/
lemma unwound_eq (replies : List (Option QueryReply)) (hne : replies ≠ []) (ms : List (Nat × Int))
    (c : Pool CbkReq Int (Option DictReq) IpcData)
    (hrun : (dhtIpc (replies.map queryReply)).run ipcHandle ms = some c) (hfin : c.Finished) :
    ∃ i r order, (ms.map Prod.fst).getLast? = some i ∧ replies[i]? = some r ∧
      (order.map Prod.snd).Perm replies.reduceOption ∧ c.state.merge = mergeAll order ∧
      unwound c = [if r.isSome then some (mergeAll order).xdata else none] := by
  have hstage : Stage replies c := by
    refine Pool.run_inv (Stage replies) (fun c₁ m c₂ h _ hs => stage_step h hs) ?_
      (Pool.along_true ipcHandle _ ms) hrun
    refine .inl ⟨_, _, running_start replies, ?_⟩
    simpa [dhtIpc] using hne
  obtain ⟨i, r, order, hfinal⟩ := final_of_finished hstage hfin
  have hlast : (ms.map Prod.fst).getLast? = some i := by
    rw [← hfinal.last, Pool.run_log hrun]
    rfl
  obtain ⟨hi, -⟩ := List.getElem?_eq_some_iff.mp hfinal.reply
  refine ⟨i, r, order, hlast, hfinal.reply, hfinal.merged, hfinal.merge, ?_⟩
  rw [unwound, hfinal.progs, hfinal.merge]
  refine filterMap_set_replicate rfl ?_ hi
  cases r <;> rfl

/-- The caller has been given the union of the successful replies, and no callback has written
beyond its `keybuf`. -/
def UnionUnwound (replies : List (Option QueryReply))
    (c : Pool CbkReq Int (Option DictReq) IpcData) : Prop :=
  (∃ d, unwound c = [d] ∧ UnionOf replies d) ∧ c.state.merge.overrun = false

private lemma shortNames_iff {replies : List (Option QueryReply)} {order : List (Int × QueryReply)}
    (hp : (order.map Prod.snd).Perm replies.reduceOption) :
    (mergeAll order).overrun = false ↔ ∀ q, some q ∈ replies → q.xlname.length ≤ 55 := by
  rw [mergeAll_overrun]
  refine forall_congr' (fun q => imp_congr_left ?_)
  rw [hp.mem_iff, reduceOption_mem_iff]

/-- The reply of brick `b` to a query with the single row `a`. -/
def oneRowReply : QueryReply where
  xdata := ((((((∅ : Dict).setStr ['0'] ['a']).setUint64 "count".toList 1).setInt32
    "ret".toList 0).setInt32 "comeback".toList 0).setDouble "runtime".toList 8).setStr
      "from".toList ['b']
  rows := [['a']]
  xlname := ['b']
  comeback := 0
  hasRows := by
    have h : Dict.HasRows ((∅ : Dict).setStr ['0'] ['a']) [['a']] := Dict.hasRows_empty.snoc ['a']
    exact ((((h.insert_other _ (dec_ne (by decide))).insert_other _
      (dec_ne (by decide))).insert_other _ (dec_ne (by decide))).insert_other _
        (dec_ne (by decide))).insert_other _ (dec_ne (by decide))
  rows_lt := by decide
  count := by decide
  ret := ⟨0, by decide⟩
  xlname_eq := by decide
  runtime := ⟨8, by decide⟩
  comeback_eq := by decide
  comeback_mem := .inl rfl

end TagItGluster.Dht
