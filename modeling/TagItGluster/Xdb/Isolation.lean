import TagItGluster.Xdb.Atomicity

/-!
# Calls that share the connection

All callers use one database handle, and nothing keeps the transaction of one call apart
from that of another: a `BEGIN` inside an open transaction is refused, its error is ignored,
and the statements that follow belong to the transaction of the other call. The calls are
isolated in every run in which no transaction is opened inside another one.
-/

namespace TagItGluster.Xdb

open Base List

/-- The call is given what it tests for `NULL` before `BEGIN`; without it,
`ims_xdb_setxattr` issues a `ROLLBACK` of its own. -/
def Call.Named : Call → Prop
  | .setxattr x => x.gfid ≠ none ∧ x.name ≠ none
  | _ => True

/-- The updates that make up the complete work of a call. -/
def Call.Complete : Call → List Sql → Prop
  | .insertNewFile gfid path sb, ws =>
    ∃ gid, ws = [.insertGfid gfid, .insertFile gfid path, .insertStat gid sb]
  | .setxattr x, ws => ∃ g n, x.gfid = some g ∧ x.name = some n ∧
    ws = [.insertXname n, .insertXdata g n (bindValue x).1 (bindValue x).2.1 (bindValue x).2.2]
  | .updateStat _ sb statOp, ws =>
    ∃ gid, ws = (updatePlan (normStatOp statOp)).map (fun a => .updateStat (sb a) gid a)

section

/-- Success of a call. -/
abbrev Succeeded (ret : Int) : Prop := ret = 0

private lemma body_txOut (ret : Int) : Body (V := Int) (Q := Sql) Succeeded (txOut ret) := by
  unfold txOut
  split
  · next h => exact .rollback ret h
  · next h => exact .commit ret (not_not.mp h)

private lemma body_stepDone (q : Sql) (k : Int → Op Int) (hk : Body Succeeded (k 0))
    (he : k (-1) = txOut (-1)) : Body Succeeded (stepDone q >>= k) := by
  refine .data q _ ?_ ⟨-1, by decide, he⟩
  intro r _
  cases r with
  | done => exact hk
  | row v =>
    change Body Succeeded (k (-1))
    rw [he]
    exact body_txOut (-1)
  | err => contradiction

private lemma body_newFile (gfid : Option Gfid) (path : Path) (sb : Stat) :
    Body Succeeded (insertNewFileBody gfid path sb >>= txOut) := by
  rw [insertNewFileBody, Prog.bind_assoc]
  refine body_stepDone _ _ ?_ rfl
  simp only [ne_eq, not_true_eq_false, if_false, Prog.bind_assoc]
  refine body_stepDone _ _ ?_ rfl
  refine .data _ _ ?_ ⟨-1, by decide, rfl⟩
  intro r _
  cases r with
  | done | err => exact body_txOut (-1)
  | row v => exact body_stepDone _ _ (body_txOut 0) rfl

private lemma body_setxattr (g : Gfid) (n : Text) (x : XAttr) :
    Body Succeeded (setxattrBody g n x >>= txOut) := by
  rw [setxattrBody, Prog.bind_assoc]
  refine body_stepDone _ _ ?_ rfl
  exact body_stepDone _ _ (body_txOut 0) rfl

private lemma body_updateXdata (gid : Int) (sb : Stat) (plan : List StatAttr) :
    Body Succeeded (updateXdata gid sb plan) := by
  induction plan with
  | nil => exact .commit 0 rfl
  | cons a as ih =>
    refine .data _ _ ?_ ⟨-1, by decide, rfl⟩
    intro r hr
    cases r with
    | done => exact ih
    | row v => exact .rollback (-1) (by decide)
    | err => contradiction

/-- Every call with its arguments given is bracketed by `BEGIN` and `END` or `ROLLBACK`. -/
lemma Call.bracketed {call : Call} (h : call.Named) :
    Bracketed Succeeded Sql.isRead call.prog := by
  cases call with
  | insertNewFile gfid path sb => exact .begin _ (body_newFile gfid path sb)
  | setxattr x =>
    simp only [Call.prog, imsXdbSetxattr]
    split
    · next g n _ _ =>
      split
      · exact .fail (-1) (by decide)
      · exact .begin _ (body_setxattr g n x)
    next hn =>
    cases hg : x.gfid with
    | none => exact absurd hg h.1
    | some g =>
      cases hx : x.name with
      | none => exact absurd hx h.2
      | some n => exact absurd hx (hn g n hg)
  | updateStat gfid sb statOp =>
    simp only [Call.prog, imsXdbUpdateStat]
    split
    · exact .fail (-1) (by decide)
    refine .read (Sql.getGid gfid) rfl _ ?_
    intro r
    cases r with
    | done | err => exact .fail (-1) (by decide)
    | row v =>
      refine .prepare _ ?_
      intro r
      cases r with
      | err => exact .fail (-1) (by decide)
      | done => exact .begin _ (body_updateXdata _ sb _)
      | row _ => exact .begin _ (body_updateXdata _ sb _)

variable {es : List (Stmt Sql × Res Int)}

-- Only a successful call reaches `END`.
private lemma follows_txOut {ret : Int} (h : (txOut ret).Follows es (.done 0)) :
    ∃ r, es = [(.commit, r)] := by
  unfold txOut at h
  split at h
  · next hr =>
    obtain ⟨r, es', rfl, h₁⟩ := Prog.Follows.ask_done h
    exact absurd h₁.done_done.2 hr
  · obtain ⟨r, es', rfl, h₁⟩ := Prog.Follows.ask_done h
    obtain ⟨rfl, _⟩ := h₁.done_done
    exact ⟨r, rfl⟩

private lemma not_follows_txOut (h : (txOut (-1)).Follows es (.done 0)) : False := by
  obtain ⟨r, es', rfl, h₁⟩ := Prog.Follows.ask_done h
  exact absurd h₁.done_done.2 (by decide)

private lemma follows_stepDone {q : Sql} {k : Int → Op Int}
    (h : (stepDone q >>= k).Follows es (.done 0)) (he : k (-1) = txOut (-1)) :
    ∃ es', es = (.data q, .done) :: es' ∧ (k 0).Follows es' (.done 0) := by
  obtain ⟨r, es', rfl, h₁⟩ := Prog.Follows.ask_done h
  cases r with
  | done => exact ⟨es', rfl, h₁⟩
  | row | err =>
    change (k (-1)).Follows es' (.done 0) at h₁
    rw [he] at h₁
    exact (not_follows_txOut h₁).elim

private lemma complete_newFile {gfid : Option Gfid} {path : Path} {sb : Stat}
    (h : (imsXdbInsertNewFile gfid path sb).Follows es (.done 0)) :
    ∃ gid, es.filterMap (writeIn Sql.isRead) =
      [.insertGfid gfid, .insertFile gfid path, .insertStat gid sb] := by
  obtain ⟨_, es₁, rfl, h₁⟩ := Prog.Follows.ask_done h
  rw [insertNewFileBody, Prog.bind_assoc] at h₁
  obtain ⟨es₂, rfl, h₂⟩ := follows_stepDone h₁ rfl
  simp only [ne_eq, not_true_eq_false, if_false, Prog.bind_assoc] at h₂
  obtain ⟨es₃, rfl, h₃⟩ := follows_stepDone h₂ rfl
  obtain ⟨r, es₄, rfl, h₄⟩ := Prog.Follows.ask_done h₃
  cases r with
  | done | err => exact (not_follows_txOut h₄).elim
  | row v =>
    obtain ⟨es₅, rfl, h₅⟩ := follows_stepDone h₄ rfl
    obtain ⟨r, rfl⟩ := follows_txOut h₅
    exact ⟨columnInt v, rfl⟩

private lemma complete_setxattr {g : Gfid} {n : Text} {x : XAttr}
    (h : (setxattrBody g n x >>= txOut).Follows es (.done 0)) :
    es.filterMap (writeIn Sql.isRead) = [.insertXname n,
      .insertXdata g n (bindValue x).1 (bindValue x).2.1 (bindValue x).2.2] := by
  rw [setxattrBody, Prog.bind_assoc] at h
  obtain ⟨es₁, rfl, h₁⟩ := follows_stepDone h rfl
  obtain ⟨es₂, rfl, h₂⟩ := follows_stepDone h₁ rfl
  obtain ⟨r, rfl⟩ := follows_txOut h₂
  rfl

private lemma complete_updateXdata {gid : Int} {sb : Stat} {plan : List StatAttr}
    (h : (updateXdata gid sb plan).Follows es (.done 0)) :
    es.filterMap (writeIn Sql.isRead) = plan.map (fun a => .updateStat (sb a) gid a) := by
  induction plan generalizing es with
  | nil =>
    obtain ⟨r, es', rfl, h₁⟩ := Prog.Follows.ask_done h
    obtain ⟨rfl, _⟩ := h₁.done_done
    rfl
  | cons a as ih =>
    obtain ⟨r, es', rfl, h₁⟩ := Prog.Follows.ask_done h
    cases r with
    | done =>
      rw [map_cons, ← ih h₁]
      rfl
    | row | err => exact (not_follows_txOut h₁).elim

/-- A call that reports success has made all of its updates. -/
lemma Call.complete_of_follows {call : Call} (h : call.prog.Follows es (.done 0)) :
    call.Complete (es.filterMap (writeIn Sql.isRead)) := by
  cases call with
  | insertNewFile gfid path sb => exact complete_newFile h
  | setxattr x =>
    simp only [Call.prog, imsXdbSetxattr] at h
    split at h
    · next g n hg hn =>
      split at h
      · exact absurd h.done_done.2 (by decide)
      · obtain ⟨_, es', rfl, h₁⟩ := Prog.Follows.ask_done h
        have hc := complete_setxattr h₁
        exact ⟨g, n, hg, hn, hc⟩
    · exact (not_follows_txOut h).elim
  | updateStat gfid sb statOp =>
    simp only [Call.prog, imsXdbUpdateStat] at h
    split at h
    · exact absurd h.done_done.2 (by decide)
    obtain ⟨r, es₁, rfl, h₁⟩ := Prog.Follows.ask_done h
    cases r with
    | done | err => exact absurd (Prog.Follows.done_done h₁).2 (by decide)
    | row v =>
      obtain ⟨r, es₂, rfl, h₂⟩ := Prog.Follows.ask_done h₁
      cases r with
      | err => exact absurd (Prog.Follows.done_done h₂).2 (by decide)
      | done | row =>
        obtain ⟨_, es₃, rfl, h₃⟩ := Prog.Follows.ask_done h₂
        have hc := complete_updateXdata h₃
        exact ⟨columnInt v, hc⟩

end

/-- Calls on one connection, interleaved statement by statement. -/
abbrev Calls := Pool (Stmt Sql) (Res Int) Int (Conn Tables)

/-- All calls at their beginning on an idle connection. -/
def startCalls (t : Tables) (calls : List Call) : Calls := ⟨calls.map Call.prog, .idle t, []⟩

/-- The calls are all-or-nothing: the database holds the complete work of the calls that
reported success, in some order, and nothing of the others. -/
def CallsIsolated (fk : Bool) (t : Tables) (calls : List Call) (c : Calls) : Prop :=
  ∃ order : List Nat, order.Nodup ∧ (∀ i, i ∈ order ↔ c.progs[i]? = some (.done 0)) ∧
    (∀ i ∈ order, ∃ call, calls[i]? = some call ∧ call.Complete (writesOf Sql.isRead c.log i)) ∧
    applyAll (Sql.apply fk) (order.flatMap (writesOf Sql.isRead c.log)) t = some c.state.committed

/-- In every run in which no transaction is opened inside another one, and every `BEGIN`
and `END` takes effect, the calls are isolated in every state reached. -/
theorem callsIsolated_of_serialized (fk : Bool) (t : Tables) (calls : List Call)
    (hnamed : ∀ call ∈ calls, call.Named) (ms : List (Nat × Bool)) (c : Calls)
    (hser : Pool.Along (exec (Sql.apply fk)) Serialized (startCalls t calls) ms)
    (hrun : Pool.run (exec (Sql.apply fk)) (startCalls t calls) ms = some c) :
    CallsIsolated fk t calls c := by
  have hprogs : ∀ p ∈ calls.map Call.prog, Bracketed Succeeded Sql.isRead p := by
    intro p hp
    obtain ⟨call, hc, rfl⟩ := mem_map.mp hp
    exact Call.bracketed (hnamed call hc)
  obtain ⟨order, hnd, hmem, happ⟩ := isolated_of_serialized (Sql.apply_read fk) hprogs hser hrun
  have hmem' (i : Nat) : i ∈ order ↔ c.progs[i]? = some (.done 0) := by
    rw [hmem i]
    constructor
    · rintro ⟨a, ha, rfl⟩
      exact ha
    · intro h
      exact ⟨0, h, rfl⟩
  refine ⟨order, hnd, hmem', ?_, happ⟩
  intro i hi
  have hdone := (hmem' i).mp hi
  -- the call of a finished program is there, and it has followed its part of the log
  cases hc : calls[i]? with
  | none =>
    have hn : (calls.map Call.prog)[i]? = none := by rw [getElem?_map, hc]; rfl
    have hlen : c.progs.length = (calls.map Call.prog).length := Pool.run_length hrun
    rw [List.getElem?_eq_none_iff, ← hlen, ← List.getElem?_eq_none_iff, hdone] at hn
    cases hn
  | some call =>
    have hp : (calls.map Call.prog)[i]? = some call.prog := by rw [getElem?_map, hc]; rfl
    obtain ⟨p', hp', hf⟩ := Pool.run_follows hrun hp
    rw [hdone] at hp'
    cases hp'
    refine ⟨call, rfl, ?_⟩
    rw [writesOf_eq]
    exact Call.complete_of_follows hf

/-- An index with one gfid. -/
def oneGfid : Tables := { Tables.empty with xgfid := [⟨1, 7⟩] }

/-- Two attributes are set one after the other; a statement of the second call fails. -/
theorem callsIsolated_two_setxattr : ∃ c, Pool.run (exec (Sql.apply true)) (startCalls oneGfid
        [.setxattr ⟨some 7, 1, some ['x'], 5, 0, none⟩,
          .setxattr ⟨some 7, 1, some ['y'], 6, 0, none⟩])
        [(0, false), (0, false), (0, false), (0, false), (1, false), (1, true), (1, false)] =
          some c ∧
      CallsIsolated true oneGfid [.setxattr ⟨some 7, 1, some ['x'], 5, 0, none⟩,
          .setxattr ⟨some 7, 1, some ['y'], 6, 0, none⟩] c := by
  refine ⟨_, rfl, callsIsolated_of_serialized true oneGfid _ ?_
    [(0, false), (0, false), (0, false), (0, false), (1, false), (1, true), (1, false)] _ ?_ rfl⟩
  · intro call hc
    rcases mem_pair.mp hc with rfl | rfl
    · exact ⟨by simp, by simp⟩
    · exact ⟨by simp, by simp⟩
  · decide

/-- A file is created again while its attribute is being set: the failing creation rolls
back the attribute, and the call that set it still reports success. -/
theorem setxattr_undone_by_other_call : ∃ c, Pool.run (exec (Sql.apply true)) (startCalls oneGfid
        [.insertNewFile (some 7) (.top 'a') (fun _ => 0),
          .setxattr ⟨some 7, 1, some ['x'], 5, 0, none⟩])
        [(0, false), (1, false), (1, false), (1, false), (0, false), (0, false), (1, false)] =
          some c ∧
      c.progs[1]? = some (.done 0) ∧ c.state = .idle oneGfid ∧
      ¬CallsIsolated true oneGfid [.insertNewFile (some 7) (.top 'a') (fun _ => 0),
          .setxattr ⟨some 7, 1, some ['x'], 5, 0, none⟩] c := by
  refine ⟨_, rfl, rfl, rfl, ?_⟩
  rintro ⟨order, hnd, hmem, _, happ⟩
  have hone : ∀ i ∈ order, i = 1 := by
    intro i hi
    have hd := (hmem i).mp hi
    match i, hd with
    | 0, hd => exact absurd (Prog.done.inj (Option.some.inj hd)) (by decide)
    | 1, _ => rfl
    | i + 2, hd => cases hd
  have hin : 1 ∈ order := (hmem 1).mpr rfl
  have horder : order = [1] := by
    cases order with
    | nil => cases hin
    | cons a rest =>
      have ha := hone a mem_cons_self
      cases rest with
      | nil => rw [ha]
      | cons b rest =>
        have hb := hone b (mem_cons_of_mem a mem_cons_self)
        rw [ha, hb] at hnd
        simp at hnd
  subst horder
  exact absurd happ (by decide)

end TagItGluster.Xdb
