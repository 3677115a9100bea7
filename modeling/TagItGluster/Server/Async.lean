import TagItGluster.Server.Callbacks

/-!
# Asynchronous and synchronous updates

The translator sees the same replies in both modes. In asynchronous mode a task waits in the
queue until the worker takes it. The two modes run the same operations except for the reply
of an attribute change: the synchronous callback stores the attributes of a write, the
worker stores all of them. The modes agree along every run in which the other attributes of
such a reply are in the index already.
-/

namespace TagItGluster.Server

open Base Xdb

section

variable {fk : Bool} {c : Conn Tables}

private lemma idle_stepDone (q : Sql) (hc : c.saved = none) :
    (runOp fk (stepDone q) c).saved = none := by
  rcases c with ⟨d, s⟩
  unfold runOp runAlone
  rw [run_dataOnly (Sql.apply fk) (dataOnly_stepDone q) d s]
  exact hc

private lemma idle_call (call : Call) (h : call.Named) (hc : c.saved = none) :
    (runOp fk call.prog c).saved = none :=
  run_bracketed_idle (Sql.apply fk) (Call.bracketed h) c hc

private lemma idle_setxattr (x : XAttr) (hc : c.saved = none) :
    (runOp fk (imsXdbSetxattr x) c).saved = none := by
  by_cases h : (Call.setxattr x).Named
  · exact idle_call _ h hc
  have hp : imsXdbSetxattr x = txOut (-1) := by
    unfold imsXdbSetxattr
    split
    · next g n hg hn => exact absurd ⟨by simp [hg], by simp [hn]⟩ h
    · rfl
  rcases c with ⟨d, s⟩
  cases hc
  rw [hp]
  rfl

private lemma idle_syncStep (e : Event) (hc : c.saved = none) : (syncStep fk e c).saved = none := by
  have hnew (buf : Iatt) (path : Path) :
      (runOp fk (imsXdbInsertNewFile (some buf.gfid) path buf.stat) c).saved = none :=
    idle_call (.insertNewFile (some buf.gfid) path buf.stat) trivial hc
  have hstat (postop : Iatt) : ((imsSetattrCbk false postop).now fk c).saved = none := by
    unfold imsSetattrCbk
    by_cases h0 : postop.gfid = 0
    · simp only [h0]
      exact hc
    · simp only [h0, if_false]
      exact idle_call (.updateStat (some postop.gfid) postop.stat statOpWrite) trivial hc
  rcases e with ⟨opRet, reply⟩
  simp only [syncStep, callback]
  by_cases hret : opRet = -1
  · simp only [hret]
    exact hc
  simp only [hret]
  cases reply with
  | mkdir cookie buf =>
    cases cookie with
    | none => exact hc
    | some path => exact hnew buf path
  | create cookie buf | symlink cookie buf => exact hnew buf cookie
  | link | unlink | rmdir => exact idle_stepDone _ hc
  | rename cookie =>
    cases cookie with
    | none => exact hc
    | some paths => exact idle_stepDone _ hc
  | setattr postop | fsetattr postop | truncate postop | ftruncate postop | writev postop =>
    exact hstat postop
  | setxattr cookie =>
    cases cookie with
    | none => exact hc
    | some xattr => exact idle_setxattr xattr hc

end

/-- The reply of an operation that changes attributes. -/
def Reply.postop : Reply → Option Iatt
  | .setattr postop => some postop
  | .fsetattr postop => some postop
  | .truncate postop => some postop
  | .ftruncate postop => some postop
  | .writev postop => some postop
  | _ => none

/-- The attributes that the worker stores and the synchronous callback does not. -/
def workerOnly : List StatAttr :=
  [.dev, .ino, .mode, .nlink, .rdev, .blksize, .ctime, .uid, .gid]

/-- A successful attribute change of an indexed file brings no news about the attributes
that only the worker stores. -/
def OnlyWritten (e : Event) (c : Conn Tables) : Prop :=
  ∀ postop, e.reply.postop = some postop → e.opRet ≠ -1 → postop.gfid ≠ 0 →
    ∀ gid, c.db.selectGid (some postop.gfid) = some gid →
      ∀ a ∈ workerOnly, Settled c.db (columnInt gid) postop.stat a

section

variable {fk : Bool} {c : Conn Tables}

-- All attributes are the ones of a write after the ones of the worker alone.
private lemma updateStats_all {t : Tables} {gid : Int} {sb : Stat}
    (h : ∀ a ∈ workerOnly, Settled t gid sb a) :
    t.updateStats gid sb (updatePlan (normStatOp statOpAll)) =
      t.updateStats gid sb (updatePlan (normStatOp statOpWrite)) := by
  have hall : updatePlan (normStatOp statOpAll) =
      workerOnly ++ updatePlan (normStatOp statOpWrite) := by decide
  rw [hall, Tables.updateStats, List.foldl_append]
  change (t.updateStats gid sb workerOnly).updateStats gid sb _ = _
  rw [updateStats_eq_self.mpr h]

private lemma update_agree {g : Gfid} {sb : Stat} (hc : c.saved = none)
    (h : ∀ gid, c.db.selectGid (some g) = some gid →
      ∀ a ∈ workerOnly, Settled c.db (columnInt gid) sb a) :
    runOp fk (imsXdbUpdateStat (some g) sb statOpAll) c =
      runOp fk (imsXdbUpdateStat (some g) sb statOpWrite) c := by
  rcases c with ⟨t, s⟩
  cases hc
  unfold runOp
  rw [show (⟨t, none⟩ : Conn Tables) = .idle t from rfl, runAlone_updateStat, runAlone_updateStat]
  cases hg : t.selectGid (some g) with
  | none => rfl
  | some gid =>
    have he := updateStats_all (h gid hg)
    simp only at he ⊢
    rw [he]

/-- The task of a reply does what the synchronous callback does. -/
lemma task_agrees (fk : Bool) (e : Event) (hc : c.saved = none) (h : OnlyWritten e c) :
    doTask (workStep fk) (putTask e) c = syncStep fk e c := by
  have hstat (postop : Iatt) (hp : e.reply.postop = some postop) (hret : e.opRet ≠ -1) :
      doTask (workStep fk) (imsSetattrCbk true postop).task c =
        (imsSetattrCbk false postop).now fk c := by
    unfold imsSetattrCbk
    by_cases h0 : postop.gfid = 0
    · simp only [h0]
      rfl
    · simp only [h0]
      exact update_agree hc (h postop hp hret h0)
  rcases e with ⟨opRet, reply⟩
  simp only [putTask, syncStep, callback]
  by_cases hret : opRet = -1
  · simp only [hret]
    rfl
  simp only [hret]
  cases reply with
  | mkdir cookie buf | rename cookie | setxattr cookie => cases cookie <;> rfl
  | create | symlink | link | unlink | rmdir => rfl
  | setattr postop | fsetattr postop | truncate postop | ftruncate postop | writev postop =>
    exact hstat postop rfl hret

end

/-- The translator in asynchronous mode: replies arrive and the worker takes tasks. -/
def asyncRun (fk : Bool) (ms : List (Move Event)) (t : Tables) : Deferred Task (Conn Tables) :=
  runAll (fun m d => Deferred.move putTask (workStep fk) m d) ms ⟨[], .idle t⟩

/-- The translator in synchronous mode. -/
def syncRun (fk : Bool) (es : List Event) (t : Tables) : Conn Tables :=
  runAll (syncStep fk) es (.idle t)

/-- Whenever the queue is drained, the index is the one of the synchronous mode, in every run
whose attribute changes concern only the attributes of a write. -/
theorem async_refines_sync (fk : Bool) (t : Tables) (ms : List (Move Event))
    (h : Throughout (syncStep fk) OnlyWritten (eventsIn ms) (.idle t))
    (hq : (asyncRun fk ms t).queue = []) :
    (asyncRun fk ms t).state = syncRun fk (eventsIn ms) t := by
  have hagree := Throughout.imp (fun c => c.saved = none) (fun e c hc _ => idle_syncStep e hc)
    (fun e c hc ho => task_agrees fk e hc ho) rfl h
  have hrun : (asyncRun fk ms t).drained (workStep fk) = syncRun fk (eventsIn ms) t :=
    drained_run (syncStep fk) putTask (workStep fk) rfl hagree
  rw [Deferred.drained, hq] at hrun
  exact hrun

/-- A file is created and then written; the worker runs once in between and once after. -/
theorem async_create_writev : (asyncRun true [.event ⟨0, .create (.top 'a') ⟨7, fun _ => 0⟩⟩, .work,
        .event ⟨0, .writev ⟨7, fun a => if a = .size then 5 else 0⟩⟩, .work] Tables.empty).state =
      syncRun true [⟨0, .create (.top 'a') ⟨7, fun _ => 0⟩⟩,
        ⟨0, .writev ⟨7, fun a => if a = .size then 5 else 0⟩⟩] Tables.empty := by
  refine async_refines_sync true Tables.empty _ ⟨?_, ?_, trivial⟩ rfl
  · intro postop hp
    cases hp
  · intro postop hp _ _ gid hg
    cases hp
    have hone : gid = 1 := Option.some.inj (hg.symm.trans (by decide))
    subst hone
    decide

/-- A file is created and its mode is changed afterwards: the worker stores the new mode, the
synchronous callback does not. -/
theorem async_chmod_differs :
    let create : Event := ⟨0, .create (.top 'a') ⟨7, fun _ => 0⟩⟩
    let chmod : Event := ⟨0, .setattr ⟨7, fun a => if a = .mode then 420 else 0⟩⟩
    (asyncRun true [.event create, .event chmod, .work, .work] Tables.empty).queue = [] ∧
      (asyncRun true [.event create, .event chmod, .work, .work] Tables.empty).state ≠
        syncRun true [create, chmod] Tables.empty := by
  refine ⟨rfl, ?_⟩
  decide

end TagItGluster.Server
