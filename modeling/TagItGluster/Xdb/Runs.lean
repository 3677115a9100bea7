import TagItGluster.Xdb.Operations

/-!
# Runs of the index operations

What the programs of `Operations` return and leave behind when they run alone: statement by
statement, with any statements failing, and as a whole when none fails.
-/

namespace TagItGluster.Xdb

open Base List

section

variable {fk : Bool} {t t' : Tables} {s : Option Tables} {fs : List Bool}

lemma run_stepDone {q : Sql} (hf : fs.headD false = false) (hq : q.apply fk t = some (none, t')) :
    (stepDone q).run (execNext (Sql.apply fk)) (⟨t, s⟩, fs) = (0, ⟨t', s⟩, fs.tail) := by
  simp only [stepDone, Prog.send_bind, Prog.run_ask, execNext, hf, exec_false, execOk, hq]
  rfl

lemma run_stepDone_fail {q : Sql} (h : fs.headD false ∨ q.apply fk t = none) :
    (stepDone q).run (execNext (Sql.apply fk)) (⟨t, s⟩, fs) = (-1, ⟨t, s⟩, fs.tail) := by
  simp only [stepDone, Prog.send_bind, Prog.run_ask, execNext]
  cases hf : fs.headD false with
  | true => rfl
  | false =>
    rw [hf] at h
    simp only [exec_false, execOk, h.resolve_left (by simp)]
    rfl

variable {g : Option Gfid}

lemma run_getGid {gid : Int} (hf : fs.headD false = false) (hg : t.selectGid g = some gid) :
    (getGid g).run (execNext (Sql.apply fk)) (⟨t, s⟩, fs) =
      (some (columnInt gid), ⟨t, s⟩, fs.tail) := by
  simp only [getGid, Prog.send_bind, Prog.run_ask, execNext, hf, exec_false, execOk, Sql.apply, hg]
  rfl

lemma run_getGid_fail (h : fs.headD false ∨ t.selectGid g = none) :
    (getGid g).run (execNext (Sql.apply fk)) (⟨t, s⟩, fs) = (none, ⟨t, s⟩, fs.tail) := by
  simp only [getGid, Prog.send_bind, Prog.run_ask, execNext]
  cases hf : fs.headD false with
  | true => rfl
  | false =>
    rw [hf] at h
    simp only [exec_false, execOk, Sql.apply, h.resolve_left (by simp)]
    rfl

lemma dataOnly_stepDone (q : Sql) : DataOnly (stepDone q) := by
  refine .data _ _ ?_
  intro r
  cases r <;> exact .done _

private lemma dataOnly_getGid (g : Option Gfid) : DataOnly (getGid g) := by
  refine .data _ _ ?_
  intro r
  cases r <;> exact .done _

end

-- `BEGIN` on an idle connection: a transaction is open afterwards exactly if it took effect.
lemma run_txBegin (fk : Bool) (t : Tables) (fs : List Bool) :
    imsXdbTxBegin.run (execNext (Sql.apply fk)) (.idle t, fs) =
      ((), ⟨t, if fs.headD false then none else some t⟩, fs.tail) := by
  simp only [imsXdbTxBegin, Prog.send_bind, Prog.run_ask, execNext]
  cases fs.headD false <;> rfl

lemma run_txOut (fk : Bool) (ret : Int) (c : Conn Tables) (fs : List Bool) :
    (txOut ret).run (execNext (Sql.apply fk)) (c, fs) = (ret, (exec (Sql.apply fk) (fs.headD false)
        (if ret = 0 then .commit else .rollback) c).2, fs.tail) := by
  by_cases hr : ret = 0
  · simp [txOut, hr, imsXdbTxCommit, execNext]
  · simp [txOut, hr, imsXdbTxRollback, execNext]

/-- What a function of the form `BEGIN; body; out:` returns and leaves behind. When `BEGIN`
fails, each statement of the body is final at once. -/
lemma runAlone_tx {body : Op Int} (hb : DataOnly body) (fk : Bool) (t : Tables)
    (faults : List Bool) {ret : Int} {d : Tables} {s : Option Tables} {fs : List Bool}
    (hr : body.run (execNext (Sql.apply fk)) (.idle t, faults.tail) = (ret, ⟨d, s⟩, fs)) :
    let r := runAlone (Sql.apply fk) (imsXdbTxBegin >>= fun _ => body >>= txOut) (.idle t) faults
    r.1 = ret ∧ r.2.committed =
      if faults.headD false then d else if ret = 0 ∧ fs.headD false = false then d else t := by
  intro r
  have hr' : r = (ret, (exec (Sql.apply fk) (fs.headD false)
      (if ret = 0 then .commit else .rollback)
      ⟨d, if faults.headD false then none else some t⟩).2) := by
    simp [r, runAlone, run_txBegin, Prog.run_bind, run_dataOnly (Sql.apply fk) hb t, hr, run_txOut]
  rw [hr']
  refine ⟨rfl, ?_⟩
  cases faults.headD false <;> cases fs.headD false <;> by_cases h0 : ret = 0 <;> simp [h0, execOk]

section

/-- The gid that the next gfid row gets. -/
def newGid (t : Tables) : Int := newRowid (t.xgfid.map XGfid.gid)

/-- A gfid that is given and not in the index yet. -/
def GfidFree (t : Tables) (gfid : Option Gfid) : Prop :=
  ∃ g, gfid = some g ∧ g ∉ t.xgfid.map XGfid.gfid

/-- The tables with the gfid row and the file row of a new file. -/
def withEntry (t : Tables) (g : Gfid) (path : Path) : Tables :=
  { t with
    xgfid := t.xgfid ++ [⟨newGid t, g⟩]
    xfile := t.xfile ++ [t.fileRow (newGid t) path] }

/-- The tables with a new file. Its attribute rows carry the gid that was read back as a
32-bit integer. -/
def withNewFile (t : Tables) (g : Gfid) (path : Path) (sb : Stat) : Tables :=
  { withEntry t g path with xdata := t.xdata ++ t.statRows (columnInt (newGid t)) sb }

/-- No statement after the gfid insert fails, by a constraint or by a fault. -/
def RestFits (fk : Bool) (t : Tables) (g : Gfid) (path : Path) (fs : List Bool) : Prop :=
  path ∉ t.xfile.map XFile.path ∧ faultAt fs 0 = false ∧ faultAt fs 1 = false ∧
    Tables.StatFits fk (withEntry t g path) (columnInt (newGid t)) ∧ faultAt fs 2 = false

lemma dataOnly_insertNewFileBody (gfid : Option Gfid) (path : Path) (sb : Stat) :
    DataOnly (insertNewFileBody gfid path sb) := by
  refine (dataOnly_stepDone _).bind ?_
  intro ret
  split
  · exact .done _
  refine (dataOnly_stepDone _).bind ?_
  intro ret
  split
  · exact .done _
  · refine (dataOnly_getGid gfid).bind ?_
    intro o
    cases o with
    | none => exact .done _
    | some gid => exact dataOnly_stepDone _

variable {fk : Bool} {t : Tables} {gfid : Option Gfid} {path : Path} {fs : List Bool}

-- The gfid row is not inserted: nothing has happened.
lemma run_newFile_noGfid (sb : Stat) (h : ¬GfidFree t gfid ∨ faultAt fs 0) :
    (insertNewFileBody gfid path sb).run (execNext (Sql.apply fk)) (.idle t, fs) =
      (-1, .idle t, fs.tail) := by
  have hq : fs.headD false ∨ (Sql.insertGfid gfid).apply fk t = none := by
    rcases h with h | h
    · right
      simp [Sql.apply, Tables.insertGfid_eq_none t gfid h]
    · exact .inl h
  simp only [insertNewFileBody, Prog.run_bind, imsXdbInsertGfid, Conn.idle, run_stepDone_fail hq]
  rfl

variable {g : Gfid}

private lemma apply_insertGfid (fk : Bool) (hg : g ∉ t.xgfid.map XGfid.gfid) :
    (Sql.insertGfid (some g)).apply fk t =
      some (none, { t with xgfid := t.xgfid ++ [⟨newGid t, g⟩] }) := by
  simp only [Sql.apply, Tables.insertGfid, if_neg hg]
  rfl

private lemma apply_insertFile (fk : Bool) (path : Path) (hg : g ∉ t.xgfid.map XGfid.gfid) :
    (Sql.insertFile (some g) path).apply fk { t with xgfid := t.xgfid ++ [⟨newGid t, g⟩] } =
      if path ∈ t.xfile.map XFile.path then none else some (none, withEntry t g path) := by
  simp only [Sql.apply, Tables.insertFile, Tables.selectGid_snoc hg]
  split <;> rfl

private lemma selectGid_withEntry (hg : g ∉ t.xgfid.map XGfid.gfid) :
    (withEntry t g path).selectGid (some g) = some (newGid t) :=
  Tables.selectGid_snoc hg _

-- The gfid row is inserted and everything after it too.
lemma run_newFile_done (sb : Stat) (hg : g ∉ t.xgfid.map XGfid.gfid) (h0 : faultAt fs 0 = false)
    (h : RestFits fk t g path fs.tail) :
    (insertNewFileBody (some g) path sb).run (execNext (Sql.apply fk)) (.idle t, fs) =
      (0, .idle (withNewFile t g path sb), fs.tail.tail.tail.tail) := by
  obtain ⟨hp, h1, h2, hst, h3⟩ := h
  have hfile := apply_insertFile fk path hg
  rw [if_neg hp] at hfile
  have hstat : (Sql.insertStat (columnInt (newGid t)) sb).apply fk (withEntry t g path) =
      some (none, withNewFile t g path sb) := by
    simp only [Sql.apply, Tables.insertStat_eq_some hst]
    rfl
  simp [insertNewFileBody, Prog.run_bind, imsXdbInsertGfid, Conn.idle,
    run_stepDone h0 (apply_insertGfid fk hg), imsXdbInsertFile, run_stepDone h1 hfile,
      imsXdbInsertStat,
    run_getGid h2 (selectGid_withEntry hg), run_stepDone h3 hstat]

-- The gfid row is inserted and a later statement fails.
lemma run_newFile_broken (sb : Stat) (hg : g ∉ t.xgfid.map XGfid.gfid) (h0 : faultAt fs 0 = false)
    (h : ¬RestFits fk t g path fs.tail) :
    ∃ t' fs', (insertNewFileBody (some g) path sb).run (execNext (Sql.apply fk)) (.idle t, fs) =
      (-1, .idle t', fs') ∧ t' ≠ t := by
  have hne {t' : Tables} (h : t'.xgfid = t.xgfid ++ [⟨newGid t, g⟩]) : t' ≠ t := by
    rintro rfl
    simpa using congrArg List.length h
  simp only [insertNewFileBody, Prog.run_bind, imsXdbInsertGfid, Conn.idle,
    run_stepDone h0 (apply_insertGfid fk hg), ne_eq, not_true_eq_false, if_false, imsXdbInsertFile]
  by_cases hfile : path ∉ t.xfile.map XFile.path ∧ faultAt fs.tail 0 = false
  · have happ := apply_insertFile fk path hg
    rw [if_neg hfile.1] at happ
    simp only [run_stepDone hfile.2 happ, not_true_eq_false, if_false, imsXdbInsertStat,
      Prog.run_bind]
    by_cases h2 : faultAt fs.tail 1 = false
    · have hstat : faultAt fs.tail 2 = true ∨
          (Sql.insertStat (columnInt (newGid t)) sb).apply fk (withEntry t g path) = none := by
        by_cases hst : Tables.StatFits fk (withEntry t g path) (columnInt (newGid t))
        · left
          by_contra h3
          exact h ⟨hfile.1, hfile.2, h2, hst, by simpa using h3⟩
        · right
          simp [Sql.apply, Tables.insertStat_eq_none hst]
      simp only [run_getGid h2 (selectGid_withEntry hg), run_stepDone_fail hstat]
      exact ⟨_, _, rfl, hne rfl⟩
    · simp only [run_getGid_fail (.inl (Bool.eq_true_of_not_eq_false h2))]
      exact ⟨_, _, rfl, hne rfl⟩
  · have hq : faultAt fs.tail 0 = true ∨ (Sql.insertFile (some g) path).apply fk
        { t with xgfid := t.xgfid ++ [⟨newGid t, g⟩] } = none := by
      by_cases hp : path ∈ t.xfile.map XFile.path
      · right
        rw [apply_insertFile fk path hg, if_pos hp]
      · left
        by_contra h1
        exact hfile ⟨hp, by simpa using h1⟩
    simp only [run_stepDone_fail hq]
    exact ⟨_, _, rfl, hne rfl⟩

end

section

/-- Setting several attributes of one file. -/
def Tables.updateStats (t : Tables) (gid : Int) (sb : Stat) (attrs : List StatAttr) : Tables :=
  attrs.foldl (fun t a => t.updateStat (sb a) gid a) t

/-- Every stored value of the attribute is the one in `sb` already. -/
def Settled (t : Tables) (gid : Int) (sb : Stat) (a : StatAttr) : Prop :=
  ∀ r ∈ t.xdata, r.gid = gid → r.nid = a.nid → r.ival = some (sb a)

instance (t : Tables) (gid : Int) (sb : Stat) (a : StatAttr) : Decidable (Settled t gid sb a) :=
  inferInstanceAs (Decidable (∀ r ∈ t.xdata, r.gid = gid → r.nid = a.nid → r.ival = some (sb a)))

/-- The attributes whose statements come before the first one that fails. -/
def beforeFault : List StatAttr → List Bool → List StatAttr
  | [], _ => []
  | a :: as, fs => if fs.headD false then [] else a :: beforeFault as fs.tail

variable {gid : Int} {sb : Stat} {t : Tables} {attrs : List StatAttr}

private lemma updateStat_eq_self {a : StatAttr} :
    t.updateStat (sb a) gid a = t ↔ Settled t gid sb a := by
  rcases t with ⟨xgfid, xfile, xname, xdata⟩
  simp only [Tables.updateStat, Tables.mk.injEq, true_and]
  rw [← map_id xdata, map_map, map_inj_left, map_id]
  constructor
  · intro h r hr hg hn
    have he := h r hr
    simp only [Function.comp_apply, id_eq, hg, hn, and_self, if_true] at he
    rw [← he]
  · intro h r hr
    simp only [Function.comp_apply, id_eq]
    split
    · next hc => rw [← h r hr hc.1 hc.2]
    · rfl

-- Setting one attribute does not disturb whether another one is settled.
private lemma settled_updateStat {a b : StatAttr} :
    Settled (t.updateStat (sb a) gid a) gid sb b ↔ a = b ∨ Settled t gid sb b := by
  unfold Settled Tables.updateStat
  simp only [forall_mem_map]
  constructor
  · intro h
    by_cases hab : a = b
    · exact .inl hab
    right
    intro r hr hg hn
    have hna : ¬(r.gid = gid ∧ r.nid = a.nid) := by
      rintro ⟨_, ha⟩
      exact hab (StatAttr.nid_inj (ha.symm.trans hn))
    have hx := h r hr
    rw [if_neg hna] at hx
    exact hx hg hn
  · intro h r hr
    split
    · next hc =>
      intro _ hn
      rw [StatAttr.nid_inj (hc.2.symm.trans hn)]
    · next hc =>
      intro hg hn
      rcases h with rfl | h
      · exact absurd ⟨hg, hn⟩ hc
      · exact h r hr hg hn

lemma settled_updateStats {b : StatAttr} :
    Settled (t.updateStats gid sb attrs) gid sb b ↔ b ∈ attrs ∨ Settled t gid sb b := by
  induction attrs generalizing t with
  | nil => simp [Tables.updateStats]
  | cons a as ih =>
    have hcons : t.updateStats gid sb (a :: as) =
        (t.updateStat (sb a) gid a).updateStats gid sb as := rfl
    rw [hcons, ih, settled_updateStat, mem_cons, eq_comm]
    constructor
    · rintro (h | h | h)
      · exact .inl (.inr h)
      · exact .inl (.inl h)
      · exact .inr h
    · rintro ((h | h) | h)
      · exact .inr (.inl h)
      · exact .inl h
      · exact .inr (.inr h)

/-- Setting attributes changes nothing exactly if all of them are settled. -/
lemma updateStats_eq_self : t.updateStats gid sb attrs = t ↔ ∀ a ∈ attrs, Settled t gid sb a := by
  constructor
  · intro h a ha
    have hs : Settled (t.updateStats gid sb attrs) gid sb a := settled_updateStats.mpr (.inl ha)
    rw [h] at hs
    exact hs
  intro h
  induction attrs with
  | nil => rfl
  | cons a as ih =>
    have ha := updateStat_eq_self.mpr (h a mem_cons_self)
    rw [Tables.updateStats, foldl_cons, ha]
    exact ih (fun b hb => h b (mem_cons_of_mem a hb))

-- Induction on the plan: the run stops at the first failing update.
lemma run_updateXdata (fk : Bool) (gid : Int) (sb : Stat) (plan : List StatAttr)
    (t : Tables) (s : Option Tables) (fs : List Bool) :
    let r := (updateXdata gid sb plan).run (execNext (Sql.apply fk)) (⟨t, s⟩, fs)
    (beforeFault plan fs = plan ∧ r.1 = 0) ∨ (beforeFault plan fs ≠ plan ∧ r.1 = -1 ∧
        r.2.1.committed = s.getD (t.updateStats gid sb (beforeFault plan fs))) := by
  induction plan generalizing t fs with
  | nil => exact .inl ⟨rfl, rfl⟩
  | cons a as ih =>
    simp only [updateXdata, Prog.send_bind, Prog.run_ask, execNext, beforeFault]
    cases fs.headD false with
    | true =>
      right
      refine ⟨by simp, rfl, ?_⟩
      simp only [exec_true, imsXdbTxRollback, Prog.send_bind, Prog.bind_ask, Prog.run_ask, execNext]
      cases fs.tail.headD false <;> cases s <;> rfl
    | false =>
      have hx := ih (t.updateStat (sb a) gid a) fs.tail
      simp only [Bool.false_eq_true, if_false, List.cons.injEq, true_and, ne_eq]
      exact hx

private lemma run_updateXdata_ok (fk : Bool) (gid : Int) (sb : Stat) (plan : List StatAttr)
    (t b : Tables) :
    (updateXdata gid sb plan).run (execNext (Sql.apply fk)) (⟨t, some b⟩, []) =
      (0, .idle (t.updateStats gid sb plan), []) := by
  induction plan generalizing t with
  | nil => rfl
  | cons a as ih => exact ih (t.updateStat (sb a) gid a)

/-- Without faults, `ims_xdb_update_stat` sets the planned attributes of an indexed file. -/
lemma runAlone_updateStat (fk : Bool) (t : Tables) (g : Gfid) (sb : Stat) (statOp : Int) :
    runAlone (Sql.apply fk) (imsXdbUpdateStat (some g) sb statOp) (.idle t) [] =
      match t.selectGid (some g) with
      | some gid =>
        (0, .idle (t.updateStats (columnInt gid) sb (updatePlan (normStatOp statOp))))
      | none => (-1, .idle t) := by
  simp only [runAlone, imsXdbUpdateStat, reduceCtorEq, if_false, Prog.run_bind, Conn.idle]
  cases hg : t.selectGid (some g) with
  | none =>
    rw [run_getGid_fail (.inr hg)]
    rfl
  | some gid =>
    rw [run_getGid rfl hg]
    have hx := run_updateXdata_ok fk (columnInt gid) sb (updatePlan (normStatOp statOp)) t t
    have hret := congrArg Prod.fst hx
    have hconn := congrArg (fun r => r.2.1) hx
    exact Prod.ext hret hconn

end

section

variable {fk : Bool} {t t' : Tables} {g : Gfid} {path : Path}

/-- Without faults, a single statement either takes effect or fails on a constraint. -/
lemma runAlone_stepDone {q : Sql} (hq : q.apply fk t = some (none, t')) :
    runAlone (Sql.apply fk) (stepDone q) (.idle t) [] = (0, .idle t') := by
  unfold runAlone Conn.idle
  rw [run_stepDone rfl hq]

/-- A file whose gfid is in the index already is not inserted. -/
lemma runAlone_newFile_known (sb : Stat) (hg : g ∈ t.xgfid.map XGfid.gfid) :
    runAlone (Sql.apply fk) (imsXdbInsertNewFile (some g) path sb) (.idle t) [] =
      (-1, .idle t) := by
  have hfree : ¬GfidFree t (some g) := by
    rintro ⟨x, hx, hn⟩
    cases hx
    exact hn hg
  have hrun := @run_newFile_noGfid fk t (some g) path [] sb (.inl hfree)
  simp only [runAlone, imsXdbInsertNewFile, Prog.run_bind, run_txBegin,
    run_dataOnly (Sql.apply fk) (dataOnly_insertNewFileBody (some g) path sb) t, tail_nil,
    hrun]
  rfl

end

/-- What the index knows about itself beyond its constraints, while no attribute names are
added: gids are positive, attribute rows belong to a gfid row, the attribute names are the
ones of the schema. -/
structure Sound (t : Tables) : Prop where
  wf : t.WF
  pos : ∀ r ∈ t.xgfid, 1 ≤ r.gid
  data : ∀ r ∈ t.xdata, r.gid ∈ t.xgfid.map XGfid.gid
  names : t.xname = Tables.empty.xname

lemma sound_empty : Sound Tables.empty := by
  refine ⟨Tables.wf_empty, ?_, ?_, rfl⟩
  · intro r hr
    cases hr
  · intro r hr
    cases hr

/-- A new inode is indexed as it should be: its gfid is not in the index, not even from a
name removed earlier, and its row's gid fits into an `int`. -/
def FreshInode (t : Tables) (gfid : Gfid) : Prop :=
  gfid ∉ t.xgfid.map XGfid.gfid ∧ newGid t < 2 ^ 31

variable {fk : Bool} {t : Tables} {g : Gfid} {p : Path}

private lemma Sound.newGid_pos (hs : Sound t) : 1 ≤ newGid t := by
  unfold newGid newRowid
  cases hm : (t.xgfid.map XGfid.gid).max? with
  | none => simp
  | some m =>
    obtain ⟨r, hr, rfl⟩ := mem_map.mp (max?_eq_some_iff.mp hm).1
    have := hs.pos r hr
    simp only
    omega

private lemma Sound.statFits (hs : Sound t) (fk : Bool) (p : Path) (hf : FreshInode t g) :
    columnInt (newGid t) = newGid t ∧
      Tables.StatFits fk (withEntry t g p) (columnInt (newGid t)) := by
  have hpos := hs.newGid_pos
  have hcol : columnInt (newGid t) = newGid t := by
    have hlt := hf.2
    unfold columnInt Int.bmod
    dsimp only
    split <;> omega
  refine ⟨hcol, ?_, ?_⟩
  · rintro r hr a ⟨hg, _⟩
    rw [hcol] at hg
    exact newRowid_not_mem _ (hg ▸ hs.data r hr)
  intro _
  refine ⟨?_, ?_⟩
  · rw [hcol]
    exact mem_map.mpr ⟨⟨newGid t, g⟩, mem_append_right _ mem_cons_self, rfl⟩
  · intro a
    change a.nid ∈ t.xname.map XName.nid
    rw [hs.names]
    cases a <;> decide

/-- A new inode at a free path is inserted, and the index stays sound. -/
lemma Sound.newFile (hs : Sound t) (sb : Stat) (hp : p ∉ t.xfile.map XFile.path)
    (hf : FreshInode t g) :
    runAlone (Sql.apply fk) (imsXdbInsertNewFile (some g) p sb) (.idle t) [] =
      (0, .idle (withNewFile t g p sb)) ∧ Sound (withNewFile t g p sb) := by
  obtain ⟨hcol, hfits⟩ := hs.statFits fk p hf
  have hrun := @run_newFile_done fk t p [] g sb hf.1 rfl ⟨hp, rfl, rfl, hfits, rfl⟩
  have hfile := apply_insertFile fk p hf.1
  rw [if_neg hp] at hfile
  refine ⟨?_, ?_, ?_, ?_, hs.names⟩
  · simp only [runAlone, imsXdbInsertNewFile, Prog.run_bind, run_txBegin,
      run_dataOnly (Sql.apply fk) (dataOnly_insertNewFileBody (some g) p sb) t, tail_nil, hrun]
    rfl
  · have hwf := Sql.apply_wf (Sql.apply_wf hs.wf (apply_insertGfid fk hf.1)) hfile
    exact Tables.wf_insertStat hwf (Tables.insertStat_eq_some hfits sb)
  · intro r hr
    rcases mem_append.mp hr with hr | hr
    · exact hs.pos r hr
    · rw [mem_singleton.mp hr]
      exact hs.newGid_pos
  · intro r hr
    simp only [withNewFile, withEntry, map_append, mem_append]
    rcases mem_append.mp hr with hr | hr
    · exact .inl (hs.data r hr)
    · right
      obtain ⟨a, _, rfl⟩ := mem_map.mp hr
      simp [hcol]

end TagItGluster.Xdb
