import TagItGluster.Xdb.Schema

/-!
# SQL statements of the index

The statements of the table `xdb_sqls` in `imess-server-xdb.c`, with their bound values,
and their effect on the tables as ordinary relational inserts, updates and deletes. A
statement that violates a declared constraint fails as a whole. SQLite checks references
only on request, so `fk` tells whether foreign keys are enforced.
-/

namespace TagItGluster.Xdb

open Base List

/-- A prepared statement with its parameters; `none` is a bound SQL `NULL`. -/
inductive Sql where
  | getGid (gfid : Option Gfid)
  | insertGfid (gfid : Option Gfid)
  | insertFile (gfid : Option Gfid) (path : Path)
  | insertStat (gid : Int) (sb : Stat)
  | updateStat (ival gid : Int) (attr : StatAttr)
  | linkFile (gfid : Gfid) (path : Path)
  | unlinkFile (path : Path)
  | rename (newPath oldPath : Path)
  | insertXname (name : Text)
  | insertXdata (gfid : Gfid) (name : Text) (ival : Option Int) (rval : Option Dbl)
      (sval : Option Text)

/-- The statements that only query. -/
def Sql.isRead : Sql → Bool
  | .getGid _ => true
  | _ => false

namespace Tables

/-- `select gid from xdb_xgfid where gfid=?`; no row equals `NULL`. -/
def selectGid (t : Tables) (gfid : Option Gfid) : Option Int :=
  gfid.bind (fun g => (t.xgfid.find? (fun r => r.gfid == g)).map XGfid.gid)

/-- `select nid from xdb_xname where name=?`. -/
def selectNid (t : Tables) (name : Text) : Option Int :=
  (t.xname.find? (fun r => r.name == name)).map XName.nid

/-- `insert into xdb_xgfid (gfid) values (?)`. -/
def insertGfid (t : Tables) : Option Gfid → Option Tables
  | none => none
  | some g =>
    if g ∈ t.xgfid.map XGfid.gfid then none
    else some { t with xgfid := t.xgfid ++ [⟨newRowid (t.xgfid.map XGfid.gid), g⟩] }

/-- The file row that an insert of `path` under the gfid row `gid` creates. -/
def fileRow (t : Tables) (gid : Int) (path : Path) : XFile :=
  ⟨newRowid (t.xfile.map XFile.fid), gid, path, nameOf path⟩

/-- `insert into xdb_xfile (gid, path, name) values ((select gid ..), ?, substr (?,?))`. -/
def insertFile (t : Tables) (gfid : Option Gfid) (path : Path) : Option Tables :=
  match t.selectGid gfid with
  | some gid =>
    if path ∈ t.xfile.map XFile.path then none
    else some { t with xfile := t.xfile ++ [t.fileRow gid path] }
  | none => none

/-- The attribute rows of one `INSERT_STAT`; `union` delivers them by ascending name id. -/
def statRows (t : Tables) (gid : Int) (sb : Stat) : List XData :=
  StatAttr.all.map (fun a =>
    ⟨newRowid (t.xdata.map XData.xid) + (a.nid - 1), gid, a.nid, some (sb a), none, none⟩)

/-- Every referenced gid and nid of the attribute rows exists. -/
def statRefs (t : Tables) (gid : Int) : Bool :=
  decide (gid ∈ t.xgfid.map XGfid.gid) &&
    StatAttr.all.all (fun a => decide (a.nid ∈ t.xname.map XName.nid))

/-- The thirteen-row insert `INSERT_STAT`. -/
def insertStat (fk : Bool) (t : Tables) (gid : Int) (sb : Stat) : Option Tables :=
  if (t.xdata.any (fun r => decide (r.gid = gid ∧ ∃ a ∈ StatAttr.all, r.nid = a.nid))) then none
  else if fk && !t.statRefs gid then none
  else some { t with xdata := t.xdata ++ t.statRows gid sb }

/-- `update xdb_xdata set ival=? where gid=? and nid=?`. -/
def updateStat (t : Tables) (ival gid : Int) (attr : StatAttr) : Tables :=
  { t with xdata := t.xdata.map (fun r =>
      if r.gid = gid ∧ r.nid = attr.nid then { r with ival := some ival } else r) }

/-- `delete from xdb_xfile where path=?`. -/
def unlinkFile (t : Tables) (path : Path) : Tables :=
  { t with xfile := t.xfile.filter (fun r => r.path != path) }

/-- `update xdb_xfile set path=?,name=substr (?,?) where path=?`. -/
def rename (t : Tables) (newPath oldPath : Path) : Option Tables :=
  if newPath ≠ oldPath ∧ oldPath ∈ t.xfile.map XFile.path ∧ newPath ∈ t.xfile.map XFile.path then
    none
  else some { t with xfile := t.xfile.map (fun r =>
      if r.path = oldPath then { r with path := newPath, name := nameOf newPath } else r) }

/-- `insert or ignore into xdb_xname (name) values (?)`. -/
def insertXname (t : Tables) (name : Text) : Tables :=
  if name ∈ t.xname.map XName.name then t
  else { t with xname := t.xname ++ [⟨newRowid (t.xname.map XName.nid), name⟩] }

/-- `insert or replace into xdb_xdata (gid, nid, ival, rval, sval) values (..)`: the row of
the same file and name goes, the new row gets a rowid above all old ones. -/
def insertXdata (t : Tables) (gfid : Gfid) (name : Text) (ival : Option Int)
    (rval : Option Dbl) (sval : Option Text) : Option Tables :=
  match t.selectGid (some gfid), t.selectNid name with
  | some gid, some nid => some { t with
      xdata := t.xdata.filter (fun r => !decide (r.gid = gid ∧ r.nid = nid)) ++
        [⟨newRowid (t.xdata.map XData.xid), gid, nid, ival, rval, sval⟩] }
  | _, _ => none

end Tables

/-- The effect of a statement: its result row, if any, and the new tables; `none` when a
constraint is violated. -/
def Sql.apply (fk : Bool) : Sql → Tables → Option (Option Int × Tables)
  | .getGid g, t => some (t.selectGid g, t)
  | .insertGfid g, t => (t.insertGfid g).map (none, ·)
  | .insertFile g p, t => (t.insertFile g p).map (none, ·)
  | .insertStat gid sb, t => (t.insertStat fk gid sb).map (none, ·)
  | .updateStat v gid a, t => some (none, t.updateStat v gid a)
  | .linkFile g p, t => (t.insertFile (some g) p).map (none, ·)
  | .unlinkFile p, t => some (none, t.unlinkFile p)
  | .rename new old, t => (t.rename new old).map (none, ·)
  | .insertXname n, t => some (none, t.insertXname n)
  | .insertXdata g n i r s, t => (t.insertXdata g n i r s).map (none, ·)

/-- A query leaves the tables alone. -/
lemma Sql.apply_read (fk : Bool) (q : Sql) (hq : q.isRead) (t : Tables)
    (v : Option Int) (t' : Tables) (h : q.apply fk t = some (v, t')) : t' = t := by
  cases q <;> simp [Sql.isRead] at hq
  simp only [Sql.apply, Option.some.injEq, Prod.mk.injEq] at h
  exact h.2.symm

namespace Tables

variable {t t' : Tables} {g : Option Gfid} {gid : Int} {fk : Bool} {α : Type}

lemma mem_of_selectGid (h : t.selectGid g = some gid) : ∃ x, g = some x ∧ ⟨gid, x⟩ ∈ t.xgfid := by
  cases g with
  | none => simp [selectGid] at h
  | some x =>
    simp only [selectGid, Option.bind_some, Option.map_eq_some_iff] at h
    obtain ⟨r, hr, rfl⟩ := h
    have hp := find?_some hr
    have hm := mem_of_find?_eq_some hr
    refine ⟨x, rfl, ?_⟩
    have hx : r.gfid = x := by simpa using hp
    rw [← hx]
    exact hm

lemma selectGid_of_mem (hw : (t.xgfid.map XGfid.gfid).Nodup) {x : Gfid} (h : ⟨gid, x⟩ ∈ t.xgfid) :
    t.selectGid (some x) = some gid := by
  cases hs : t.selectGid (some x) with
  | none =>
    simp only [selectGid, Option.bind_some, Option.map_eq_none_iff, find?_eq_none] at hs
    exact absurd (hs _ h) (by simp)
  | some gid' =>
    obtain ⟨y, hy, hm⟩ := mem_of_selectGid hs
    cases hy
    have he := inj_on_of_nodup_map hw hm h rfl
    rw [XGfid.mk.injEq] at he
    rw [he.1]

/-- A gfid row is inserted exactly for a gfid that is given and not in the table. -/
lemma insertGfid_eq_none (t : Tables) (gfid : Option Gfid)
    (h : ¬∃ g, gfid = some g ∧ g ∉ t.xgfid.map XGfid.gfid) : t.insertGfid gfid = none := by
  cases gfid with
  | none => rfl
  | some g =>
    have hg : g ∈ t.xgfid.map XGfid.gfid := by
      by_contra hn
      exact h ⟨g, rfl, hn⟩
    simp only [insertGfid, if_pos hg]

lemma selectGid_snoc {g : Gfid} (hg : g ∉ t.xgfid.map XGfid.gfid) (gid : Int) :
    ({ t with xgfid := t.xgfid ++ [⟨gid, g⟩] } : Tables).selectGid (some g) = some gid := by
  have hn : t.xgfid.find? (fun r => r.gfid == g) = none := by
    rw [find?_eq_none]
    intro r hr he
    exact hg (mem_map.mpr ⟨r, hr, by simpa using he⟩)
  simp [selectGid, hn]

/-- A rename to the same or to a free path takes effect. -/
lemma exists_rename {new old : Path} (h : new = old ∨ new ∉ t.xfile.map XFile.path) :
    ∃ t', t.rename new old = some t' := by
  unfold rename
  rw [if_neg]
  · exact ⟨_, rfl⟩
  · rintro ⟨hne, _, hn⟩
    rcases h with h | h
    · exact hne h
    · exact h hn

/-- No attribute row of `gid` is there yet, and what the new ones refer to is. -/
def StatFits (fk : Bool) (t : Tables) (gid : Int) : Prop :=
  (∀ r ∈ t.xdata, ∀ a : StatAttr, ¬(r.gid = gid ∧ r.nid = a.nid)) ∧
  (fk = true → gid ∈ t.xgfid.map XGfid.gid ∧ ∀ a : StatAttr, a.nid ∈ t.xname.map XName.nid)

private lemma statRefs_iff (t : Tables) (gid : Int) : t.statRefs gid ↔
    gid ∈ t.xgfid.map XGfid.gid ∧ ∀ a : StatAttr, a.nid ∈ t.xname.map XName.nid := by
  simp only [statRefs, Bool.and_eq_true, decide_eq_true_eq, all_eq_true]
  constructor
  · rintro ⟨hg, ha⟩
    exact ⟨hg, fun a => ha a a.mem_all⟩
  · rintro ⟨hg, ha⟩
    exact ⟨hg, fun a _ => ha a⟩

lemma insertStat_eq_some (h : StatFits fk t gid) (sb : Stat) :
    t.insertStat fk gid sb = some { t with xdata := t.xdata ++ t.statRows gid sb } := by
  unfold insertStat
  rw [if_neg, if_neg]
  · intro hc
    rw [Bool.and_eq_true] at hc
    rw [(statRefs_iff t gid).mpr (h.2 hc.1)] at hc
    exact Bool.noConfusion hc.2
  · intro hc
    obtain ⟨r, hr, hc⟩ := any_eq_true.mp hc
    obtain ⟨hg, a, _, ha⟩ := of_decide_eq_true hc
    exact h.1 r hr a ⟨hg, ha⟩

/-- The insert fails as a whole when one of the attribute rows does not fit. -/
lemma insertStat_eq_none (h : ¬StatFits fk t gid) (sb : Stat) :
    t.insertStat fk gid sb = none := by
  unfold insertStat
  split
  · rfl
  next hany =>
  split
  · rfl
  next hrefs =>
  refine absurd ⟨?_, ?_⟩ h
  · rintro r hr a ⟨hg, ha⟩
    exact hany (any_eq_true.mpr ⟨r, hr, decide_eq_true ⟨hg, a, a.mem_all, ha⟩⟩)
  intro hfk
  apply (statRefs_iff t gid).mp
  by_contra hn
  apply hrefs
  rw [hfk, Bool.eq_false_of_not_eq_true hn]
  rfl

private lemma nodup_snoc {l : List α} {a : α} (hn : l.Nodup) (ha : a ∉ l) : (l ++ [a]).Nodup := by
  rw [← concat_eq_append]
  exact hn.concat ha

-- A list of rows with a fresh rowid at its end keeps its primary key.
private lemma nodup_snoc_rowid (rows : List α) (key : α → Int) (r : α) (hn : (rows.map key).Nodup)
    (hr : key r = newRowid (rows.map key)) : ((rows ++ [r]).map key).Nodup := by
  rw [map_append, map_singleton, hr]
  exact nodup_snoc hn (newRowid_not_mem _)

private lemma nodup_map_filter {β : Type} {rows : List α} {key : α → β} (p : α → Bool)
    (hn : (rows.map key).Nodup) : ((rows.filter p).map key).Nodup :=
  hn.sublist (filter_sublist.map key)

private lemma map_key_map {β : Type} (rows : List α) (f : α → α) (key : α → β)
    (h : ∀ r, key (f r) = key r) : (rows.map f).map key = rows.map key := by
  rw [map_map]
  apply map_congr_left
  intro r _
  exact h r

private lemma wf_insertGfid (hw : WF t) (h : t.insertGfid g = some t') : WF t' := by
  cases g with
  | none => cases h
  | some g =>
    simp only [insertGfid] at h
    split at h
    · cases h
    next hg =>
    cases h
    refine { hw with gid := ?_, gfid := ?_, file := ?_ }
    · exact nodup_snoc_rowid _ _ _ hw.gid rfl
    · rw [map_append]
      exact nodup_snoc hw.gfid hg
    · intro r hr
      rw [map_append]
      exact mem_append_left _ (hw.file r hr)

/-- A new file row keeps the constraints; its gid comes from the gfid table. -/
lemma wf_insertFile {p : Path} (hw : WF t) (h : t.insertFile g p = some t') : WF t' := by
  unfold insertFile at h
  split at h
  · next gid hg =>
    split at h
    · cases h
    next hp =>
    cases h
    refine { hw with fid := ?_, path := ?_, file := ?_ }
    · exact nodup_snoc_rowid _ _ _ hw.fid rfl
    · rw [map_append]
      exact nodup_snoc hw.path hp
    intro r hr
    rcases mem_append.mp hr with hr | hr
    · exact hw.file r hr
    · obtain ⟨x, _, hm⟩ := mem_of_selectGid hg
      rw [mem_singleton.mp hr]
      exact mem_map.mpr ⟨_, hm, rfl⟩
  · cases h

/-- The attribute rows keep the constraints: their rowids are consecutive new ones. -/
lemma wf_insertStat {sb : Stat} (hw : WF t) (h : t.insertStat fk gid sb = some t') : WF t' := by
  unfold insertStat at h
  split at h
  · cases h
  next hany =>
  split at h
  · cases h
  cases h
  have hnid : (StatAttr.all.map StatAttr.nid).Nodup := by decide
  refine { hw with xid := ?_, pair := ?_ }
  · rw [map_append]
    refine nodup_append.mpr ⟨hw.xid, ?_, ?_⟩
    · rw [statRows, map_map]
      have hf : (XData.xid ∘ fun a : StatAttr =>
          (⟨newRowid (t.xdata.map XData.xid) + (a.nid - 1), gid, a.nid, some (sb a), none,
            none⟩ : XData)) =
          (fun n => newRowid (t.xdata.map XData.xid) + (n - 1)) ∘ StatAttr.nid := rfl
      rw [hf, ← map_map]
      refine hnid.map ?_
      intro m n hmn
      simp only at hmn
      omega
    · intro x hx y hy he
      obtain ⟨r, hr, rfl⟩ := mem_map.mp hy
      obtain ⟨a, _, rfl⟩ := mem_map.mp hr
      have hlt := lt_newRowid hx
      have hpos : 1 ≤ a.nid := by cases a <;> decide
      simp only at he
      omega
  · rw [map_append]
    refine nodup_append.mpr ⟨hw.pair, ?_, ?_⟩
    · rw [statRows, map_map]
      have hf : ((fun r : XData => (r.gid, r.nid)) ∘ fun a : StatAttr =>
          (⟨newRowid (t.xdata.map XData.xid) + (a.nid - 1), gid, a.nid, some (sb a), none,
            none⟩ : XData)) = (fun n => (gid, n)) ∘ StatAttr.nid := rfl
      rw [hf, ← map_map]
      exact hnid.map (fun m n hmn => (Prod.mk.inj hmn).2)
    · intro x hx y hy he
      obtain ⟨r, hr, rfl⟩ := mem_map.mp hx
      obtain ⟨r', hr', rfl⟩ := mem_map.mp hy
      obtain ⟨a, ha, rfl⟩ := mem_map.mp hr'
      apply hany
      rw [any_eq_true]
      refine ⟨r, hr, ?_⟩
      simp only [Prod.mk.injEq] at he
      simp only [decide_eq_true_eq]
      exact ⟨he.1, a, ha, he.2⟩

private lemma wf_updateStat (v gid : Int) (a : StatAttr) (hw : WF t) :
    WF (t.updateStat v gid a) := by
  refine { hw with xid := ?_, pair := ?_ }
  · rw [updateStat, map_key_map _ _ _ (by intro r; split <;> rfl)]
    exact hw.xid
  · rw [updateStat, map_key_map _ _ _ (by intro r; split <;> rfl)]
    exact hw.pair

lemma wf_unlinkFile (p : Path) (hw : WF t) : WF (t.unlinkFile p) := by
  refine { hw with fid := ?_, path := ?_, file := ?_ }
  · exact nodup_map_filter _ hw.fid
  · exact nodup_map_filter _ hw.path
  · intro r hr
    exact hw.file r (mem_of_mem_filter hr)

/-- Moving a path keeps the constraints: an occupied target makes the update fail. -/
lemma wf_rename {new old : Path} (hw : WF t) (h : t.rename new old = some t') : WF t' := by
  unfold rename at h
  split at h
  · cases h
  next hc =>
  cases h
  refine { hw with fid := ?_, path := ?_, file := ?_ }
  · rw [map_key_map _ _ XFile.fid (by intro r; split <;> rfl)]
    exact hw.fid
  · have hm : (t.xfile.map (fun r => if r.path = old then
        { r with path := new, name := nameOf new } else r)).map XFile.path =
        (t.xfile.map XFile.path).map (fun p => if p = old then new else p) := by
      rw [map_map, map_map]
      apply map_congr_left
      intro r _
      simp only [Function.comp_apply]
      split <;> rfl
    rw [hm]
    refine hw.path.map_on ?_
    intro x hx y hy hxy
    by_cases hno : new = old
    · split at hxy <;> split at hxy <;> simp_all
    split at hxy
    · next hxo =>
      split at hxy
      · next hyo => rw [hxo, hyo]
      · subst hxo hxy
        exact absurd ⟨hno, hx, hy⟩ hc
    · split at hxy
      · next hyo =>
        subst hyo hxy
        exact absurd ⟨hno, hy, hx⟩ hc
      · exact hxy
  · intro r hr
    obtain ⟨r', hr', rfl⟩ := mem_map.mp hr
    have hg := hw.file r' hr'
    split
    · exact hg
    · exact hg

lemma wf_insertXname (n : Text) (hw : WF t) : WF (t.insertXname n) := by
  unfold insertXname
  split
  · exact hw
  · next hn =>
    refine { hw with nid := ?_, name := ?_ }
    · exact nodup_snoc_rowid _ _ _ hw.nid rfl
    · rw [map_append]
      exact nodup_snoc hw.name hn

/-- Replacing an attribute row keeps the constraints. -/
lemma wf_insertXdata {g : Gfid} {n : Text} {i : Option Int} {v : Option Dbl} {s : Option Text}
    (hw : WF t) (h : t.insertXdata g n i v s = some t') : WF t' := by
  unfold insertXdata at h
  split at h
  · next gid nid hg hn =>
    cases h
    refine { hw with xid := ?_, pair := ?_ }
    · rw [map_append]
      refine nodup_snoc (nodup_map_filter _ hw.xid) ?_
      intro hm
      obtain ⟨r, hr, he⟩ := mem_map.mp hm
      apply newRowid_not_mem (t.xdata.map XData.xid)
      exact mem_map.mpr ⟨r, mem_of_mem_filter hr, he⟩
    · rw [map_append]
      refine nodup_snoc (nodup_map_filter _ hw.pair) ?_
      intro hm
      obtain ⟨r, hr, he⟩ := mem_map.mp hm
      have hp := of_mem_filter hr
      simp only [Prod.mk.injEq] at he
      simp [he.1, he.2] at hp
  · cases h

end Tables

/-- A statement that does not return a row has succeeded. -/
lemma eq_some_of_map {o : Option Tables} {v : Option Int} {t' : Tables}
    (h : o.map (none, ·) = some (v, t')) : o = some t' := by
  obtain ⟨_, ht, he⟩ := Option.map_eq_some_iff.mp h
  cases he
  exact ht

lemma Sql.apply_wf {fk : Bool} {q : Sql} {t t' : Tables} {v : Option Int} (hw : t.WF)
    (h : q.apply fk t = some (v, t')) : t'.WF := by
  cases q with
  | getGid g =>
    cases h
    exact hw
  | insertGfid g => exact Tables.wf_insertGfid hw (eq_some_of_map h)
  | insertFile | linkFile => exact Tables.wf_insertFile hw (eq_some_of_map h)
  | insertStat gid sb => exact Tables.wf_insertStat hw (eq_some_of_map h)
  | updateStat v gid a =>
    cases h
    exact Tables.wf_updateStat v gid a hw
  | unlinkFile p =>
    cases h
    exact Tables.wf_unlinkFile p hw
  | rename new old => exact Tables.wf_rename hw (eq_some_of_map h)
  | insertXname n =>
    cases h
    exact Tables.wf_insertXname n hw
  | insertXdata g n i r s => exact Tables.wf_insertXdata hw (eq_some_of_map h)

end TagItGluster.Xdb
