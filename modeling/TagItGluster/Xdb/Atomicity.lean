import TagItGluster.Xdb.Runs

/-!
# All-or-nothing operations

The operations with a transaction, run alone, with any of their statements failing. The
transaction calls are made without looking at their outcome, so `BEGIN` or `END` failing is
not noticed; the conditions below say exactly when that, or the 32-bit reading of the new
row's gid, shows in the database.
-/

namespace TagItGluster.Xdb

open Base List Option

/-- A call of one of the operations that open a transaction. -/
inductive Call where
  | insertNewFile (gfid : Option Gfid) (path : Path) (sb : Stat)
  | setxattr (xattr : XAttr)
  | updateStat (gfid : Option Gfid) (sb : Stat) (statOp : Int)

/-- The program of a call. -/
def Call.prog : Call → Op Int
  | .insertNewFile gfid path sb => imsXdbInsertNewFile gfid path sb
  | .setxattr xattr => imsXdbSetxattr xattr
  | .updateStat gfid sb statOp => imsXdbUpdateStat gfid sb statOp

section

variable {fk : Bool} {t : Tables} {path : Path}

/-- `t'` is `t` with one gfid row, one file row and the full set of attribute rows added. -/
def AddedFile (t t' : Tables) (gfid : Option Gfid) (path : Path) (sb : Stat) : Prop :=
  ∃ (g : Gfid) (gid fid : Int) (xid : StatAttr → Int), gfid = some g ∧
    t' = { xgfid := t.xgfid ++ [⟨gid, g⟩]
           xfile := t.xfile ++ [⟨fid, gid, path, nameOf path⟩]
           xname := t.xname
           xdata := t.xdata ++
             StatAttr.all.map (fun a => ⟨xid a, gid, a.nid, some (sb a), none, none⟩) }

private lemma not_addedFile_self (t : Tables) (gfid : Option Gfid) (path : Path) (sb : Stat) :
    ¬AddedFile t t gfid path sb := by
  rintro ⟨g, gid, fid, xid, _, h⟩
  simpa using congrArg (fun x => x.xgfid.length) h

private lemma addedFile_withNewFile (t : Tables) (g : Gfid) (path : Path) (sb : Stat) :
    AddedFile t (withNewFile t g path sb) (some g) path sb ↔ columnInt (newGid t) = newGid t := by
  constructor
  · rintro ⟨g', gid, fid, xid, _, h⟩
    have hgid : newGid t = gid := by
      have hx := append_cancel_left (congrArg Tables.xgfid h)
      rw [List.cons.injEq, XGfid.mk.injEq] at hx
      exact hx.1.1
    have hrows := append_cancel_left (congrArg Tables.xdata h)
    simp only [Tables.statRows, StatAttr.all, map_cons, List.cons.injEq, XData.mk.injEq] at hrows
    rw [hrows.1.2.1, hgid]
  · intro h
    refine ⟨g, newGid t, newRowid (t.xfile.map XFile.fid),
      fun a => newRowid (t.xdata.map XData.xid) + (a.nid - 1), rfl, ?_⟩
    simp [withNewFile, withEntry, Tables.statRows, Tables.fileRow, h]

/-- `ims_xdb_insert_new_file` keeps its promise exactly under this condition. If `BEGIN`
fails, nothing may fail after the gfid insert; if it does not, `END` may not fail. In both
cases the new gid must survive being read as a 32-bit integer. -/
def NewFileSafe (fk : Bool) (t : Tables) (gfid : Option Gfid) (path : Path)
    (faults : List Bool) : Prop :=
  ∀ g, gfid = some g → g ∉ t.xgfid.map XGfid.gfid → faultAt faults 1 = false →
    if faultAt faults 0 then
      RestFits fk t g path faults.tail.tail ∧ columnInt (newGid t) = newGid t
    else RestFits fk t g path faults.tail.tail →
      faultAt faults 5 = false ∧ columnInt (newGid t) = newGid t

private lemma newFile_iff (fk : Bool) (t : Tables) (gfid : Option Gfid) (path : Path) (sb : Stat)
    (faults : List Bool) :
    let r := runAlone (Sql.apply fk) (imsXdbInsertNewFile gfid path sb) (.idle t) faults
    ((r.1 ≠ 0 → r.2.committed = t) ∧ (r.1 = 0 → AddedFile t r.2.committed gfid path sb)) ↔
      NewFileSafe fk t gfid path faults := by
  intro r
  have htx := @runAlone_tx _ (dataOnly_insertNewFileBody gfid path sb) fk t faults
  by_cases h0 : ∃ g, (gfid = some g ∧ g ∉ t.xgfid.map XGfid.gfid) ∧ faultAt faults 1 = false
  · obtain ⟨g, ⟨rfl, hg⟩, h1⟩ := h0
    by_cases hrest : RestFits fk t g path faults.tail.tail
    · obtain ⟨hret, hcom⟩ := htx (run_newFile_done sb hg h1 hrest)
      have hsafe : NewFileSafe fk t (some g) path faults ↔
          (faultAt faults 0 = false → faultAt faults 5 = false) ∧
            columnInt (newGid t) = newGid t := by
        unfold NewFileSafe
        cases faultAt faults 0 <;> simp [-List.mem_map, hg, h1, hrest]
      rw [hsafe, show r.1 = 0 from hret, show r.2.committed = _ from hcom]
      simp only [ne_eq, not_true_eq_false, false_implies, true_and, forall_const]
      change AddedFile t (if faultAt faults 0 = true then _ else if faultAt faults 5 = false then _
        else t) _ _ _ ↔ _
      cases faultAt faults 0 <;> cases faultAt faults 5 <;>
        simp [addedFile_withNewFile, not_addedFile_self]
    · obtain ⟨t', fs', hrun, hne⟩ := run_newFile_broken sb hg h1 hrest
      obtain ⟨hret, hcom⟩ := htx hrun
      have hsafe : NewFileSafe fk t (some g) path faults ↔ faultAt faults 0 = false := by
        unfold NewFileSafe
        cases faultAt faults 0 <;> simp [-List.mem_map, hg, h1, hrest]
      rw [hsafe, show r.1 = -1 from hret, show r.2.committed = _ from hcom]
      change (_ → (if faultAt faults 0 = true then _ else _) = t) ∧ _ ↔ _
      cases faultAt faults 0 <;> simp [hne]
  · have hno : ¬GfidFree t gfid ∨ faultAt faults.tail 0 := by
      by_contra hc
      rw [not_or, not_not] at hc
      obtain ⟨⟨g, hg⟩, h1⟩ := hc
      exact h0 ⟨g, hg, Bool.eq_false_of_not_eq_true h1⟩
    obtain ⟨hret, hcom⟩ := htx (run_newFile_noGfid sb hno)
    have hsafe : NewFileSafe fk t gfid path faults := by
      intro g hg hn h1
      exact absurd ⟨g, ⟨hg, hn⟩, h1⟩ h0
    rw [show r.1 = -1 from hret, show r.2.committed = _ from hcom]
    simp [hsafe]

end

section

/-- `ims_xdb_setxattr` is given a gfid, a name and one of the three types. -/
def ValidAttr (x : XAttr) (g : Gfid) (n : Text) : Prop :=
  x.gfid = some g ∧ x.name = some n ∧
    (x.type = typeInteger ∨ x.type = typeReal ∨ x.type = typeString)

/-- `ims_xdb_setxattr` keeps its promise exactly under this condition. If `BEGIN` fails, the
name may not be left behind: it was there before, or its insert or the whole call does not
get past it, or the attribute row is stored too. -/
def SetxattrSafe (t : Tables) (x : XAttr) (faults : List Bool) : Prop :=
  ∀ g n, ValidAttr x g n → faultAt faults 0 = true → faultAt faults 1 = false →
    n ∈ t.xname.map XName.name ∨ (g ∈ t.xgfid.map XGfid.gfid ∧ faultAt faults 2 = false)

lemma dataOnly_setxattrBody (g : Gfid) (n : Text) (x : XAttr) :
    DataOnly (setxattrBody g n x) := by
  refine (dataOnly_stepDone _).bind ?_
  intro ret
  split
  · exact .done _
  · exact dataOnly_stepDone _

variable {x : XAttr}

lemma selectNid_insertXname (t : Tables) (n : Text) :
    ∃ nid, (t.insertXname n).selectNid n = some nid := by
  have hm : ∃ r ∈ (t.insertXname n).xname, r.name = n := by
    unfold Tables.insertXname
    split
    · next h => exact mem_map.mp h
    · exact ⟨⟨newRowid (t.xname.map XName.nid), n⟩, by simp, rfl⟩
  cases hs : (t.insertXname n).selectNid n with
  | some nid => exact ⟨nid, rfl⟩
  | none =>
    obtain ⟨r, hr, he⟩ := hm
    simp only [Tables.selectNid, map_eq_none_iff, find?_eq_none] at hs
    exact absurd he (by simpa using hs r hr)

lemma selectGid_isSome (t : Tables) (g : Gfid) :
    (∃ gid, t.selectGid (some g) = some gid) ↔ g ∈ t.xgfid.map XGfid.gfid := by
  constructor
  · rintro ⟨gid, h⟩
    obtain ⟨x, hx, hm⟩ := Tables.mem_of_selectGid h
    cases hx
    exact mem_map.mpr ⟨_, hm, rfl⟩
  intro h
  obtain ⟨r, hr, he⟩ := mem_map.mp h
  cases hs : t.selectGid (some g) with
  | some gid => exact ⟨gid, rfl⟩
  | none =>
    simp only [Tables.selectGid, bind_some, map_eq_none_iff, find?_eq_none] at hs
    exact absurd he (by simpa using hs r hr)

lemma insertXname_xgfid (t : Tables) (n : Text) : (t.insertXname n).xgfid = t.xgfid := by
  unfold Tables.insertXname
  split <;> rfl

private lemma insertXname_eq_self (t : Tables) (n : Text) :
    t.insertXname n = t ↔ n ∈ t.xname.map XName.name := by
  unfold Tables.insertXname
  split
  · next h => simp [h]
  · next h =>
    refine iff_of_false ?_ h
    intro he
    simpa using congrArg (fun x => x.xname.length) he

-- After the name has been inserted, the attribute row is stored exactly for an indexed gfid.
private lemma apply_insertXdata (fk : Bool) (t : Tables) (g : Gfid) (n : Text) (i : Option Int)
    (v : Option Dbl) (s : Option Text) :
    (g ∈ t.xgfid.map XGfid.gfid ∧
      ∃ t', (Sql.insertXdata g n i v s).apply fk (t.insertXname n) = some (none, t')) ∨
      g ∉ t.xgfid.map XGfid.gfid ∧
        (Sql.insertXdata g n i v s).apply fk (t.insertXname n) = none := by
  obtain ⟨nid, hn⟩ := selectNid_insertXname t n
  have hx := selectGid_isSome (t.insertXname n) g
  rw [insertXname_xgfid] at hx
  simp only [Sql.apply, Tables.insertXdata, hn]
  cases hg : (t.insertXname n).selectGid (some g) with
  | some gid => exact .inl ⟨hx.mp ⟨gid, hg⟩, _, rfl⟩
  | none =>
    right
    refine ⟨?_, rfl⟩
    intro hm
    obtain ⟨gid, h⟩ := hx.mpr hm
    rw [hg] at h
    cases h

-- What the two statements return and leave behind.
private lemma run_setxattrBody (fk : Bool) (t : Tables) (g : Gfid) (n : Text) (x : XAttr)
    {fs : List Bool} (h0 : faultAt fs 0 = false) :
    ∃ ret t' fs', (setxattrBody g n x).run (execNext (Sql.apply fk)) (.idle t, fs) =
      (ret, .idle t', fs') ∧
      (ret = 0 ∧ g ∈ t.xgfid.map XGfid.gfid ∧ faultAt fs 1 = false ∨
        ret = -1 ∧ t' = t.insertXname n ∧
          ¬(g ∈ t.xgfid.map XGfid.gfid ∧ faultAt fs 1 = false)) := by
  have hname : (Sql.insertXname n).apply fk t = some (none, t.insertXname n) := rfl
  simp only [setxattrBody, Prog.run_bind, Conn.idle, run_stepDone h0 hname, ne_eq,
    not_true_eq_false, if_false]
  rcases apply_insertXdata fk t g n (bindValue x).1 (bindValue x).2.1 (bindValue x).2.2 with
    ⟨hg, t', hd⟩ | ⟨hg, hd⟩
  · cases h1 : faultAt fs 1 with
    | false =>
      rw [run_stepDone h1 hd]
      exact ⟨_, _, _, rfl, .inl ⟨rfl, hg, rfl⟩⟩
    | true =>
      rw [run_stepDone_fail (.inl h1)]
      exact ⟨_, _, _, rfl, .inr ⟨rfl, rfl, by simp⟩⟩
  · rw [run_stepDone_fail (.inr hd)]
    exact ⟨_, _, _, rfl, .inr ⟨rfl, rfl, fun h => hg h.1⟩⟩

private lemma setxattr_invalid (fk : Bool) (t : Tables) (faults : List Bool)
    (h : ¬∃ g n, ValidAttr x g n) :
    (runAlone (Sql.apply fk) (imsXdbSetxattr x) (.idle t) faults).2.committed = t := by
  have hout : (runAlone (Sql.apply fk) (txOut (-1)) (.idle t) faults).2.committed = t := by
    simp only [runAlone, run_txOut]
    cases faults.headD false <;> rfl
  unfold imsXdbSetxattr
  split
  · next g n hg hn =>
    split
    · rfl
    · next ht =>
      refine absurd ⟨g, n, hg, hn, ?_⟩ h
      by_contra hc
      rw [not_or, not_or] at hc
      exact ht hc
  · exact hout

lemma imsXdbSetxattr_of_valid {g : Gfid} {n : Text} (hv : ValidAttr x g n) :
    imsXdbSetxattr x = imsXdbTxBegin >>= fun _ => setxattrBody g n x >>= txOut := by
  obtain ⟨hg, hn, ht⟩ := hv
  unfold imsXdbSetxattr
  rw [hg, hn]
  simp only
  rw [if_neg]
  rintro ⟨h1, h2, h3⟩
  rcases ht with ht | ht | ht
  · exact h1 ht
  · exact h2 ht
  · exact h3 ht

private lemma setxattrSafe_of_valid {g : Gfid} {n : Text} (hv : ValidAttr x g n)
    (faults : List Bool) :
    SetxattrSafe t x faults ↔ (faultAt faults 0 → faultAt faults 1 = false →
      n ∈ t.xname.map XName.name ∨ (g ∈ t.xgfid.map XGfid.gfid ∧ faultAt faults 2 = false)) := by
  constructor
  · intro h
    exact h g n hv
  rintro h g' n' ⟨hg, hn, _⟩
  rw [hv.1] at hg
  rw [hv.2.1] at hn
  cases hg
  cases hn
  exact h

private lemma setxattr_iff (fk : Bool) (t : Tables) (x : XAttr) (faults : List Bool) :
    let r := runAlone (Sql.apply fk) (imsXdbSetxattr x) (.idle t) faults
    (r.1 ≠ 0 → r.2.committed = t) ↔ SetxattrSafe t x faults := by
  intro r
  by_cases hv : ∃ g n, ValidAttr x g n
  · obtain ⟨g, n, hv⟩ := hv
    have htx := @runAlone_tx _ (dataOnly_setxattrBody g n x) fk t faults
    rw [← imsXdbSetxattr_of_valid hv] at htx
    rw [setxattrSafe_of_valid hv]
    cases h1 : faultAt faults 1 with
    | true =>
      have hrun : (setxattrBody g n x).run (execNext (Sql.apply fk)) (.idle t, faults.tail) =
          (-1, .idle t, faults.tail.tail) := by
        simp only [setxattrBody, Prog.run_bind, run_stepDone_fail (.inl h1)]
        rfl
      obtain ⟨hret, hcom⟩ := htx hrun
      rw [show r.2.committed = _ from hcom]
      simp
    | false =>
      obtain ⟨ret, t', fs', hrun, hcase⟩ := run_setxattrBody fk t g n x h1
      obtain ⟨hret, hcom⟩ := htx hrun
      rw [show r.1 = ret from hret, show r.2.committed = _ from hcom]
      rcases hcase with ⟨rfl, hcase⟩ | ⟨rfl, rfl, hcase⟩
      · have hx : g ∈ t.xgfid.map XGfid.gfid ∧ faultAt faults 2 = false := hcase
        simp only [ne_eq, not_true_eq_false, false_implies, true_iff]
        exact fun _ _ => .inr hx
      · have hx : ¬(g ∈ t.xgfid.map XGfid.gfid ∧ faultAt faults 2 = false) := hcase
        change (_ → (if faultAt faults 0 = true then _ else _) = t) ↔ _
        rw [or_iff_left hx]
        cases faultAt faults 0 <;> simp [insertXname_eq_self]
  · have hcom : r.2.committed = t := setxattr_invalid fk t faults hv
    rw [hcom]
    refine iff_of_true (fun _ => rfl) ?_
    intro g n h
    exact absurd ⟨g, n, h⟩ hv

end

/-- `ims_xdb_update_stat` keeps its promise exactly under this condition. If `BEGIN` fails,
either no update fails or those before the failing one change nothing. -/
def UpdateStatSafe (t : Tables) (gfid : Option Gfid) (sb : Stat) (statOp : Int)
    (faults : List Bool) : Prop :=
  ∀ gid, t.selectGid gfid = some gid →
    faultAt faults 0 = false → faultAt faults 1 = false → faultAt faults 2 = true →
    let plan := updatePlan (normStatOp statOp)
    let reached := beforeFault plan faults.tail.tail.tail
    reached = plan ∨ ∀ a ∈ reached, Settled t (columnInt gid) sb a

private lemma updateStat_iff (fk : Bool) (t : Tables) (gfid : Option Gfid) (sb : Stat)
    (statOp : Int) (faults : List Bool) :
    let r := runAlone (Sql.apply fk) (imsXdbUpdateStat gfid sb statOp) (.idle t) faults
    (r.1 ≠ 0 → r.2.committed = t) ↔ UpdateStatSafe t gfid sb statOp faults := by
  intro r
  -- Up to `BEGIN` a failing statement leaves the tables as they are.
  have hearly (h : r.2.committed = t) (hs : UpdateStatSafe t gfid sb statOp faults) :
      (r.1 ≠ 0 → r.2.committed = t) ↔ UpdateStatSafe t gfid sb statOp faults :=
    iff_of_true (fun _ => h) hs
  cases gfid with
  | none => exact hearly rfl (fun gid hg => by cases hg)
  | some g =>
    have hr : r = ((imsXdbUpdateStat (some g) sb statOp).run (execNext (Sql.apply fk))
      (.idle t, faults) |>.1, (imsXdbUpdateStat (some g) sb statOp).run (execNext (Sql.apply fk))
      (.idle t, faults) |>.2.1) := rfl
    simp only [imsXdbUpdateStat, reduceCtorEq, if_false, Prog.run_bind, Conn.idle] at hr
    by_cases hg : ∃ gid, t.selectGid (some g) = some gid ∧ faultAt faults 0 = false
    · obtain ⟨gid, hg, h0⟩ := hg
      rw [run_getGid h0 hg] at hr
      simp only [Prog.send_bind, Prog.run_ask, execNext] at hr
      cases h1 : faultAt faults 1 with
      | true =>
        rw [show faults.tail.headD false = true from h1] at hr
        refine hearly (by rw [hr]; rfl) ?_
        intro gid' _ _ h1'
        rw [h1] at h1'
        cases h1'
      | false =>
        rw [show faults.tail.headD false = false from h1] at hr
        simp only [exec_false, execOk, Prog.run_bind] at hr
        rw [show (⟨t, none⟩ : Conn Tables) = .idle t from rfl, run_txBegin] at hr
        have hx := run_updateXdata fk (columnInt gid) sb (updatePlan (normStatOp statOp)) t
          (if faults.tail.tail.headD false then none else some t) faults.tail.tail.tail
        simp only [UpdateStatSafe, hg, h0, h1, Option.some.injEq, forall_eq', true_implies]
        rcases hx with ⟨hb, hret⟩ | ⟨hb, hret, hcom⟩
        · rw [hr]
          exact iff_of_true (fun h => absurd hret h) (fun _ => .inl hb)
        rw [hr]
        simp only [hret, hcom]
        change (_ → (if faultAt faults 2 = true then none else some t).getD _ = t) ↔ _
        rw [or_iff_right hb]
        cases faultAt faults 2
        · simp
        · simp only [if_true, getD_none, updateStats_eq_self]
          simp
    · have hf : faults.headD false ∨ t.selectGid (some g) = none := by
        cases hs : t.selectGid (some g) with
        | none => exact .inr rfl
        | some gid =>
          left
          by_contra h0
          exact hg ⟨gid, hs, Bool.eq_false_of_not_eq_true h0⟩
      rw [run_getGid_fail hf] at hr
      refine hearly (by rw [hr]; rfl) ?_
      intro gid hs h0
      exact absurd ⟨gid, hs, h0⟩ hg

/-- A call run alone is all-or-nothing: a failure leaves the database as it was, and a
successful `ims_xdb_insert_new_file` has added its rows and nothing else. -/
def AllOrNothing (fk : Bool) (t : Tables) (call : Call) (faults : List Bool) : Prop :=
  let r := runAlone (Sql.apply fk) call.prog (.idle t) faults
  (r.1 ≠ 0 → r.2.committed = t) ∧ match call with
    | .insertNewFile gfid path sb => r.1 = 0 → AddedFile t r.2.committed gfid path sb
    | _ => True

/-- The exact condition for `AllOrNothing`, on the tables, the arguments and the faults. -/
def Call.Safe (fk : Bool) (t : Tables) (faults : List Bool) : Call → Prop
  | .insertNewFile gfid path _ => NewFileSafe fk t gfid path faults
  | .setxattr xattr => SetxattrSafe t xattr faults
  | .updateStat gfid sb statOp => UpdateStatSafe t gfid sb statOp faults

/-- The operations are all-or-nothing exactly when the unchecked transaction calls and the
32-bit gid do not show. -/
theorem allOrNothing_iff_safe (fk : Bool) (t : Tables) (call : Call) (faults : List Bool) :
    AllOrNothing fk t call faults ↔ call.Safe fk t faults := by
  cases call with
  | insertNewFile gfid path sb => exact newFile_iff fk t gfid path sb faults
  | setxattr xattr =>
    unfold AllOrNothing
    rw [and_true]
    exact setxattr_iff fk t xattr faults
  | updateStat gfid sb statOp =>
    unfold AllOrNothing
    rw [and_true]
    exact updateStat_iff fk t gfid sb statOp faults

/-- A second file is created under the path of the first one while `BEGIN` fails: the call
reports failure and leaves a gfid row behind. -/
theorem insertNewFile_leaves_gfid : ¬AllOrNothing true { Tables.empty with
        xgfid := [⟨1, 7⟩]
        xfile := [⟨1, 1, (.top 'a'), ['a']⟩] }
      (.insertNewFile (some 8) (.top 'a') (fun _ => 0)) [true] := by
  intro h
  exact absurd (h.1 (by decide)) (by decide)

end TagItGluster.Xdb
