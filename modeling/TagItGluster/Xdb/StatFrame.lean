import TagItGluster.Xdb.Runs

/-!
# What the stat operations touch

`get_gid` reads the row identifier of a gfid as a 32-bit integer, which `ims_xdb_update_stat` and
`ims_xdb_insert_stat` then use for the attribute rows. From 2^31 on it is that of another file, or
of none.
-/

namespace TagItGluster.Xdb

open Base List

/-- Only attribute rows of the gfid row, if there is one, have changed, come or gone. -/
structure TouchesOnly (gid : Option Int) (t t' : Tables) : Prop where
  xgfid : t'.xgfid = t.xgfid
  xfile : t'.xfile = t.xfile
  xname : t'.xname = t.xname
  xdata : t'.xdata.filter (some ·.gid ≠ gid) = t.xdata.filter (some ·.gid ≠ gid)

variable {fk : Bool} {t : Tables} {g : Gfid} {gid c : Int} {sb : Stat}

private lemma touchesOnly_refl (gid : Option Int) (t : Tables) : TouchesOnly gid t t :=
  ⟨rfl, rfl, rfl, rfl⟩

private lemma touchesOnly_updateStat (a : StatAttr) :
    TouchesOnly (some gid) t (t.updateStat (sb a) gid a) := by
  refine ⟨rfl, rfl, rfl, ?_⟩
  unfold Tables.updateStat
  rw [filter_map]
  -- which rows are of other files stays the same, and those are not set
  have hsame : ((fun r : XData => decide (some r.gid ≠ some gid)) ∘ fun r =>
      if r.gid = gid ∧ r.nid = a.nid then { r with ival := some (sb a) } else r) =
      fun r => decide (some r.gid ≠ some gid) := by
    funext r
    rw [Function.comp_apply]
    split <;> rfl
  rw [hsame]
  refine .trans (map_congr_left fun r hr => ?_) (map_id _)
  have hne : some r.gid ≠ some gid := of_decide_eq_true (mem_filter.mp hr).2
  exact if_neg fun h => hne (congrArg some h.1)

private lemma touchesOnly_updateStats (attrs : List StatAttr) :
    TouchesOnly (some gid) t (t.updateStats gid sb attrs) := by
  induction attrs generalizing t with
  | nil => exact touchesOnly_refl _ t
  | cons a attrs ih =>
    have hrest := ih (t := t.updateStat (sb a) gid a)
    exact ⟨hrest.xgfid, hrest.xfile, hrest.xname,
      hrest.xdata.trans (touchesOnly_updateStat a).xdata⟩

/-- Attributes that are set under another row identifier are another file's. -/
lemma touchesOnly_updateStats_iff (attrs : List StatAttr) :
    TouchesOnly (some gid) t (t.updateStats c sb attrs) ↔
      c = gid ∨ ∀ a ∈ attrs, Settled t c sb a := by
  constructor
  · intro h
    refine or_iff_not_imp_left.mpr fun hc a ha r hr hrc => ?_
    have hkept : r ∈ (t.updateStats c sb attrs).xdata.filter (some ·.gid ≠ some gid) := by
      rw [h.xdata]
      refine mem_filter.mpr ⟨hr, decide_eq_true ?_⟩
      rw [hrc]
      exact fun heq => hc (Option.some.inj heq)
    exact settled_updateStats.mpr (.inl ha) r (mem_of_mem_filter hkept) hrc
  · rintro (rfl | h)
    · exact touchesOnly_updateStats attrs
    · rw [updateStats_eq_self.mpr h]
      exact touchesOnly_refl _ t

/-- Without faults, `ims_xdb_insert_stat` adds the attribute rows of an indexed file if they
fit. -/
lemma runAlone_insertStat (fk : Bool) (t : Tables) (g : Gfid) (sb : Stat) :
    (runAlone (Sql.apply fk) (imsXdbInsertStat (some g) sb) (.idle t) []).2.committed =
      match t.selectGid (some g) with
      | some gid => (t.insertStat fk (columnInt gid) sb).getD t
      | none => t := by
  simp only [runAlone, imsXdbInsertStat, Prog.run_bind, Conn.idle]
  cases hg : t.selectGid (some g) with
  | none =>
    rw [run_getGid_fail (.inr hg)]
    rfl
  | some gid =>
    rw [run_getGid rfl hg]
    cases hi : t.insertStat fk (columnInt gid) sb with
    | none =>
      have hq : (Sql.insertStat (columnInt gid) sb).apply fk t = none := by simp [Sql.apply, hi]
      simp only [run_stepDone_fail (.inr hq), hi]
      rfl
    | some t' =>
      have hq : (Sql.insertStat (columnInt gid) sb).apply fk t = some (none, t') := by
        simp [Sql.apply, hi]
      have hdone := @run_stepDone fk t t' none [] _ rfl hq
      simp only [tail_nil, hdone, hi]
      rfl

/-- Rows that are added under another row identifier are not the file's. -/
lemma touchesOnly_insertStat_iff :
    TouchesOnly (some gid) t ((t.insertStat fk c sb).getD t) ↔ c = gid ∨ ¬t.StatFits fk c := by
  by_cases hfits : t.StatFits fk c
  · rw [Tables.insertStat_eq_some hfits, Option.getD_some]
    have hrows : ∀ r ∈ t.statRows c sb, r.gid = c := by
      intro r hr
      obtain ⟨a, -, rfl⟩ := mem_map.mp hr
      rfl
    constructor
    · intro h
      have heq := h.xdata
      rw [filter_append, append_right_eq_self, filter_eq_nil_iff] at heq
      obtain ⟨r, hr⟩ : ∃ r, r ∈ t.statRows c sb := ⟨_, mem_map.mpr ⟨.dev, by decide, rfl⟩⟩
      have hgid := heq r hr
      rw [hrows r hr, decide_eq_true_eq, not_not] at hgid
      exact .inl (Option.some.inj hgid)
    · rintro (rfl | h)
      · refine ⟨rfl, rfl, rfl, ?_⟩
        rw [filter_append, append_right_eq_self, filter_eq_nil_iff]
        intro r hr
        rw [hrows r hr, decide_eq_true_eq, not_not]
      · exact absurd hfits h
  · rw [Tables.insertStat_eq_none hfits]
    exact iff_of_true (touchesOnly_refl _ t) (.inr hfits)

private lemma columnInt_eq_iff (hpos : 0 < gid) (hlt : gid < 2 ^ 63) :
    columnInt gid = gid ↔ gid < 2 ^ 31 := by
  unfold columnInt Int.bmod
  dsimp only
  split <;> omega

/-- The stat operations of a file touch only its attribute rows exactly if its row identifier is
below 2^31, or the planned attributes have their values and no rows fit under the identifier that
is read instead. -/
theorem stat_frame_iff (fk : Bool) (t : Tables) (g : Gfid) (sb : Stat) (statOp : Int)
    (hids : ∀ r ∈ t.xgfid, 0 < r.gid ∧ r.gid < 2 ^ 63) :
    (TouchesOnly (t.selectGid (some g)) t
        (runAlone (Sql.apply fk) (imsXdbUpdateStat (some g) sb statOp) (.idle t) []).2.committed ∧
      TouchesOnly (t.selectGid (some g)) t
        (runAlone (Sql.apply fk) (imsXdbInsertStat (some g) sb) (.idle t) []).2.committed) ↔
    ∀ gid ∈ t.selectGid (some g), gid < 2 ^ 31 ∨
      ((∀ a ∈ updatePlan (normStatOp statOp), Settled t (columnInt gid) sb a) ∧
        ¬t.StatFits fk (columnInt gid)) := by
  rw [runAlone_updateStat, runAlone_insertStat]
  cases hg : t.selectGid (some g) with
  | none => exact iff_of_true ⟨touchesOnly_refl _ t, touchesOnly_refl _ t⟩ (fun _ h => by cases h)
  | some gid =>
    obtain ⟨x, -, hmem⟩ := Tables.mem_of_selectGid hg
    have hnarrow := columnInt_eq_iff (hids _ hmem).1 (hids _ hmem).2
    refine (and_congr (touchesOnly_updateStats_iff _) touchesOnly_insertStat_iff).trans ?_
    rw [← or_and_left, hnarrow]
    exact ⟨fun h gid' hgid => Option.some.inj hgid ▸ h, fun h => h gid rfl⟩

/-- Two files, the row identifier of the second of which is read as that of the first. -/
def wideGid : Tables := { Tables.empty with xgfid := [⟨1, 7⟩, ⟨4294967297, 8⟩] }

/-- The attribute rows of the second file are added to the first. Those of the first are set when
the second is written. -/
theorem stat_frame_aliases :
    ¬TouchesOnly (wideGid.selectGid (some 8)) wideGid (runAlone (Sql.apply true)
      (imsXdbInsertStat (some 8) fun _ => 5) (.idle wideGid) []).2.committed ∧
    ∀ t ∈ wideGid.insertStat true 1 fun _ => 3,
      ¬TouchesOnly (t.selectGid (some 8)) t (runAlone (Sql.apply true)
        (imsXdbUpdateStat (some 8) (fun _ => 5) statOpWrite) (.idle t) []).2.committed := by
  refine ⟨fun h => absurd h.xdata (by decide +kernel), ?_⟩
  rintro t ⟨⟩ h
  exact absurd h.xdata (by decide +kernel)

theorem stat_frame_iff_first :
    TouchesOnly (wideGid.selectGid (some 7)) wideGid (runAlone (Sql.apply true)
      (imsXdbInsertStat (some 7) fun _ => 5) (.idle wideGid) []).2.committed :=
  ((stat_frame_iff true wideGid 7 (fun _ => 5) statOpAll (by decide)).mpr fun _ hgid =>
    .inl (Option.some.inj hgid ▸ by decide)).2

end TagItGluster.Xdb
