import TagItGluster.Server.Callbacks
import TagItGluster.Xdb.AttrType

/-!
# Tags of a setxattr request

`ims_setxattr` has the pairs of the request visited by `ims_find_setxattr_kv`, which fills in one
attribute record, and gives that record to its callback. Of several tags the last one visited is
indexed. Its value is taken for a number as soon as it starts with one. Line numbers:
`xlators/features/imess-server/src/imess-server.c`.
-/

namespace TagItGluster.Server

open Base Xdb List

/-- `ims_setxattr` (413): the cookie that the callback gets, `none` when a value leaves `data_str`.
The pairs are in the order of the traversal. -/
def imsSetxattr (lf : Text → Option Dbl) (gfid : Gfid) (dict : List (Text × Text)) :
    Option (Option XAttr) := do
  let filler ← dict.foldlM (fun filler p => imsFindSetxattrKv lf p.1 p.2 filler) ⟨0, blankAttr⟩
  if filler.count = 0 then pure none else pure (some { filler.xattr with gfid := some gfid })

/-- The index after the callback of a request that succeeds, and after its task. -/
def afterSetxattr (fk asyncUpdate : Bool) (cookie : Option XAttr) (t : Tables) : Tables :=
  match callback asyncUpdate 0 (.setxattr cookie) with
  | .skip => t
  | .op p => (runOp fk p (.idle t)).committed
  | .put task => (workStep fk task (.idle t)).committed

/-- The pairs of a request that are tags. -/
def tags (dict : List (Text × Text)) : List (Text × Text) :=
  dict.filter fun p => imessKey.isPrefixOf p.1

/-- The record of one tag. -/
def tagAttr (lf : Text → Option Dbl) (p : Text × Text) : Option XAttr :=
  (imsFindSetxattrKv lf p.1 p.2 ⟨0, blankAttr⟩).map Filler.xattr

/-- The value columns of the row of a file under a name. -/
def attrValue (t : Tables) (g : Gfid) (name : Text) :
    Option (Option Int × Option Dbl × Option Text) :=
  (t.selectGid (some g)).bind fun gid => (t.selectNid name).bind fun nid =>
    (t.xdata.find? fun r => decide (r.gid = gid ∧ r.nid = nid)).map fun r =>
      (r.ival, r.rval, r.sval)

/-- The text of `%ld`. -/
def ldText (i : Int) : Text := if i < 0 then '-' :: dec i.natAbs else dec i.natAbs

/-- The columns of a row have the value that a text without NUL gives as a whole; `lfAll` says
whether `%lf` reads a text up to its end. -/
def GivenValue (lf : Text → Option Dbl) (lfAll : Text → Bool) :
    Option Int × Option Dbl × Option Text → Text → Prop
  | (some i, none, none), v => v = ldText i
  | (none, some d, none), v => lf v = some d ∧ lfAll v
  | (none, none, some s), v => v = s
  | _, _ => False

/-- The value of a tag is read as a whole: it has no NUL, and if it starts with a number, then it
is nothing but that number. A NaN is stored as NULL. -/
def ReadWhole (lf : Text → Option Dbl) (lfAll : Text → Bool) (v : Text) : Prop :=
  '\x00' ∉ v ∧ match (if '.' ∈ v then none else sscanfLd v), lf v with
    | some i, _ => v = ldText i
    | none, some d => bindDouble d ≠ none ∧ lfAll v
    | none, none => True

/-- The index has the value of the tag, as the request gives it, under its name. -/
def TagStored (lf : Text → Option Dbl) (lfAll : Text → Bool) (t : Tables) (g : Gfid)
    (p : Text × Text) : Prop :=
  ∃ cols, attrValue t g p.1 = some cols ∧ '\x00' ∉ p.2 ∧ GivenValue lf lfAll cols p.2

section

variable {lf : Text → Option Dbl} {dict : List (Text × Text)} {p : Text × Text}

section

variable (hp : imessKey.isPrefixOf p.1)
include hp

/-- What a visit makes of a tag depends on the record before only in its gfid. -/
lemma findSetxattrKv_tag (filler : Filler) :
    imsFindSetxattrKv lf p.1 p.2 filler =
      (tagAttr lf p).map fun x => ⟨filler.count + 1, { x with gfid := filler.xattr.gfid }⟩ := by
  unfold tagAttr imsFindSetxattrKv
  rw [hp]
  cases copied p.2 with
  | none => rfl
  | some dataStr =>
    simp only [Bool.not_true, Bool.false_eq_true, if_false]
    split
    · cases lf dataStr <;> rfl
    · cases sscanfLd dataStr <;> [cases lf dataStr; skip] <;> rfl

private lemma tagAttr_isSome : (tagAttr lf p).isSome = (copied p.2).isSome := by
  unfold tagAttr imsFindSetxattrKv
  rw [hp]
  cases copied p.2 <;> rfl

private lemma tagAttr_valid {x : XAttr} (hx : tagAttr lf p = some x) (g : Gfid) :
    x.gfid = none ∧ ValidAttr { x with gfid := some g } g p.1 := by
  unfold tagAttr imsFindSetxattrKv at hx
  rw [hp] at hx
  cases hc : copied p.2 with
  | none => simp [hc] at hx
  | some dataStr =>
    simp only [hc, Bool.not_true, Bool.false_eq_true, if_false, Option.map_some,
      Option.some.injEq] at hx
    subst hx
    unfold ValidAttr
    split
    · cases lf dataStr <;> simp [blankAttr]
    · cases sscanfLd dataStr <;> [cases lf dataStr; skip] <;> simp [blankAttr]

/-- What is stored of a tag is its value exactly if it is read as a whole. -/
lemma givenValue_iff (lfAll : Text → Bool) {x : XAttr} (hx : tagAttr lf p = some x) :
    '\x00' ∉ p.2 ∧ GivenValue lf lfAll (bindValue x) p.2 ↔ ReadWhole lf lfAll p.2 := by
  refine and_congr_right fun hnul => ?_
  have hwhole : p.2.takeWhile (fun c => c != '\x00') = p.2 :=
    takeWhile_eq_self_iff.mpr fun c hc => bne_iff_ne.mpr fun h => hnul (h ▸ hc)
  unfold tagAttr imsFindSetxattrKv at hx
  rw [hp] at hx
  cases hc : copied p.2 with
  | none => simp [hc] at hx
  | some dataStr =>
    obtain rfl : dataStr = p.2 := by
      unfold copied at hc
      rw [hwhole] at hc
      split at hc <;> simp_all
    simp only [hc, Bool.not_true, Bool.false_eq_true, if_false, Option.map_some,
      Option.some.injEq] at hx
    subst hx
    have hreal {d : Dbl} (hd : lf p.2 = some d) :
        GivenValue lf lfAll (none, bindDouble d, none) p.2 ↔ bindDouble d ≠ none ∧ lfAll p.2 := by
      by_cases hnan : bindDouble d = none
      · rw [hnan]
        exact iff_of_false id fun h => h.1 rfl
      · have hsome : bindDouble d = some d := by
          unfold bindDouble at hnan ⊢
          exact if_neg fun h => hnan (if_pos h)
        rw [hsome]
        simp [GivenValue, hd]
    by_cases hdot : '.' ∈ p.2
    · simp only [if_pos hdot]
      cases hd : lf p.2 with
      | none => exact iff_of_true rfl trivial
      | some d => exact hreal hd
    · simp only [if_neg hdot]
      cases hi : sscanfLd p.2 with
      | some i => exact Iff.rfl
      | none =>
        cases hd : lf p.2 with
        | none => exact iff_of_true rfl trivial
        | some d => exact hreal hd

end

-- Induction on the traversal: the record is that of the last tag so far.
private lemma foldlM_kv (filler : Filler) (hgfid : filler.xattr.gfid = none) :
    dict.foldlM (fun filler p => imsFindSetxattrKv lf p.1 p.2 filler) filler =
      if (tags dict).all fun q => (tagAttr lf q).isSome then
        some ⟨filler.count + (tags dict).length,
          ((tags dict).getLast?.bind (tagAttr lf)).getD filler.xattr⟩
      else none := by
  induction dict generalizing filler with
  | nil => rfl
  | cons p dict ih =>
    rw [foldlM_cons]
    cases hp : imessKey.isPrefixOf p.1 with
    | false =>
      have htags : tags (p :: dict) = tags dict := filter_cons_of_neg (by simp [hp])
      rw [htags, imsFindSetxattrKv, hp]
      exact ih filler hgfid
    | true =>
      have htags : tags (p :: dict) = p :: tags dict := filter_cons_of_pos hp
      rw [htags, findSetxattrKv_tag hp, all_cons]
      cases hx : tagAttr lf p with
      | none => rfl
      | some x =>
        have hself : { x with gfid := filler.xattr.gfid } = x := by
          rw [hgfid, ← (tagAttr_valid hp hx 0).1]
        simp only [Option.map_some, Option.bind_eq_bind, Option.bind_some, hself,
          Option.isSome_some, Bool.true_and]
        rw [ih _ (tagAttr_valid hp hx 0).1, getLast?_cons]
        split
        · next hall =>
          cases hlast : (tags dict).getLast? with
          | none => simp [hx, add_assoc, add_comm 1]
          | some q =>
            have hq := all_eq_true.mp hall q (mem_of_getLast? hlast)
            obtain ⟨y, hy⟩ := Option.isSome_iff_exists.mp hq
            simp [hy, add_assoc, add_comm 1]
        · rfl

/-- The cookie is the record of the last tag, unless a value leaves `data_str`. -/
lemma imsSetxattr_eq (lf : Text → Option Dbl) (g : Gfid) (dict : List (Text × Text)) :
    imsSetxattr lf g dict = if (tags dict).all fun q => (tagAttr lf q).isSome then
      some (((tags dict).getLast?.bind (tagAttr lf)).map fun x => { x with gfid := some g })
    else none := by
  unfold imsSetxattr
  rw [foldlM_kv _ rfl]
  split
  · next hall =>
    cases hlast : (tags dict).getLast? with
    | none => simp [getLast?_eq_none_iff.mp hlast]
    | some q =>
      have hmem := mem_of_getLast? hlast
      obtain ⟨y, hy⟩ := Option.isSome_iff_exists.mp (all_eq_true.mp hall q hmem)
      simp [hy, ne_nil_of_mem hmem]
  · rfl

end

variable {t : Tables} {g : Gfid} {n : Text} {x : XAttr}

private lemma mem_of_selectNid {nid : Int} (h : t.selectNid n = some nid) : ⟨nid, n⟩ ∈ t.xname := by
  obtain ⟨r, hr, rfl⟩ := Option.map_eq_some_iff.mp h
  have hname : r.name = n := by simpa using find?_some hr
  rw [← hname]
  exact mem_of_find?_eq_some hr

private lemma selectNid_insertXname_ne {m : Text} (h : m ≠ n) :
    (t.insertXname n).selectNid m = t.selectNid m := by
  unfold Tables.insertXname
  split
  · rfl
  · simp [Tables.selectNid, h.symm]

private lemma selectGid_insertXname (gfid : Option Gfid) :
    (t.insertXname n).selectGid gfid = t.selectGid gfid := by
  unfold Tables.selectGid
  rw [insertXname_xgfid]

/-- The tables with the row of a file, if it is in the index. -/
def withAttr (t : Tables) (g : Gfid) (n : Text) (cols : Option Int × Option Dbl × Option Text) :
    Tables :=
  ((t.insertXname n).insertXdata g n cols.1 cols.2.1 cols.2.2).getD t

/-- Without faults, `ims_xdb_setxattr` stores the row of an indexed file. -/
lemma committed_setxattr (fk : Bool) (t : Tables) (hv : ValidAttr x g n) :
    (runOp fk (imsXdbSetxattr x) (.idle t)).committed = withAttr t g n (bindValue x) := by
  have htx := @runAlone_tx _ (dataOnly_setxattrBody g n x) fk t []
  rw [← imsXdbSetxattr_of_valid hv] at htx
  unfold withAttr
  generalize hq : Sql.insertXdata g n (bindValue x).1 (bindValue x).2.1 (bindValue x).2.2 = q
  have happly : q.apply fk (t.insertXname n) = ((t.insertXname n).insertXdata g n (bindValue x).1
      (bindValue x).2.1 (bindValue x).2.2).map (none, ·) := by
    rw [← hq]
    rfl
  have hbody : (setxattrBody g n x).run (execNext (Sql.apply fk)) (.idle t, []) =
      (stepDone q).run (execNext (Sql.apply fk)) (.idle (t.insertXname n), []) := by
    simp only [← hq]
    rfl
  cases hd : (t.insertXname n).insertXdata g n (bindValue x).1 (bindValue x).2.1
      (bindValue x).2.2 with
  | none =>
    rw [hd] at happly
    exact (htx (hbody.trans (run_stepDone_fail (.inr happly)))).2
  | some t' =>
    rw [hd] at happly
    exact (htx (hbody.trans (run_stepDone rfl happly))).2

/-- The row of an indexed file is found under its name, and the rows under other names stay. -/
lemma attrValue_withAttr (hw : t.WF) (hg : g ∈ t.xgfid.map XGfid.gfid) (n : Text)
    (cols : Option Int × Option Dbl × Option Text) :
    (withAttr t g n cols).WF ∧ (withAttr t g n cols).xgfid = t.xgfid ∧
      ∀ k, attrValue (withAttr t g n cols) g k =
        if k = n then some cols else attrValue t g k := by
  obtain ⟨gid, hgid⟩ := (selectGid_isSome t g).mpr hg
  obtain ⟨nid, hnid⟩ := selectNid_insertXname t n
  have hdata : (t.insertXname n).xdata = t.xdata := by
    unfold Tables.insertXname
    split <;> rfl
  obtain ⟨t', hinsert, hxgfid, hxname, hxdata⟩ : ∃ t',
      (t.insertXname n).insertXdata g n cols.1 cols.2.1 cols.2.2 = some t' ∧
      t'.xgfid = t.xgfid ∧ t'.xname = (t.insertXname n).xname ∧
      t'.xdata = t.xdata.filter (fun r => !decide (r.gid = gid ∧ r.nid = nid)) ++
        [⟨newRowid (t.xdata.map XData.xid), gid, nid, cols.1, cols.2.1, cols.2.2⟩] := by
    rw [Tables.insertXdata, selectGid_insertXname, hgid, hnid, hdata]
    exact ⟨_, rfl, insertXname_xgfid t n, rfl, rfl⟩
  rw [withAttr, hinsert, Option.getD_some]
  refine ⟨Tables.wf_insertXdata (Tables.wf_insertXname n hw) hinsert, hxgfid, fun k => ?_⟩
  have hgid' : t'.selectGid (some g) = some gid := by
    rw [← hgid, Tables.selectGid, hxgfid]
    rfl
  have hnid' : t'.selectNid k = (t.insertXname n).selectNid k := by
    rw [Tables.selectNid, hxname]
    rfl
  rw [attrValue, attrValue, hgid', hgid, Option.bind_some, hnid', hxdata]
  split
  · next hk =>
    have hgone : (t.xdata.filter fun r => !decide (r.gid = gid ∧ r.nid = nid)).find?
        (fun r => decide (r.gid = gid ∧ r.nid = nid)) = none := by
      rw [find?_eq_none]
      intro r hr hmatch
      have hkept := of_mem_filter hr
      rw [hmatch] at hkept
      cases hkept
    rw [hk, hnid, Option.bind_some, find?_append, hgone]
    simp
  · next hk =>
    rw [selectNid_insertXname_ne hk]
    refine Option.bind_congr fun nid' hsel => ?_
    -- the names differ, and so do their identifiers
    have hne : nid ≠ nid' := by
      rintro rfl
      have hrow := inj_on_of_nodup_map (Tables.wf_insertXname n hw).nid
        (mem_of_selectNid ((selectNid_insertXname_ne hk).trans hsel)) (mem_of_selectNid hnid) rfl
      exact hk (congrArg XName.name hrow)
    have hpred : (fun r : XData => decide ((!decide (r.gid = gid ∧ r.nid = nid)) = true ∧
        decide (r.gid = gid ∧ r.nid = nid') = true)) =
        fun r => decide (r.gid = gid ∧ r.nid = nid') := by
      grind
    rw [find?_append, find?_filter, hpred]
    simp [hne]

/-- After the row of one more tag, it and the tags before are stored if those were and its value
is read as a whole. -/
lemma tagsStored_iff {lf : Text → Option Dbl} {lfAll : Text → Bool} (hw : t.WF)
    {tags : List (Text × Text)} {q : Text × Text} (hq : imessKey.isPrefixOf q.1)
    (hx : tagAttr lf q = some x) (hnodup : ((tags ++ [q]).map Prod.fst).Nodup) :
    (∀ p ∈ tags ++ [q], TagStored lf lfAll (withAttr t g q.1 (bindValue x)) g p) ↔
      g ∈ t.xgfid.map XGfid.gfid ∧ (∀ p ∈ tags, TagStored lf lfAll t g p) ∧
        ReadWhole lf lfAll q.2 := by
  rw [forall_mem_append, forall_mem_singleton]
  by_cases hg : g ∈ t.xgfid.map XGfid.gfid
  · have hvalue := (attrValue_withAttr hw hg q.1 (bindValue x)).2.2
    rw [and_iff_right hg]
    refine and_congr (forall₂_congr fun p hp => ?_) ?_
    · rw [map_append, nodup_append] at hnodup
      have hne : p.1 ≠ q.1 := hnodup.2.2 p.1 (mem_map_of_mem hp) q.1 mem_cons_self
      unfold TagStored
      rw [hvalue, if_neg hne]
    · rw [← givenValue_iff hq lfAll hx, TagStored, hvalue, if_pos rfl]
      simp
  · refine iff_of_false ?_ fun h => hg h.1
    rintro ⟨-, cols, hvalue, -⟩
    have hnone : t.selectGid (some g) = none := by
      by_contra h
      exact hg ((selectGid_isSome t g).mp (Option.ne_none_iff_exists'.mp h))
    have hsame : withAttr t g q.1 (bindValue x) = t := by
      rw [withAttr, Tables.insertXdata, selectGid_insertXname, hnone]
      rfl
    rw [hsame, attrValue, hnone] at hvalue
    cases hvalue

/-- The tags of a request are in the index afterwards. -/
def TagsIndexed (lf : Text → Option Dbl) (lfAll : Text → Bool) (fk asyncUpdate : Bool)
    (t : Tables) (g : Gfid) (dict : List (Text × Text)) : Prop :=
  ∃ cookie, imsSetxattr lf g dict = some cookie ∧
    ∀ p ∈ tags dict, TagStored lf lfAll (afterSetxattr fk asyncUpdate cookie t) g p

/-- All tags of a request are in the index afterwards, with the values that it gives, exactly if
these fit into `data_str`, the file of a tag is in the index, all tags but the last one visited are
stored already, and the value of that one is read as a whole. -/
theorem setxattr_indexes_iff (lf : Text → Option Dbl) (lfAll : Text → Bool) (fk asyncUpdate : Bool)
    (hw : t.WF) (g : Gfid) (dict : List (Text × Text)) (hkeys : (dict.map Prod.fst).Nodup) :
    TagsIndexed lf lfAll fk asyncUpdate t g dict ↔ (∀ p ∈ tags dict, (copied p.2).isSome) ∧
        (tags dict ≠ [] → g ∈ t.xgfid.map XGfid.gfid) ∧
        (∀ p ∈ (tags dict).dropLast, TagStored lf lfAll t g p) ∧
        ∀ q ∈ (tags dict).getLast?, ReadWhole lf lfAll q.2 := by
  have himess : ∀ p ∈ tags dict, imessKey.isPrefixOf p.1 := fun p hp =>
    (mem_filter.mp hp).2
  have hfits : (tags dict).all (fun q => (tagAttr lf q).isSome) = true ↔
      ∀ p ∈ tags dict, (copied p.2).isSome = true := by
    rw [all_eq_true]
    exact forall₂_congr fun p hp => by rw [tagAttr_isSome (himess p hp)]
  have hnodup : ((tags dict).map Prod.fst).Nodup := hkeys.sublist (filter_sublist.map _)
  unfold TagsIndexed
  rw [imsSetxattr_eq, ← hfits]
  split
  · next hall =>
    rw [and_iff_right hall]
    refine .trans ⟨fun ⟨c, h, hc⟩ => Option.some.inj h ▸ hc, fun h => ⟨_, rfl, h⟩⟩ ?_
    cases hlast : (tags dict).getLast? with
    | none =>
      rw [getLast?_eq_none_iff.mp hlast]
      simp
    | some q =>
      obtain ⟨init, hinit⟩ := getLast?_eq_some_iff.mp hlast
      obtain ⟨y, hy⟩ := Option.isSome_iff_exists.mp (all_eq_true.mp hall q (mem_of_getLast? hlast))
      have hv := (tagAttr_valid (himess q (mem_of_getLast? hlast)) hy g).2
      have hafter : afterSetxattr fk asyncUpdate (some { y with gfid := some g }) t =
          (runOp fk (imsXdbSetxattr { y with gfid := some g }) (.idle t)).committed := by
        cases asyncUpdate <;> rfl
      rw [hinit] at hnodup ⊢
      rw [dropLast_concat, Option.bind_some, hy, Option.map_some, hafter,
        committed_setxattr fk t hv]
      have hne : init ++ [q] ≠ [] := by simp
      have hq := himess q (mem_of_getLast? hlast)
      refine (tagsStored_iff hw hq hy hnodup).trans ?_
      simp [hne]
  · next hall =>
    refine iff_of_false ?_ fun h => hall h.1
    rintro ⟨_, h, -⟩
    cases h

/-- The row of an indexed file. -/
def oneFile : Tables := { Tables.empty with xgfid := [⟨1, 7⟩] }

/-- Of two tags, the first is not indexed. -/
theorem setxattr_drops_first : ¬TagsIndexed (fun _ => none) (fun _ => true) true false oneFile 7
      [("user.imess.a".toList, ['1']), ("user.imess.b".toList, ['2'])] := by
  rintro ⟨cookie, hcookie, h⟩
  obtain ⟨cols, hvalue, -⟩ := h ("user.imess.a".toList, ['1']) (by decide)
  have hlast : cookie = some ⟨some 7, typeInteger, some "user.imess.b".toList, 2, 0, none⟩ := by
    rw [← Option.some.injEq, ← hcookie]
    decide
  subst hlast
  have hnone : attrValue (afterSetxattr true false (some ⟨some 7, typeInteger,
      some "user.imess.b".toList, 2, 0, none⟩) oneFile) 7 "user.imess.a".toList = none := by
    decide +kernel
  cases hnone.symm.trans hvalue

theorem setxattr_indexes_iff_one :
    TagsIndexed (fun _ => none) (fun _ => true) true false oneFile 7
      [("user.imess.a".toList, ['1'])] := by
  refine (setxattr_indexes_iff _ _ true false (by constructor <;> decide) 7 _ (by decide)).mpr
    ⟨by decide, by decide, nofun, ?_⟩
  intro q hq
  obtain rfl := Option.some.inj hq
  exact ⟨by decide, show ['1'] = ldText 1 by decide⟩

end TagItGluster.Server
