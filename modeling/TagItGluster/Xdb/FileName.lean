import TagItGluster.Xdb.Runs

/-!
# The stored file name

`ims_xdb_insert_file` and `ims_xdb_rename` let SQLite cut the `name` column out of the path.
`name_substr_pos` counts bytes and SQL `substr` counts characters, so every character of the
directory part that takes more than one byte moves the cut into the file name. Line numbers:
`xlators/features/imess-server/src/imess-server-xdb.c`.
-/

namespace TagItGluster.Xdb

open Base List Option

/-- The text after the last slash: what `name_substr` (208) points at. -/
def nameSubstr (path : Path) : Text := afterLast '/' path.chars

/-- The bytes of the directory part beyond its characters are lost from the name. -/
lemma nameOf_eq_drop (path : Path) : nameOf path = (nameSubstr path).drop
      (byteLen (beforeLast '/' path.chars) - (beforeLast '/' path.chars).length) := by
  have hle := length_le_byteLen (beforeLast '/' path.chars)
  have hsplit := beforeLast_append_afterLast path.slash
  rw [nameOf, substr, nameSubstrPos]
  generalize hk : byteLen (beforeLast '/' path.chars) - (beforeLast '/' path.chars).length = k
  have hpos : byteLen (beforeLast '/' path.chars) + 2 - 1 =
      (beforeLast '/' path.chars).length + (k + 1) := by
    omega
  rw [hpos]
  calc path.chars.drop ((beforeLast '/' path.chars).length + (k + 1))
      = (beforeLast '/' path.chars ++ '/' :: afterLast '/' path.chars).drop
          ((beforeLast '/' path.chars).length + (k + 1)) := by rw [hsplit]
    _ = ('/' :: afterLast '/' path.chars).drop (k + 1) := drop_length_add_append _
    _ = (afterLast '/' path.chars).drop k := drop_succ_cons

/-- The cut is right exactly if the directory part is ASCII, or there is no name to cut. -/
lemma nameOf_eq_iff (path : Path) : nameOf path = nameSubstr path ↔
      Ascii (beforeLast '/' path.chars) ∨ nameSubstr path = [] := by
  have hle := length_le_byteLen (beforeLast '/' path.chars)
  rw [nameOf_eq_drop, ← byteLen_eq_length_iff]
  generalize hk : byteLen (beforeLast '/' path.chars) - (beforeLast '/' path.chars).length = k
  constructor
  · intro h
    have hlen := congrArg List.length h
    rw [length_drop] at hlen
    by_cases hnil : nameSubstr path = []
    · exact .inr hnil
    · have hpos := length_pos_iff.mpr hnil
      left
      omega
  · rintro (h | h)
    · have hk0 : k = 0 := by omega
      rw [hk0, drop_zero]
    · rw [h, drop_nil]

/-- An index that statements of this library have built from the fresh schema. -/
def Written (fk : Bool) (t : Tables) : Prop :=
  ∃ qs : List Sql, applyAll (Sql.apply fk) qs Tables.empty = some t

/-- Every file row holds the name that `substr` cuts out of its path. -/
def NamesCut (t : Tables) : Prop := ∀ r ∈ t.xfile, r.name = nameOf r.path

variable {t t' : Tables} {fk : Bool}

section

variable (ht : NamesCut t)
include ht

private lemma namesCut_insertFile {gfid : Option Gfid} {path : Path}
    (h : t.insertFile gfid path = some t') : NamesCut t' := by
  unfold Tables.insertFile at h
  split at h
  next gid _ =>
    split at h
    · cases h
    cases h
    intro r hr
    rcases mem_append.mp hr with hold | hnew
    · exact ht r hold
    · rw [mem_singleton.mp hnew]
      rfl
  next => cases h

private lemma namesCut_rename {new old : Path} (h : t.rename new old = some t') : NamesCut t' := by
  unfold Tables.rename at h
  split at h
  · cases h
  cases h
  intro r hr
  obtain ⟨r₀, hr₀, hrr⟩ := mem_map.mp hr
  split at hrr
  · rw [← hrr]
  · rw [← hrr]
    exact ht r₀ hr₀

/-- No other statement touches the file rows, except to delete them. -/
lemma namesCut_apply {q : Sql} {v : Option Int} (h : q.apply fk t = some (v, t')) :
    NamesCut t' := by
  have hsame : ∀ {u : Tables}, u.xfile = t.xfile → NamesCut u := by
    intro u hu r hr
    exact ht r (hu ▸ hr)
  cases q with
  | getGid g =>
    cases h
    exact ht
  | insertGfid g =>
    have hu := eq_some_of_map h
    unfold Tables.insertGfid at hu
    split at hu
    · cases hu
    · split at hu
      · cases hu
      · cases hu
        exact hsame rfl
  | insertFile | linkFile => exact namesCut_insertFile ht (eq_some_of_map h)
  | insertStat gid sb =>
    have hu := eq_some_of_map h
    unfold Tables.insertStat at hu
    split at hu
    · cases hu
    · split at hu
      · cases hu
      · cases hu
        exact hsame rfl
  | updateStat i gid a =>
    cases h
    exact hsame rfl
  | unlinkFile p =>
    cases h
    intro r hr
    exact ht r (mem_of_mem_filter hr)
  | rename new old => exact namesCut_rename ht (eq_some_of_map h)
  | insertXname n =>
    cases h
    apply hsame
    unfold Tables.insertXname
    split <;> rfl
  | insertXdata g n i r s =>
    have hu := eq_some_of_map h
    unfold Tables.insertXdata at hu
    split at hu
    · cases hu
      exact hsame rfl
    · cases hu

private lemma namesCut_applyAll {qs : List Sql} (h : applyAll (Sql.apply fk) qs t = some t') :
    NamesCut t' := by
  induction qs generalizing t with
  | nil =>
    cases h
    exact ht
  | cons q qs ih =>
    obtain ⟨⟨v, u⟩, hu, hrest⟩ := bind_eq_some_iff.mp h
    exact ih (namesCut_apply ht hu) hrest

end

private lemma namesCut_of_written (h : Written fk t) : NamesCut t := by
  obtain ⟨qs, hqs⟩ := h
  have hempty : NamesCut Tables.empty := by
    intro r hr
    cases hr
  exact namesCut_applyAll hempty hqs

/-- The two calls that store a name for `path`: `ims_xdb_insert_file`, and `ims_xdb_rename`
to it. -/
inductive NameCall where
  | insertFile (gfid : Option Gfid)
  | rename (old : Path)

/-- The program of a call for `path`. -/
def NameCall.prog (path : Path) : NameCall → Op Int
  | .insertFile gfid => imsXdbInsertFile gfid path
  | .rename old => imsXdbRename (some old) (some path)

/-- The statement of a call for `path`. -/
def NameCall.sql (path : Path) : NameCall → Sql
  | .insertFile gfid => .insertFile gfid path
  | .rename old => .rename path old

/-- Whenever one of the calls returns 0, on any index this library has written, the name
stored for `path` is the text after the last slash. -/
def StoresName (fk : Bool) (path : Path) : Prop :=
  ∀ (call : NameCall) (c : Conn Tables) (faults : List Bool), Written fk c.db →
    (runAlone (Sql.apply fk) (call.prog path) c faults).1 = 0 →
    ∀ r ∈ (runAlone (Sql.apply fk) (call.prog path) c faults).2.db.xfile,
      r.path = path → r.name = nameSubstr path

/-- A call either leaves the index alone or takes the effect of its statement. -/
lemma namesCut_call (path : Path) (call : NameCall) (c : Conn Tables) (faults : List Bool)
    (hc : NamesCut c.db) : NamesCut (runAlone (Sql.apply fk) (call.prog path) c faults).2.db := by
  have hprog : call.prog path = stepDone (call.sql path) := by
    cases call <;> rfl
  rcases c with ⟨t, s⟩
  rw [hprog, runAlone]
  by_cases hf : faults.headD false = true
  · rw [run_stepDone_fail (.inl hf)]
    exact hc
  cases happ : (call.sql path).apply fk t with
  | none =>
    rw [run_stepDone_fail (.inr happ)]
    exact hc
  | some r =>
    rcases r with ⟨v, t'⟩
    have hv : v = none := by
      cases call <;>
      · obtain ⟨u, _, huv⟩ := map_eq_some_iff.mp happ
        cases huv
        rfl
    subst hv
    rw [run_stepDone (Bool.eq_false_iff.mpr hf) happ]
    exact namesCut_apply hc happ

/-- The index with one gfid and no file. -/
def gfidOnly : Tables := { Tables.empty with xgfid := [⟨1, 0⟩] }

private lemma written_gfidOnly (fk : Bool) : Written fk gfidOnly := by
  refine ⟨[.insertGfid (some 0)], ?_⟩
  cases fk <;> decide

/-- The stored name is the text after the last slash exactly for the paths whose directory
part is ASCII, and those that end in a slash. -/
theorem stored_name_iff (fk : Bool) (path : Path) :
    StoresName fk path ↔ Ascii (beforeLast '/' path.chars) ∨ nameSubstr path = [] := by
  rw [← nameOf_eq_iff]
  constructor
  · intro h
    have hrow := h (.insertFile (some 0)) (.idle gfidOnly) [] (written_gfidOnly fk)
    exact hrow rfl ⟨1, 1, path, nameOf path⟩ mem_cons_self rfl
  · intro hname call c faults hc _ r hr hpath
    rw [namesCut_call path call c faults (namesCut_of_written hc) r hr, hpath]
    exact hname

/-- The entry `a` of the directory `/é`. -/
def accented : Path := ⟨['/', 'é', '/', 'a'], mem_cons_self⟩

/-- Its name is stored as the empty text, on insertion and on renaming. -/
theorem stored_name_lost : nameSubstr accented = ['a'] ∧
    (runAlone (Sql.apply false) (imsXdbInsertFile (some 0) accented) (.idle gfidOnly) []).2.db.xfile
      = [⟨1, 1, accented, []⟩] ∧
    (runAlone (Sql.apply false) (imsXdbRename (some (Path.top 'b')) (some accented))
        (.idle { gfidOnly with xfile := [⟨1, 1, Path.top 'b', ['b']⟩] }) []).2.db.xfile
      = [⟨1, 1, accented, []⟩] ∧
    ¬StoresName false accented := by
  refine ⟨by decide, by decide, by decide, ?_⟩
  intro h
  have hrow := h (.insertFile (some 0)) (.idle gfidOnly) [] (written_gfidOnly false) (by decide)
    ⟨1, 1, accented, []⟩ (by decide) rfl
  revert hrow
  decide

end TagItGluster.Xdb
