import TagItGluster.Server.Async

/-!
# The index and the namespace of the brick

Entry operations that succeed on the brick, and what the synchronous callbacks make of them
in the index. The brick below the translator is a plain POSIX namespace: its rules decide
which operations succeed. The index keeps the same pairs of path and gfid along every run
without the renames that touch more than one row.
-/

namespace TagItGluster.Server

open Base Xdb List

/-- A name on the brick. With `enable-dir-hash` a directory has its index record at one brick
only; `home` tells that this is the one. -/
structure Entry where
  path : Path
  gfid : Gfid
  dir : Bool
  home : Bool
  deriving DecidableEq, Repr

/-- The names on the brick; the root has no entry. -/
abbrev Brick := List Entry

/-- An entry operation, with the gfid and the attributes that the brick gives to a new
inode, and the value of `imess-dht-hashed` for a directory. -/
inductive Fop where
  | create (path : Path) (gfid : Gfid) (sb : Stat)
  | mkdir (path : Path) (gfid : Gfid) (sb : Stat) (hashed : Option Int)
  | symlink (path : Path) (gfid : Gfid) (sb : Stat)
  | link (oldPath newPath : Path) (sb : Stat)
  | unlink (path : Path)
  | rmdir (path : Path)
  | rename (oldPath newPath : Path)

/-- `p` lies below the directory `d`. -/
def below (d p : Path) : Bool := (d.chars ++ ['/']).isPrefixOf p.chars

/-- Where a path goes when the directory or file `old` becomes `new`. -/
def moved (old new p : Path) : Path :=
  if p = old then new
  else if below old p then
    ⟨new.chars ++ p.chars.drop old.chars.length, mem_append_left _ new.slash⟩
  else p

namespace Brick

/-- The entry of a path. -/
def lookup (b : Brick) (p : Path) : Option Entry := b.find? (fun e => e.path == p)

/-- The directory that is to hold `p` exists. -/
def hasParent (b : Brick) (p : Path) : Bool :=
  (beforeLast '/' p.chars).isEmpty ||
    b.any (fun e => e.dir && e.path.chars == beforeLast '/' p.chars)

/-- Rename `old`, with everything below it, over `new`. -/
def move (b : Brick) (old new : Path) : Brick :=
  (b.filter (fun e => e.path != new)).map (fun e => { e with path := moved old new e.path })

/-- A new inode at a free path. -/
def add (b : Brick) (p : Path) (gfid : Gfid) (dir home : Bool) : Option Brick :=
  if (b.lookup p).isNone && b.hasParent p then some (b ++ [⟨p, gfid, dir, home⟩]) else none

/-- `rename (2)`: a name of the same inode is no change, a directory replaces only an empty
directory, a file only a file. -/
def rename (b : Brick) (old new : Path) : Option Brick :=
  match b.lookup old with
  | none => none
  | some e =>
    match b.lookup new with
    | none => if below old new || !b.hasParent new then none else some (b.move old new)
    | some e' =>
      if old = new ∨ e.gfid = e'.gfid then some b
      else if below old new || e.dir != e'.dir then none
      else if e'.dir && b.any (fun x => below new x.path) then none
      else some (b.move old new)

end Brick

/-- The effect of an operation that succeeds on the brick, and the reply that the translator
sees; `none` when the operation fails. Creating a file that exists opens it. -/
def Fop.exec (dirHash : Bool) (b : Brick) : Fop → Option (Brick × Reply)
  | .create path gfid sb =>
    match b.lookup path with
    | some e => if e.dir then none else some (b, .create path ⟨e.gfid, sb⟩)
    | none => (b.add path gfid false true).map (·, .create path ⟨gfid, sb⟩)
  | .mkdir path gfid sb hashed =>
    (b.add path gfid true (imsMkdir dirHash hashed path).isSome).map
      (·, .mkdir (imsMkdir dirHash hashed path) ⟨gfid, sb⟩)
  | .symlink path gfid sb => (b.add path gfid false true).map (·, .symlink path ⟨gfid, sb⟩)
  | .link oldPath newPath sb =>
    match b.lookup oldPath with
    | some e => if e.dir then none
      else (b.add newPath e.gfid false true).map (·, .link newPath ⟨e.gfid, sb⟩)
    | none => none
  | .unlink path =>
    match b.lookup path with
    | some e => if e.dir then none else some (b.filter (fun x => x.path != path), .unlink path)
    | none => none
  | .rmdir path =>
    match b.lookup path with
    | some e => if !e.dir || b.any (fun x => below path x.path) then none
      else some (b.filter (fun x => x.path != path), .rmdir path)
    | none => none
  | .rename oldPath newPath =>
    (b.rename oldPath newPath).map (·, .rename (some (oldPath, newPath)))

/-- The brick and the connection to its index. -/
structure Ns where
  brick : Brick
  conn : Conn Tables

/-- An operation goes down to the brick, and its reply comes back through the translator. -/
def nsStep (fk dirHash : Bool) (f : Fop) (s : Ns) : Ns :=
  match f.exec dirHash s.brick with
  | some (b, reply) => ⟨b, syncStep fk ⟨0, reply⟩ s.conn⟩
  | none => s

/-- The pairs of path and gfid in the index are the ones on the brick. -/
def Mirrors (b : Brick) (t : Tables) : Prop :=
  ∀ p g, (∃ r ∈ t.xfile, r.path = p ∧ ⟨r.gid, g⟩ ∈ t.xgfid) ↔ ∃ e ∈ b, e.path = p ∧ e.gfid = g

/-- The names that the index of this brick is to hold: all but the directories that have their
record elsewhere. -/
def Brick.atHome (b : Brick) : Brick := b.filter Entry.home

/-- The operations that the index follows, by the brick and the index before them. -/
def Followed (dirHash : Bool) : Fop → Ns → Prop
  | .create path gfid _, s => s.brick.lookup path = none → FreshInode s.conn.db gfid
  | .mkdir path gfid _ hashed, s =>
    imsMkdir dirHash hashed path = some path → FreshInode s.conn.db gfid
  | .symlink _ gfid _, s => FreshInode s.conn.db gfid
  | .rename old new, s => old = new ∨
    (∃ e e', s.brick.lookup old = some e ∧ s.brick.lookup new = some e' ∧ e.gfid = e'.gfid ∧
      e.dir = false ∧ e'.dir = false) ∨
    (s.brick.lookup new = none ∧ ∀ e ∈ s.brick.atHome, below old e.path = false)
  | _, _ => True

/-- The index mirrors the names that are at home on the brick, and all files are. -/
private structure NsInv (b : Brick) (t : Tables) : Prop extends Sound t where
  mirrors : Mirrors b.atHome t
  files : ∀ e ∈ b, e.dir = false → e.home = true

section

variable {fk dirHash : Bool} {b : Brick} {t : Tables} {p old new : Path} {e : Entry} {g : Gfid}
  {b' : Brick}

private lemma lookup_none (h : b.lookup p = none) : ∀ e ∈ b, e.path ≠ p := by
  intro e he hp
  have hn := find?_eq_none.mp h e he
  exact hn (by simp [hp])

private lemma lookup_some (h : b.lookup p = some e) : e ∈ b ∧ e.path = p := by
  have hp := find?_some h
  exact ⟨mem_of_find?_eq_some h, by simpa using hp⟩

private lemma mem_atHome : e ∈ b.atHome ↔ e ∈ b ∧ e.home = true := mem_filter

private lemma atHome_snoc (e : Entry) :
    (b ++ [e]).atHome = if e.home then b.atHome ++ [e] else b.atHome := by
  rw [Brick.atHome, filter_append, filter_singleton]
  cases e.home with
  | true => rfl
  | false => exact append_nil _

section

variable (hi : NsInv b t)
include hi

private lemma NsInv.files_snoc (he : e.dir = false → e.home) :
    ∀ e' ∈ b ++ [e], e'.dir = false → e'.home = true :=
  forall_mem_append.mpr ⟨hi.files, forall_mem_singleton.mpr he⟩

-- A path of the index is on the brick: its row refers to a gfid row.
private lemma NsInv.on_brick (h : p ∈ t.xfile.map XFile.path) : ∃ e ∈ b, e.path = p := by
  obtain ⟨r, hr, rfl⟩ := mem_map.mp h
  obtain ⟨x, hx, hgid⟩ := mem_map.mp (hi.wf.file r hr)
  obtain ⟨e, he, hp, _⟩ := (hi.mirrors r.path x.gfid).mp ⟨r, hr, rfl, by rw [← hgid]; exact hx⟩
  exact ⟨e, (mem_atHome.mp he).1, hp⟩

private lemma NsInv.file_atHome (he : e ∈ b) (hd : e.dir = false) :
    e ∈ b.atHome := mem_atHome.mpr ⟨he, hi.files e he hd⟩

private lemma NsInv.gfid_mem (he : e ∈ b.atHome) : e.gfid ∈ t.xgfid.map XGfid.gfid := by
  obtain ⟨r, _, _, hx⟩ := (hi.mirrors e.path e.gfid).mpr ⟨e, he, rfl, rfl⟩
  exact mem_map.mpr ⟨_, hx, rfl⟩

end

private lemma lookup_of_add {dir home : Bool} {reply : Reply} {r : Brick × Reply}
    (h : (b.add p g dir home).map (·, reply) = some r) :
    b.lookup p = none ∧ r = (b ++ [⟨p, g, dir, home⟩], reply) := by
  unfold Brick.add at h
  split at h
  · next hc =>
    rw [Bool.and_eq_true, Option.isNone_iff_eq_none] at hc
    exact ⟨hc.1, (Option.some.inj h).symm⟩
  · cases h

-- The index refers to gfids by their gid, and a gid has one gfid.
private lemma NsInv.gfid_unique (hi : NsInv b t) {gid : Int} {g' : Gfid} (h : ⟨gid, g⟩ ∈ t.xgfid)
    (h' : ⟨gid, g'⟩ ∈ t.xgfid) : g = g' := by
  have he := inj_on_of_nodup_map hi.wf.gid h h' rfl
  rw [XGfid.mk.injEq] at he
  exact he.2

private lemma NsInv.path_free (hi : NsInv b t) (h : b.lookup p = none) :
    p ∉ t.xfile.map XFile.path := by
  intro hp
  obtain ⟨e, he, hpe⟩ := hi.on_brick hp
  exact lookup_none h e he hpe

private lemma mirrors_snoc {t' : Tables} {dir home : Bool} {row : XFile} (hm : Mirrors b t)
    (hf : t'.xfile = t.xfile ++ [row]) (hrow : row.path = p)
    (hold : ∀ r ∈ t.xfile, ∀ x, ⟨r.gid, x⟩ ∈ t'.xgfid ↔ ⟨r.gid, x⟩ ∈ t.xgfid)
    (hnew : ∀ x, ⟨row.gid, x⟩ ∈ t'.xgfid ↔ x = g) : Mirrors (b ++ [⟨p, g, dir, home⟩]) t' := by
  intro q x
  simp only [hf, mem_append, mem_singleton, or_and_right, exists_or]
  refine or_congr ?_ ?_
  · rw [← hm q x]
    constructor
    · rintro ⟨r, hr, hq, hx⟩
      exact ⟨r, hr, hq, (hold r hr x).mp hx⟩
    · rintro ⟨r, hr, hq, hx⟩
      exact ⟨r, hr, hq, (hold r hr x).mpr hx⟩
  · constructor
    · rintro ⟨r, rfl, hq, hx⟩
      exact ⟨_, rfl, hrow.symm.trans hq, ((hnew x).mp hx).symm⟩
    · rintro ⟨e, rfl, hq, hx⟩
      exact ⟨row, rfl, hrow.trans hq, (hnew x).mpr hx.symm⟩

section

variable (hi : NsInv b t)
include hi

-- A new inode at a free path: its rows are inserted and mirror the new entry.
private lemma NsInv.newFile (sb : Stat) (dir : Bool) (hp : b.lookup p = none)
    (hf : FreshInode t g) :
    runOp fk (imsXdbInsertNewFile (some g) p sb) (.idle t) = .idle (withNewFile t g p sb) ∧
      NsInv (b ++ [⟨p, g, dir, true⟩]) (withNewFile t g p sb) := by
  obtain ⟨hrun, hs⟩ := @Sound.newFile fk t g p hi.toSound sb (hi.path_free hp) hf
  have hnew : newGid t ∉ t.xgfid.map XGfid.gid := newRowid_not_mem _
  refine ⟨by rw [runOp, hrun], { hs with mirrors := ?_, files := hi.files_snoc (fun _ => rfl) }⟩
  rw [atHome_snoc]
  refine mirrors_snoc hi.mirrors rfl rfl ?_ ?_
  · intro r hr x
    simp only [withNewFile, withEntry, mem_append, mem_singleton, XGfid.mk.injEq]
    refine or_iff_left ?_
    rintro ⟨hgid, _⟩
    exact hnew (hgid ▸ hi.wf.file r hr)
  · intro x
    simp only [withNewFile, withEntry, Tables.fileRow, mem_append, mem_singleton,
      XGfid.mk.injEq, true_and]
    refine or_iff_right ?_
    intro hx
    exact hnew (mem_map.mpr ⟨_, hx, rfl⟩)

private lemma NsInv.known (he : e ∈ b.atHome) (p : Path) (sb : Stat) :
    runOp fk (imsXdbInsertNewFile (some e.gfid) p sb) (.idle t) = .idle t := by
  rw [runOp, runAlone_newFile_known sb (hi.gfid_mem he)]

-- A second name for an inode that the index knows.
private lemma NsInv.link (he : e ∈ b.atHome) (hp : b.lookup p = none) :
    ∃ t', runOp fk (imsXdbLinkFile (some e.gfid) (some p)) (.idle t) = .idle t' ∧
      NsInv (b ++ [⟨p, e.gfid, false, true⟩]) t' := by
  obtain ⟨row, hrow, hgfid⟩ := mem_map.mp (hi.gfid_mem he)
  have hx : ⟨row.gid, e.gfid⟩ ∈ t.xgfid := by
    rw [← hgfid]
    exact hrow
  have hsel := Tables.selectGid_of_mem hi.wf.gfid hx
  have hins : t.insertFile (some e.gfid) p =
      some { t with xfile := t.xfile ++ [t.fileRow row.gid p] } := by
    simp only [Tables.insertFile, hsel, if_neg (hi.path_free hp)]
  have happ : (Sql.linkFile e.gfid p).apply fk t =
      some (none, { t with xfile := t.xfile ++ [t.fileRow row.gid p] }) := by
    simp [Sql.apply, hins]
  refine ⟨_, by rw [runOp, imsXdbLinkFile, runAlone_stepDone happ], ?_⟩
  refine { hi with
    wf := Tables.wf_insertFile hi.wf hins, mirrors := ?_, files := hi.files_snoc (fun _ => rfl) }
  rw [atHome_snoc]
  refine mirrors_snoc hi.mirrors rfl rfl (fun _ _ _ => Iff.rfl) ?_
  intro x
  constructor
  · intro h
    exact hi.gfid_unique h hx
  · rintro rfl
    exact hx

private lemma NsInv.unlink (p : Path) :
    runOp fk (imsXdbUnlinkFile (some p)) (.idle t) = .idle (t.unlinkFile p) ∧
      NsInv (b.filter (fun x => x.path != p)) (t.unlinkFile p) := by
  have happ : (Sql.unlinkFile p).apply fk t = some (none, t.unlinkFile p) := rfl
  refine ⟨by rw [runOp, imsXdbUnlinkFile, runAlone_stepDone happ], ?_⟩
  refine { hi with
    wf := Tables.wf_unlinkFile p hi.wf, mirrors := ?_
    files := fun e he => hi.files e (mem_of_mem_filter he) }
  intro q x
  simp only [Tables.unlinkFile, mem_atHome, mem_filter, bne_iff_ne]
  constructor
  · rintro ⟨r, ⟨hr, hne⟩, rfl, hx⟩
    obtain ⟨e, he, hq, hg⟩ := (hi.mirrors r.path x).mp ⟨r, hr, rfl, hx⟩
    obtain ⟨he, hhome⟩ := mem_atHome.mp he
    exact ⟨e, ⟨⟨he, by rwa [hq]⟩, hhome⟩, hq, hg⟩
  · rintro ⟨e, ⟨⟨he, hne⟩, hhome⟩, rfl, hx⟩
    obtain ⟨r, hr, hq, hg⟩ :=
      (hi.mirrors e.path x).mpr ⟨e, mem_atHome.mpr ⟨he, hhome⟩, rfl, hx⟩
    exact ⟨r, ⟨hr, by rwa [hq]⟩, hq, hg⟩

-- The row update of a rename, seen on the pairs: both sides move `old` to `new`.
private lemma NsInv.update {t' : Tables} (ht : t.rename new old = some t')
    (hfiles : ∀ e ∈ b', e.dir = false → e.home)
    (hb : ∀ q x, (∃ e ∈ b'.atHome, e.path = q ∧ e.gfid = x) ↔
      ∃ e ∈ b.atHome, (if e.path = old then new else e.path) = q ∧ e.gfid = x) :
    runOp fk (imsXdbRename (some old) (some new)) (.idle t) = .idle t' ∧ NsInv b' t' := by
  have happ : (Sql.rename new old).apply fk t = some (none, t') := by
    simp [Sql.apply, ht]
  refine ⟨by rw [runOp, imsXdbRename, runAlone_stepDone happ], ?_⟩
  have hwf := Tables.wf_rename hi.wf ht
  unfold Tables.rename at ht
  split at ht
  · cases ht
  cases ht
  refine { hi with wf := hwf, mirrors := ?_, files := hfiles }
  intro q x
  rw [hb q x]
  simp only [mem_map, exists_exists_and_eq_and]
  constructor
  · rintro ⟨r, hr, hq, hx⟩
    have hpair : r.path = r.path ∧ ⟨r.gid, x⟩ ∈ t.xgfid := by
      refine ⟨rfl, ?_⟩
      split at hx <;> exact hx
    obtain ⟨e, he, hp, hg⟩ := (hi.mirrors r.path x).mp ⟨r, hr, hpair⟩
    refine ⟨e, he, ?_, hg⟩
    rw [hp, ← hq]
    split <;> rfl
  · rintro ⟨e, he, hq, hx⟩
    obtain ⟨r, hr, hp, hg⟩ := (hi.mirrors e.path x).mpr ⟨e, he, rfl, hx⟩
    refine ⟨r, hr, ?_, ?_⟩
    · rw [← hq, ← hp]
      split <;> rfl
    · split <;> exact hg

end

-- The same name: the update writes what is there.
private lemma NsInv.rename_self (hi : NsInv b t) (p : Path) :
    ∃ t', runOp fk (imsXdbRename (some p) (some p)) (.idle t) = .idle t' ∧ NsInv b t' := by
  obtain ⟨t', ht⟩ := Tables.exists_rename (.inl rfl)
  refine ⟨t', hi.update ht hi.files ?_⟩
  intro q x
  have hid (p' : Path) : (if p' = p then p else p') = p' := by
    split
    · next hp => exact hp.symm
    · rfl
  simp [hid]

private lemma NsInv.path_mem (hi : NsInv b t) (h : b.lookup p = some e) (hd : e.dir = false) :
    p ∈ t.xfile.map XFile.path := by
  obtain ⟨he, rfl⟩ := lookup_some h
  obtain ⟨r, hr, hp, _⟩ := (hi.mirrors e.path e.gfid).mpr ⟨e, hi.file_atHome he hd, rfl, rfl⟩
  exact mem_map.mpr ⟨r, hr, hp⟩

-- A free target, so that `move` drops no name.
private lemma mem_atHome_move (hnone : b.lookup new = none) : e ∈ (b.move old new).atHome ↔
      ∃ x ∈ b.atHome, { x with path := moved old new x.path } = e := by
  simp only [mem_atHome, Brick.move, mem_map, mem_filter, bne_iff_ne]
  constructor
  · rintro ⟨⟨x, ⟨hx, _⟩, rfl⟩, hhome⟩
    exact ⟨x, ⟨hx, hhome⟩, rfl⟩
  · rintro ⟨x, ⟨hx, hhome⟩, rfl⟩
    exact ⟨⟨x, ⟨hx, lookup_none hnone x hx⟩, rfl⟩, hhome⟩

-- A free target and nothing below the old name: one row moves, as on the brick.
private lemma NsInv.rename_free (hi : NsInv b t) (hnone : b.lookup new = none)
    (hbelow : ∀ e ∈ b.atHome, below old e.path = false) :
    ∃ t', runOp fk (imsXdbRename (some old) (some new)) (.idle t) = .idle t' ∧
      NsInv (b.move old new) t' := by
  obtain ⟨t', ht⟩ := @Tables.exists_rename t new old (.inr (hi.path_free hnone))
  refine ⟨t', hi.update ht ?_ ?_⟩
  · intro e he
    obtain ⟨x, hx, rfl⟩ := mem_map.mp he
    exact hi.files x (mem_of_mem_filter hx)
  · intro q x
    simp only [mem_atHome_move hnone, exists_exists_and_eq_and]
    refine exists_congr fun e => and_congr_right fun he => ?_
    simp [moved, hbelow e he]

private lemma NsInv.rename (hi : NsInv b t) (hb : b.rename old new = some b')
    (h : Followed dirHash (.rename old new) ⟨b, .idle t⟩) :
    ∃ t', runOp fk (imsXdbRename (some old) (some new)) (.idle t) = .idle t' ∧ NsInv b' t' := by
  unfold Brick.rename at hb
  cases hold : b.lookup old with
  | none =>
    rw [hold] at hb
    cases hb
  | some e =>
    rw [hold] at hb
    rcases h with rfl | ⟨e₁, e₂, h₁, h₂, hg, hd₁, hd₂⟩ | ⟨hnone, hbelow⟩
    · simp only [hold, true_or, if_true, Option.some.injEq] at hb
      subst hb
      exact hi.rename_self old
    · rw [hold] at h₁
      cases h₁
      simp only [h₂, hg, or_true, if_true, Option.some.injEq] at hb
      subst hb
      by_cases heq : new = old
      · subst heq
        exact hi.rename_self new
      · have hnone : t.rename new old = none :=
          if_pos ⟨heq, hi.path_mem hold hd₁, hi.path_mem h₂ hd₂⟩
        have happ : (Sql.rename new old).apply fk t = none := by
          simp [Sql.apply, hnone]
        refine ⟨t, ?_, hi⟩
        simp [runOp, imsXdbRename, runAlone, Conn.idle, run_stepDone_fail (.inr happ)]
    · rw [hnone] at hb
      simp only at hb
      split at hb
      · cases hb
      · cases hb
        exact hi.rename_free hnone hbelow

private lemma imsMkdir_some {hashed : Option Int} {path cookie : Path}
    (h : imsMkdir dirHash hashed path = some cookie) : path = cookie := by
  unfold imsMkdir at h
  split at h
  · split at h
    · exact Option.some.inj h
    · split at h
      · cases h
      · exact Option.some.inj h
  · exact Option.some.inj h

/-- What an operation that succeeds has done: one case per way to change the names. -/
private inductive Does (dirHash : Bool) (b : Brick) : Fop → Brick × Reply → Prop where
  | opens {path : Path} {gfid : Gfid} {sb : Stat} {e : Entry} (hl : b.lookup path = some e)
    (hd : e.dir = false) : Does dirHash b (.create path gfid sb) (b, .create path ⟨e.gfid, sb⟩)
  | creates {path : Path} {gfid : Gfid} {sb : Stat} (hl : b.lookup path = none) :
    Does dirHash b (.create path gfid sb)
      (b ++ [⟨path, gfid, false, true⟩], .create path ⟨gfid, sb⟩)
  | makes {path : Path} {gfid : Gfid} {sb : Stat} {hashed : Option Int}
    (hl : b.lookup path = none) :
    Does dirHash b (.mkdir path gfid sb hashed)
      (b ++ [⟨path, gfid, true, (imsMkdir dirHash hashed path).isSome⟩],
        .mkdir (imsMkdir dirHash hashed path) ⟨gfid, sb⟩)
  | symlinks {path : Path} {gfid : Gfid} {sb : Stat} (hl : b.lookup path = none) :
    Does dirHash b (.symlink path gfid sb)
      (b ++ [⟨path, gfid, false, true⟩], .symlink path ⟨gfid, sb⟩)
  | links {oldPath newPath : Path} {sb : Stat} {e : Entry} (hl : b.lookup oldPath = some e)
    (hd : e.dir = false) (hn : b.lookup newPath = none) :
    Does dirHash b (.link oldPath newPath sb)
      (b ++ [⟨newPath, e.gfid, false, true⟩], .link newPath ⟨e.gfid, sb⟩)
  | unlinks (path : Path) :
    Does dirHash b (.unlink path) (b.filter (fun x => x.path != path), .unlink path)
  | removes (path : Path) :
    Does dirHash b (.rmdir path) (b.filter (fun x => x.path != path), .rmdir path)
  | renames {oldPath newPath : Path} {b' : Brick} (hb : b.rename oldPath newPath = some b') :
    Does dirHash b (.rename oldPath newPath) (b', .rename (some (oldPath, newPath)))

private lemma does_of_exec {f : Fop} {r : Brick × Reply} (h : f.exec dirHash b = some r) :
    Does dirHash b f r := by
  revert h
  fun_cases Fop.exec dirHash b f with
  | case1 path gfid sb e hl hd => exact (nomatch ·)
  | case2 path gfid sb e hl hd =>
    rintro ⟨⟩
    exact .opens hl (Bool.eq_false_iff.mpr hd)
  | case3 path gfid sb hl =>
    intro h
    obtain ⟨_, rfl⟩ := lookup_of_add h
    exact .creates hl
  | case4 path gfid sb hashed =>
    intro h
    obtain ⟨hl, rfl⟩ := lookup_of_add h
    exact .makes hl
  | case5 path gfid sb =>
    intro h
    obtain ⟨hl, rfl⟩ := lookup_of_add h
    exact .symlinks hl
  | case6 oldPath newPath sb e hl hd => exact (nomatch ·)
  | case7 oldPath newPath sb e hl hd =>
    intro h
    obtain ⟨hn, rfl⟩ := lookup_of_add h
    exact .links hl (Bool.eq_false_iff.mpr hd) hn
  | case8 oldPath newPath sb hl => exact (nomatch ·)
  | case9 path e hl hd => exact (nomatch ·)
  | case10 path e hl hd =>
    rintro ⟨⟩
    exact .unlinks path
  | case11 path hl => exact (nomatch ·)
  | case12 path e hl hd => exact (nomatch ·)
  | case13 path e hl hd =>
    rintro ⟨⟩
    exact .removes path
  | case14 path hl => exact (nomatch ·)
  | case15 oldPath newPath =>
    intro h
    obtain ⟨b', hb, rfl⟩ := Option.map_eq_some_iff.mp h
    exact .renames hb

-- A directory with its record elsewhere leaves the index and what it is to hold alone.
private lemma NsInv.away (hi : NsInv b t) (p : Path) (g : Gfid) :
    NsInv (b ++ [⟨p, g, true, false⟩]) t := by
  refine { hi with mirrors := ?_, files := hi.files_snoc (fun h => by cases h) }
  rw [atHome_snoc]
  exact hi.mirrors

-- One operation: whatever it does to the brick, the index follows.
private lemma nsInv_step {f : Fop} {s : Ns} (hi : ∃ t, s.conn = .idle t ∧ NsInv s.brick t)
    (hok : Followed dirHash f s) :
    ∃ t, (nsStep fk dirHash f s).conn = .idle t ∧ NsInv (nsStep fk dirHash f s).brick t := by
  rcases s with ⟨b, c⟩
  obtain ⟨t, hc, hi⟩ := hi
  subst hc
  unfold nsStep
  cases hex : f.exec dirHash b with
  | none => exact ⟨t, rfl, hi⟩
  | some r =>
    cases does_of_exec hex with
    | opens hl hd => exact ⟨t, hi.known (hi.file_atHome (lookup_some hl).1 hd) _ _, hi⟩
    | creates hl => exact ⟨_, hi.newFile _ false hl (hok hl)⟩
    | @makes path gfid sb hashed hl =>
      cases hm : imsMkdir dirHash hashed path with
      | none => exact ⟨t, rfl, hi.away path gfid⟩
      | some cookie =>
        obtain rfl : path = cookie := imsMkdir_some hm
        exact ⟨_, hi.newFile sb true hl (hok hm)⟩
    | symlinks hl => exact ⟨_, hi.newFile _ false hl hok⟩
    | links hl hd hn => exact hi.link (hi.file_atHome (lookup_some hl).1 hd) hn
    | unlinks path | removes path => exact ⟨_, @NsInv.unlink fk b t hi path⟩
    | renames hb => exact hi.rename hb hok

end

/-- From an empty brick and a fresh index, the index mirrors the names that it is to hold after
every run of operations that it follows. -/
theorem mirrors_of_followed (fk dirHash : Bool) (fops : List Fop)
    (h : Throughout (nsStep fk dirHash) (Followed dirHash) fops ⟨[], .idle .empty⟩) :
    Mirrors (runAll (nsStep fk dirHash) fops ⟨[], .idle .empty⟩).brick.atHome
      (runAll (nsStep fk dirHash) fops ⟨[], .idle .empty⟩).conn.committed := by
  have hinit : NsInv [] Tables.empty := by
    refine { sound_empty with mirrors := ?_, files := forall_mem_nil _ }
    intro p g
    simp [Tables.empty, Brick.atHome]
  obtain ⟨t, hc, hi⟩ := runAll_inv (nsStep fk dirHash)
    (fun s => ∃ t, s.conn = .idle t ∧ NsInv s.brick t) (fun f s hs hok => nsInv_step hs hok)
    ⟨Tables.empty, rfl, hinit⟩ h
  rw [hc]
  exact hi.mirrors

/-- A directory that has its record elsewhere; in it a file, which gets a second name, is renamed
to a free path, and loses a name. -/
def sampleFops : List Fop :=
  [.mkdir (.top 'd') 6 (fun _ => 0) (some 0),
    .create ⟨['/', 'd', '/', 'a'], by decide⟩ 7 (fun _ => 0),
    .link ⟨['/', 'd', '/', 'a'], by decide⟩ (.top 'b') (fun _ => 0),
    .rename (.top 'b') (.top 'c'),
    .unlink ⟨['/', 'd', '/', 'a'], by decide⟩]

theorem mirrors_create_link_rename :
    Mirrors (runAll (nsStep true true) sampleFops ⟨[], .idle .empty⟩).brick.atHome
      (runAll (nsStep true true) sampleFops ⟨[], .idle .empty⟩).conn.committed := by
  refine mirrors_of_followed true true sampleFops
    ⟨fun h => (nomatch h), fun _ => ?_, trivial, .inr (.inr ?_), trivial, trivial⟩
  · exact ⟨by decide, by decide⟩
  · exact ⟨by decide, by decide⟩

/-- A directory with its record elsewhere is on the brick and not in the index. And where one file
is renamed over another, the brick keeps one name and the index keeps both. -/
theorem away_dir_not_mirrored :
    let away : List Fop := [.mkdir (.top 'd') 6 (fun _ => 0) (some 0)]
    let replace : List Fop :=
      [.create (.top 'a') 7 (fun _ => 0), .create (.top 'b') 8 (fun _ => 0),
        .rename (.top 'a') (.top 'b')]
    ¬Mirrors (runAll (nsStep true true) away ⟨[], .idle .empty⟩).brick
        (runAll (nsStep true true) away ⟨[], .idle .empty⟩).conn.committed ∧
      ¬Mirrors (runAll (nsStep true true) replace ⟨[], .idle .empty⟩).brick
        (runAll (nsStep true true) replace ⟨[], .idle .empty⟩).conn.committed := by
  constructor
  · intro h
    have hidx := (h (.top 'd') 6).mpr (by decide)
    exact absurd hidx (by decide)
  · intro h
    have hidx := (h (.top 'b') 8).mp (by decide)
    exact absurd hidx (by decide)

end TagItGluster.Server
