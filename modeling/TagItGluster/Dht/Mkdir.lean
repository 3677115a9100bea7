import TagItGluster.Server.Namespace

/-!
# Directories on a distributed volume

`dht_mkdir` creates a directory first on the subvolume that its name hashes to and then on
all others, and tells each brick with the key `imess-dht-hashed` which of the two it is. The
self-heal of a directory creates it where it is missing with a dictionary of its own, which
has no such key, and a brick that finds no key indexes the directory. Line numbers:
`xlators/cluster/dht/src/dht-common.c`.
-/

namespace TagItGluster.Dht

open Base Xdb Server List

/-- The bricks of a volume, in the order of the subvolumes. -/
abbrev Volume := List Ns

/-- Wind one mkdir to some subvolumes, with or without a value for `imess-dht-hashed`. All
bricks have `enable-dir-hash` on. -/
def windMkdir (fk : Bool) (key : Option Int) (target : Nat → Bool) (path : Path) (gfid : Gfid)
    (sb : Stat) (vol : Volume) : Volume :=
  vol.mapIdx (fun i s => if target i then nsStep fk true (.mkdir path gfid sb key) s else s)

/-- A mkdir or the self-heal of a directory. `reaches` tells which bricks carry a call out,
`missing` the subvolumes that the self-heal winds to (an `ENOENT` in the layout, or all with
`force`). -/
inductive DirOp where
  | mkdir (path : Path) (gfid : Gfid) (sb : Stat) (reaches : Nat → Bool)
  | selfheal (path : Path) (gfid : Gfid) (sb : Stat) (missing reaches : Nat → Bool)

variable (hashedSubvol : Path → Option Nat)

/-- `dht_mkdir` (5757) and `dht_mkdir_hashed_cbk` (5675): without a hashed subvolume, or when the
mkdir fails there, nothing else is wound. -/
def dhtMkdir (fk : Bool) (path : Path) (gfid : Gfid) (sb : Stat) (reaches : Nat → Bool)
    (vol : Volume) : Volume :=
  match hashedSubvol path with
  | none => vol
  | some h =>
    match vol[h]? with
    | none => vol
    | some s =>
      if reaches h && ((Fop.mkdir path gfid sb (some 1)).exec true s.brick).isSome then
        windMkdir fk (some 0) (fun i => i != h && reaches i) path gfid sb
          (windMkdir fk (some 1) (fun i => i == h) path gfid sb vol)
      else vol

/-- `dht_selfheal_dir_mkdir` (dht-selfheal.c:1175). -/
def dhtSelfhealDirMkdir (fk : Bool) (path : Path) (gfid : Gfid) (sb : Stat)
    (missing reaches : Nat → Bool) (vol : Volume) : Volume :=
  windMkdir fk none (fun i => missing i && reaches i) path gfid sb vol

/-- One operation of DHT. -/
def dirStep (fk : Bool) : DirOp → Volume → Volume
  | .mkdir path gfid sb reaches, vol => dhtMkdir hashedSubvol fk path gfid sb reaches vol
  | .selfheal path gfid sb missing reaches, vol =>
    dhtSelfhealDirMkdir fk path gfid sb missing reaches vol

/-- The brick has the directory. -/
def hasDir (s : Ns) (path : Path) : Prop := path ∈ s.brick.map Entry.path

/-- The brick has the directory in its index. -/
def indexed (s : Ns) (path : Path) : Prop := path ∈ s.conn.committed.xfile.map XFile.path

instance (s : Ns) (path : Path) : Decidable (hasDir s path) :=
  inferInstanceAs (Decidable (path ∈ s.brick.map Entry.path))

instance (s : Ns) (path : Path) : Decidable (indexed s path) :=
  inferInstanceAs (Decidable (path ∈ s.conn.committed.xfile.map XFile.path))

/-- Every directory is in the index of exactly one brick, the hashed one. -/
def IndexedOnce (vol : Volume) : Prop :=
  ∀ path, (∃ s ∈ vol, hasDir s path) → ∃ h, hashedSubvol path = some h ∧
    ∀ i, (∃ s, vol[i]? = some s ∧ indexed s path) ↔ i = h

/-- A mkdir on the brick would create the directory. -/
def creates (s : Ns) (path : Path) : Prop := ¬hasDir s path ∧ s.brick.hasParent path = true

/-- No self-heal creates the directory away from its hashed subvolume. A mkdir or a self-heal
that creates it on its hashed subvolume brings an inode that is new to the index there. -/
def HealsNothing : DirOp → Volume → Prop
  | .mkdir path gfid _ _, vol => ∀ h s, hashedSubvol path = some h → vol[h]? = some s →
    creates s path → FreshInode s.conn.db gfid
  | .selfheal path gfid _ missing reaches, vol => ∀ i s, vol[i]? = some s →
    missing i = true → reaches i = true → creates s path →
      hashedSubvol path = some i ∧ FreshInode s.conn.db gfid

section

variable {hashedSubvol}

/-- The index of brick `i` holds the directories that hash to it. -/
private def BrickInv (hashedSubvol : Path → Option Nat) (i : Nat) (s : Ns) : Prop :=
  ∃ t, s.conn = .idle t ∧ Sound t ∧
    ∀ p, p ∈ t.xfile.map XFile.path ↔ hasDir s p ∧ hashedSubvol p = some i

private lemma lookup_eq_none (b : Brick) (p : Path) :
    b.lookup p = none ↔ p ∉ b.map Entry.path := by
  simp [Brick.lookup, not_and]

variable {s : Ns} {path : Path} {fk : Bool} {key : Option Int}

private lemma add_eq_none (gfid : Gfid) (home : Bool) (h : ¬creates s path) :
    s.brick.add path gfid true home = none := by
  unfold Brick.add
  rw [if_neg]
  intro hc
  rw [Bool.and_eq_true, Option.isNone_iff_eq_none, lookup_eq_none] at hc
  exact h hc

private lemma add_eq_some (gfid : Gfid) (home : Bool) (h : creates s path) :
    s.brick.add path gfid true home = some (s.brick ++ [⟨path, gfid, true, home⟩]) := by
  unfold Brick.add
  rw [if_pos]
  rw [Bool.and_eq_true, Option.isNone_iff_eq_none, lookup_eq_none]
  exact h

private lemma mkdir_eq_self (gfid : Gfid) (sb : Stat) (h : ¬creates s path) :
    nsStep fk true (.mkdir path gfid sb key) s = s := by
  simp [nsStep, Fop.exec, add_eq_none gfid _ h]

private lemma mkdir_eq (gfid : Gfid) (sb : Stat) (h : creates s path) :
    nsStep fk true (.mkdir path gfid sb key) s =
      ⟨s.brick ++ [⟨path, gfid, true, (imsMkdir true key path).isSome⟩],
        syncStep fk ⟨0, .mkdir (imsMkdir true key path) ⟨gfid, sb⟩⟩ s.conn⟩ := by
  simp [nsStep, Fop.exec, add_eq_some gfid _ h]

private lemma hasDir_mkdir {p : Path} {gfid : Gfid} {sb : Stat} :
    hasDir (nsStep fk true (.mkdir path gfid sb key) s) p ↔
      hasDir s p ∨ (p = path ∧ creates s path) := by
  by_cases h : creates s path
  · rw [mkdir_eq gfid sb h]
    simp [hasDir, h]
  · rw [mkdir_eq_self gfid sb h]
    simp [h]

-- A mkdir marked as not hashed leaves the index alone.
private lemma BrickInv.mkdir_other {i : Nat} (hi : BrickInv hashedSubvol i s) (gfid : Gfid)
    (sb : Stat) (hne : hashedSubvol path ≠ some i) :
    BrickInv hashedSubvol i (nsStep fk true (.mkdir path gfid sb (some 0)) s) := by
  obtain ⟨t, hc, hs, hx⟩ := hi
  by_cases h : creates s path
  · refine ⟨t, ?_, hs, ?_⟩
    · rw [mkdir_eq gfid sb h, hc]
      rfl
    intro p
    rw [hx p, hasDir_mkdir]
    constructor
    · rintro ⟨hd, hp⟩
      exact ⟨.inl hd, hp⟩
    · rintro ⟨hd | ⟨rfl, _⟩, hp⟩
      · exact ⟨hd, hp⟩
      · exact absurd hp hne
  · rw [mkdir_eq_self gfid sb h]
    exact ⟨t, hc, hs, hx⟩

-- A mkdir that is indexed belongs on the hashed brick.
private lemma BrickInv.mkdir_hashed {i : Nat} (hi : BrickInv hashedSubvol i s) (gfid : Gfid)
    (sb : Stat) (hkey : imsMkdir true key path = some path)
    (hf : creates s path → hashedSubvol path = some i ∧ FreshInode s.conn.db gfid) :
    BrickInv hashedSubvol i (nsStep fk true (.mkdir path gfid sb key) s) := by
  obtain ⟨t, hc, hs, hx⟩ := hi
  by_cases h : creates s path
  · obtain ⟨hp, hfresh⟩ := hf h
    rw [hc] at hfresh
    have hfree : path ∉ t.xfile.map XFile.path := fun hm => h.1 ((hx path).mp hm).1
    obtain ⟨hrun, hs'⟩ := @Sound.newFile fk t gfid path hs sb hfree hfresh
    refine ⟨withNewFile t gfid path sb, ?_, hs', ?_⟩
    · rw [mkdir_eq gfid sb h, hc, hkey]
      exact congrArg Prod.snd hrun
    intro p
    rw [hasDir_mkdir]
    simp only [withNewFile, withEntry, map_append, map_singleton, mem_append, mem_singleton, hx p]
    constructor
    · rintro (⟨hd, hq⟩ | rfl)
      · exact ⟨.inl hd, hq⟩
      · exact ⟨.inr ⟨rfl, h⟩, hp⟩
    · rintro ⟨hd | ⟨rfl, _⟩, hq⟩
      · exact .inl ⟨hd, hq⟩
      · exact .inr rfl
  · rw [mkdir_eq_self gfid sb h]
    exact ⟨t, hc, hs, hx⟩

end

section

variable {hashedSubvol} {fk : Bool} {vol : Volume}

/-- A directory that is anywhere is on its hashed subvolume. -/
private structure VolInv (hashedSubvol : Path → Option Nat) (vol : Volume) : Prop where
  brick : ∀ (i : Nat) s, vol[i]? = some s → BrickInv hashedSubvol i s
  located : ∀ (i : Nat) s p, vol[i]? = some s → hasDir s p →
    ∃ (h : Nat) (s' : Ns), hashedSubvol p = some h ∧ vol[h]? = some s' ∧ hasDir s' p

variable {key : Option Int} {target : Nat → Bool} {path : Path} {gfid : Gfid} {sb : Stat}

private lemma windMkdir_get (i : Nat) :
    (windMkdir fk key target path gfid sb vol)[i]? =
      vol[i]?.map fun s => if target i then nsStep fk true (.mkdir path gfid sb key) s else s := by
  simp [windMkdir]

private lemma hasDir_wind {p : Path} {i : Nat} {s : Ns} (hs : vol[i]? = some s) (hd : hasDir s p) :
    ∃ s', (windMkdir fk key target path gfid sb vol)[i]? = some s' ∧ hasDir s' p := by
  rw [windMkdir_get, hs]
  refine ⟨_, rfl, ?_⟩
  split
  · exact hasDir_mkdir.mpr (.inl hd)
  · exact hd

private lemma VolInv.wind (hi : VolInv hashedSubvol vol)
    (hbrick : ∀ i s, vol[i]? = some s → target i →
      BrickInv hashedSubvol i (nsStep fk true (.mkdir path gfid sb key) s))
    (hloc : ∀ i s, vol[i]? = some s → target i → creates s path →
      ∃ h s', hashedSubvol path = some h ∧
        (windMkdir fk key target path gfid sb vol)[h]? = some s' ∧ hasDir s' path) :
    VolInv hashedSubvol (windMkdir fk key target path gfid sb vol) := by
  constructor
  · intro i s' hs'
    rw [windMkdir_get] at hs'
    obtain ⟨s, hs, rfl⟩ := Option.map_eq_some_iff.mp hs'
    split
    · next ht => exact hbrick i s hs ht
    · exact hi.brick i s hs
  · intro i s' p hs' hd
    rw [windMkdir_get] at hs'
    obtain ⟨s, hs, rfl⟩ := Option.map_eq_some_iff.mp hs'
    have hnew : hasDir s p ∨ target i ∧ p = path ∧ creates s path := by
      split at hd
      · next ht => exact (hasDir_mkdir.mp hd).imp_right fun h => ⟨ht, h⟩
      · exact .inl hd
    rcases hnew with hd | ⟨ht, rfl, hc⟩
    · obtain ⟨h, s₁, hp, hs₁, hd₁⟩ := hi.located i s p hs hd
      obtain ⟨s₂, hs₂, hd₂⟩ := hasDir_wind hs₁ hd₁
      exact ⟨h, s₂, hp, hs₂, hd₂⟩
    · exact hloc i s hs ht hc

-- Either nothing is wound, or the hashed brick creates the directory first.
private lemma dhtMkdir_cases (path : Path) (gfid : Gfid) (sb : Stat) (reaches : Nat → Bool) :
    dhtMkdir hashedSubvol fk path gfid sb reaches vol = vol ∨
    ∃ h s, hashedSubvol path = some h ∧ vol[h]? = some s ∧ creates s path ∧
      dhtMkdir hashedSubvol fk path gfid sb reaches vol =
        windMkdir fk (some 0) (fun i => i != h && reaches i) path gfid sb
          (windMkdir fk (some 1) (fun i => i == h) path gfid sb vol) := by
  unfold dhtMkdir
  split
  · exact .inl rfl
  next h hh =>
  split
  · exact .inl rfl
  next s hv =>
  split
  · next hc =>
    refine .inr ⟨h, s, hh, hv, ?_, rfl⟩
    by_contra hn
    simp [Fop.exec, add_eq_none gfid _ hn] at hc
  · exact .inl rfl

variable (hi : VolInv hashedSubvol vol)
include hi

private lemma volInv_mkdir {reaches : Nat → Bool}
    (hok : HealsNothing hashedSubvol (.mkdir path gfid sb reaches) vol) :
    VolInv hashedSubvol (dhtMkdir hashedSubvol fk path gfid sb reaches vol) := by
  obtain hself | ⟨h, s, hh, hv, hcr, heq⟩ :=
    @dhtMkdir_cases hashedSubvol fk vol path gfid sb reaches
  · rw [hself]
    exact hi
  rw [heq]
  have hthere : (windMkdir fk (some 1) (fun i => i == h) path gfid sb vol)[h]? =
      some (nsStep fk true (.mkdir path gfid sb (some 1)) s) := by
    rw [windMkdir_get, hv]
    simp
  have hdir : hasDir (nsStep fk true (.mkdir path gfid sb (some 1)) s) path :=
    hasDir_mkdir.mpr (.inr ⟨rfl, hcr⟩)
  have hfirst : VolInv hashedSubvol
      (windMkdir fk (some 1) (fun i => i == h) path gfid sb vol) := by
    refine hi.wind ?_ (fun _ _ _ _ _ => ⟨h, _, hh, hthere, hdir⟩)
    intro i s' hs' ht
    cases beq_iff_eq.mp ht
    exact (hi.brick h s' hs').mkdir_hashed gfid sb rfl (fun hc => ⟨hh, hok h s' hh hs' hc⟩)
  refine hfirst.wind ?_ ?_
  · intro i s' hs' ht
    rw [Bool.and_eq_true, bne_iff_ne] at ht
    refine (hfirst.brick i s' hs').mkdir_other gfid sb ?_
    rw [hh]
    exact fun he => ht.1 (Option.some.inj he).symm
  · intro _ _ _ _ _
    obtain ⟨s₂, hs₂, hd₂⟩ := hasDir_wind hthere hdir
    exact ⟨h, s₂, hh, hs₂, hd₂⟩

private lemma volInv_selfheal {missing reaches : Nat → Bool}
    (hok : HealsNothing hashedSubvol (.selfheal path gfid sb missing reaches) vol) :
    VolInv hashedSubvol (dhtSelfhealDirMkdir fk path gfid sb missing reaches vol) := by
  refine hi.wind ?_ ?_
  · intro i s hs ht
    rw [Bool.and_eq_true] at ht
    exact (hi.brick i s hs).mkdir_hashed gfid sb rfl (hok i s hs ht.1 ht.2)
  intro i s hs ht hc
  refine ⟨i, nsStep fk true (.mkdir path gfid sb none) s, ?_, ?_, ?_⟩
  · rw [Bool.and_eq_true] at ht
    exact (hok i s hs ht.1 ht.2 hc).1
  · rw [windMkdir_get, hs]
    simp [ht]
  · exact hasDir_mkdir.mpr (.inr ⟨rfl, hc⟩)

private lemma VolInv.indexedOnce : IndexedOnce hashedSubvol vol := by
  rintro path ⟨s, hs, hd⟩
  obtain ⟨i, hi'⟩ := mem_iff_getElem?.mp hs
  obtain ⟨h, s', hp, hs', hd'⟩ := hi.located i s path hi' hd
  refine ⟨h, hp, ?_⟩
  intro j
  constructor
  · rintro ⟨s₁, hs₁, hx⟩
    obtain ⟨t, hc, _, hidx⟩ := hi.brick j s₁ hs₁
    rw [indexed, hc] at hx
    have hj := ((hidx path).mp hx).2
    rw [hp] at hj
    exact (Option.some.inj hj).symm
  · rintro rfl
    obtain ⟨t, hc, _, hidx⟩ := hi.brick j s' hs'
    refine ⟨s', hs', ?_⟩
    rw [indexed, hc]
    exact (hidx path).mpr ⟨hd', hp⟩

end

/-- On fresh bricks, every directory is in the index of its hashed brick and of no other,
after every run of mkdirs and self-heals in which no self-heal creates a directory away from
its hashed subvolume. -/
theorem indexedOnce_of_healsNothing (fk : Bool) (n : Nat) (ops : List DirOp)
    (h : Throughout (dirStep hashedSubvol fk) (HealsNothing hashedSubvol) ops
      (List.replicate n ⟨[], .idle .empty⟩)) :
    IndexedOnce hashedSubvol
      (runAll (dirStep hashedSubvol fk) ops (List.replicate n ⟨[], .idle .empty⟩)) := by
  have hinit : VolInv hashedSubvol (List.replicate n ⟨[], .idle .empty⟩) := by
    constructor
    · intro i s hs
      rw [eq_of_mem_replicate (mem_of_getElem? hs)]
      refine ⟨Tables.empty, rfl, sound_empty, ?_⟩
      intro p
      simp [Tables.empty, hasDir]
    · intro i s p hs hd
      rw [eq_of_mem_replicate (mem_of_getElem? hs)] at hd
      cases hd
  have hrun := runAll_inv (dirStep hashedSubvol fk) (VolInv hashedSubvol) (fun op vol hv hok => ?_)
    hinit h
  · exact hrun.indexedOnce
  · cases op with
    | mkdir path gfid sb reaches => exact volInv_mkdir hv hok
    | selfheal path gfid sb missing reaches => exact volInv_selfheal hv hok

/-- A directory is made on two bricks, and a self-heal of it finds it on both. -/
theorem indexedOnce_mkdir_heal :
    IndexedOnce (fun _ => some 0) (runAll (dirStep (fun _ => some 0) true)
      [.mkdir (.top 'd') 7 (fun _ => 0) (fun _ => true),
        .selfheal (.top 'd') 7 (fun _ => 0) (fun _ => true) (fun _ => true)]
      (List.replicate 2 ⟨[], .idle .empty⟩)) := by
  refine indexedOnce_of_healsNothing _ true 2 _ ⟨?_, ?_, trivial⟩
  · intro h s hh hs _
    cases hh
    cases hs
    exact ⟨by decide, by decide⟩
  intro i s hs _ _ hc
  match i with
  | 0 =>
    cases hs
    exact absurd hc.1 (by decide)
  | 1 =>
    cases hs
    exact absurd hc.1 (by decide)
  | i + 2 => cases hs

/-- The second brick is down during the mkdir. The self-heal makes the directory there, and
it is in the index of both bricks. -/
theorem heal_indexes_again : ¬IndexedOnce (fun _ => some 0) (runAll (dirStep (fun _ => some 0) true)
      [.mkdir (.top 'd') 7 (fun _ => 0) (fun i => i == 0),
        .selfheal (.top 'd') 7 (fun _ => 0) (fun i => i == 1) (fun _ => true)]
      (List.replicate 2 ⟨[], .idle .empty⟩)) := by
  intro h
  obtain ⟨j, hj, hidx⟩ := h (.top 'd') ⟨_, mem_cons_self, by decide⟩
  cases hj
  exact absurd ((hidx 1).mp ⟨_, rfl, by decide⟩) (by decide)

end TagItGluster.Dht
