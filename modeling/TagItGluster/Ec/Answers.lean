import Mathlib.Data.List.Infix
import TagItGluster.Base.Grouping
import TagItGluster.Libglusterfs.Dict

/-!
# Answers of bricks and how they are compared

The bricks of a dispersed volume answer a file operation one by one. Two answers may be combined if
they have the same result and the same extra data, up to keys that may differ, and if what the
operation returns agrees. The new answer then takes over some of the data of the old one: blocks
add up, and the latest times are kept. Nothing that is compared changes by that. Line numbers:
`xlators/cluster/ec/src/ec-combine.c`.
-/

namespace TagItGluster.Ec

open Base Libglusterfs Option

/-- A `dict_t` with its values as bytes. -/
abbrev RawDict := AList (fun _ : Text => List UInt8)

/-- `fnmatch`, for patterns in which only `*` is special. -/
def fnmatch : Text → Text → Bool
  | [], s => s.isEmpty
  | c :: p, s =>
    if c = '*' then s.tails.any (fnmatch p)
    else match s with
      | [] => false
      | d :: s => c = d && fnmatch p s

/-- The loop of `dict_foreach_match`: the number of keys that match, or the first result of the
action below zero. -/
def foreachMatch (keyMatch : Text → Bool) (action : Text → List UInt8 → Int) :
    List (Sigma fun _ : Text => List UInt8) → Int → Int
  | [], count => count
  | ⟨key, value⟩ :: pairs, count =>
    if keyMatch key then
      if action key value < 0 then action key value
      else foreachMatch keyMatch action pairs (count + 1)
    else foreachMatch keyMatch action pairs count

/-- `dict_foreach_match` (dict.c:1267). -/
def dictForeachMatch (dict : Option RawDict) (keyMatch : Text → Bool)
    (action : Text → List UInt8 → Int) : Int :=
  match dict with
  | none => -1
  | some d => foreachMatch keyMatch action d.entries 0

/-- `dict_null_foreach_fn` (dict.c:1216). -/
def dictNullForeachFn (_ : Text) (_ : List UInt8) : Int := 0

/-- `key_value_cmp` (dict.c:144). -/
def keyValueCmp (two : RawDict) (valueIgnore : Text → Bool) (key : Text) (value : List UInt8) :
    Int :=
  match two.lookup key with
  | none => -1
  | some value2 => if valueIgnore key || value = value2 then 0 else -1

/-- `are_dicts_equal` (dict.c:180). Dictionaries of different answers are not the same object,
unless there are none. -/
def areDictsEqual (one two : Option RawDict) (keyMatch valueIgnore : Text → Bool) : Bool :=
  match one, two with
  | none, none => true
  | one, none => dictForeachMatch one keyMatch dictNullForeachFn = 0
  | one, some two =>
    let numMatches1 := dictForeachMatch one keyMatch (keyValueCmp two valueIgnore)
    if numMatches1 = -1 then false
    else
      let count := one.elim 0 (fun d => d.entries.length)
      (numMatches1 = count && count = two.entries.length) ||
        numMatches1 = dictForeachMatch (some two) keyMatch dictNullForeachFn

/-- `ec_xattr_match` (245): the keys that are compared. -/
def ecXattrMatch (key : Text) : Bool :=
  !(fnmatch "trusted.glusterfs.*.stime".toList key || key = "glusterfs.open-fd-count".toList)

/-- `ec_value_ignore` (256): the keys that have to be there, with any value. -/
def ecValueIgnore (key : Text) : Bool :=
  key = "glusterfs.content".toList ||
  key = "trusted.glusterfs.pathinfo".toList ||
  key = "glusterfs.pathinfo".toList ||
  key = "trusted.glusterfs.lockinfo".toList ||
  key = "glusterfs.open-fd-count".toList ||
  key = "glusterfs.inodelk-count".toList ||
  key = "glusterfs.entrylk-count".toList ||
  "glusterfs.clrlk".toList.isPrefixOf key ||
  key = "dht-get-iatt-in-xattr".toList ||
  "trusted.glusterfs.quota.".toList.isPrefixOf key ||
  fnmatch "trusted.glusterfs.*.xtime".toList key ||
  fnmatch "trusted.glusterfs.volume-mark.*".toList key ||
  "trusted.glusterfs.node-uuid".toList.isPrefixOf key

/-- `ec_dict_compare` (278). -/
def ecDictCompare (dict1 dict2 : Option RawDict) : Bool :=
  areDictsEqual dict1 dict2 ecXattrMatch ecValueIgnore

/-- `ia_type_t`. -/
inductive IaType where
  | inval
  | ifreg
  | ifdir
  | iflnk
  | ifblk
  | ifchr
  | ififo
  | ifsock
deriving DecidableEq

/-- `struct iatt`, without what is neither compared nor combined. The protection is given by its
twelve bits. -/
structure Iatt where
  iaIno : Nat
  iaGfid : Nat
  iaType : IaType
  iaProt : Fin 4096
  iaUid : Nat
  iaGid : Nat
  iaRdev : Nat
  iaSize : Nat
  iaBlksize : Nat
  iaBlocks : Nat
  iaAtime : Nat × Nat
  iaMtime : Nat × Nat
  iaCtime : Nat × Nat

/-- `st_mode_from_ia` (iatt.h:183). -/
def stModeFromIa (prot : Fin 4096) (type : IaType) : Nat :=
  typeBit type ||| prot
where
  typeBit : IaType → Nat
    | .ifreg => 0x8000
    | .ifdir => 0x4000
    | .iflnk => 0xa000
    | .ifblk => 0x6000
    | .ifchr => 0x2000
    | .ififo => 0x1000
    | .ifsock => 0xc000
    | .inval => 0

/-- `GF_FOP_*`, for the operations whose answers are combined. -/
inductive FopId where
  | removexattr | fremovexattr | setxattr | fsetxattr
  | symlink | link | create | mknod | mkdir
  | unlink | rmdir | setattr | fsetattr | truncate | ftruncate | write
  | fallocate | discard | zerofill | rename
  | opendir | readdir | readdirp | flush | fsync | fsyncdir | lookup | statfs
  | xattrop | fxattrop | access | getxattr | fgetxattr | open | read | stat | fstat
  | entrylk | fentrylk | inodelk | finodelk | lk
deriving DecidableEq

/-- An `ec_fop_data_t`: its operation, that of the top level operation it belongs to, and the
gfids of the inodes that this one has locked. -/
structure Fop where
  id : FopId
  topId : FopId
  locked : List Nat

/-- `gfid_to_ino` (112): the last eight bytes. -/
def gfidToIno (gfid : Nat) : Nat := gfid % 2 ^ 64

/-- `ec_iatt_is_trusted` (127). -/
def ecIattIsTrusted (fop : Fop) (iatt : Iatt) : Bool :=
  fop.topId = .lookup || fop.locked.any (fun gfid => iatt.iaIno = gfidToIno gfid)

/-- The basic fields differ, for which only the type of the new one is looked at. -/
def Iatt.basicDiffers (dst src : Iatt) : Bool :=
  dst.iaIno ≠ src.iaIno ||
  ((dst.iaType = .ifblk || dst.iaType = .ifchr) && dst.iaRdev ≠ src.iaRdev) ||
  dst.iaGfid ≠ src.iaGfid

/-- The not so stable fields differ. -/
def Iatt.unstableDiffers (dst src : Iatt) : Bool :=
  dst.iaUid ≠ src.iaUid || dst.iaGid ≠ src.iaGid ||
  (dst.iaType = .ifreg && dst.iaSize ≠ src.iaSize) ||
  stModeFromIa dst.iaProt dst.iaType ≠ stModeFromIa src.iaProt src.iaType

/-- `ec_iatt_time_merge` (99), for seconds and nanoseconds. -/
def ecIattTimeMerge (dst src : Nat × Nat) : Nat × Nat :=
  if dst.1 < src.1 ∨ (dst.1 = src.1 ∧ dst.2 < src.2) then src else dst

/-- What the new attributes take over. -/
def Iatt.merge (dst src : Iatt) : Iatt :=
  { dst with
    iaBlocks := (dst.iaBlocks + src.iaBlocks) % 2 ^ 64
    iaBlksize := max dst.iaBlksize src.iaBlksize
    iaAtime := ecIattTimeMerge dst.iaAtime src.iaAtime
    iaMtime := ecIattTimeMerge dst.iaMtime src.iaMtime
    iaCtime := ecIattTimeMerge dst.iaCtime src.iaCtime }

/-- `ec_iatt_combine` (157), for the first `count` attributes of an answer. Whether differences
matter is decided by the first of them. -/
def ecIattCombine (fop : Fop) (dst src : Fin 5 → Iatt) (count : Nat) : Option (Fin 5 → Iatt) :=
  if ∀ i : Fin 5, i < count → (dst i).basicDiffers (src i) = false ∧
      ((dst i).unstableDiffers (src i) && ecIattIsTrusted fop (dst 0)) = false then
    some fun i => if i < count then (dst i).merge (src i) else dst i
  else none

/-- `struct statvfs`. -/
structure Statvfs where
  bsize : Nat
  frsize : Nat
  blocks : Nat
  bfree : Nat
  bavail : Nat
  files : Nat
  ffree : Nat
  favail : Nat
  flag : Nat
  namemax : Nat

/-- A number of blocks in larger ones. -/
def scaleBlocks (n size size' : Nat) : Nat := n * size % 2 ^ 64 / size'

/-- `ec_statvfs_combine` (787): the new values of the destination. -/
def ecStatvfsCombine (dst src : Statvfs) : Statvfs :=
  let d := if dst.frsize < src.frsize then
      { dst with
        blocks := scaleBlocks dst.blocks dst.frsize src.frsize
        bfree := scaleBlocks dst.bfree dst.frsize src.frsize
        bavail := scaleBlocks dst.bavail dst.frsize src.frsize
        frsize := src.frsize }
    else dst
  let s := if src.frsize < dst.frsize then
      { src with
        blocks := scaleBlocks src.blocks src.frsize dst.frsize
        bfree := scaleBlocks src.bfree src.frsize dst.frsize
        bavail := scaleBlocks src.bavail src.frsize dst.frsize }
    else src
  { bsize := max dst.bsize src.bsize
    frsize := d.frsize
    blocks := min d.blocks s.blocks
    bfree := min d.bfree s.bfree
    bavail := min d.bavail s.bavail
    files := max dst.files src.files
    ffree := min dst.ffree src.ffree
    favail := min dst.favail src.favail
    flag := dst.flag &&& src.flag
    namemax := min dst.namemax src.namemax }

/-- `struct gf_flock`. -/
structure GfFlock where
  lType : Int
  lWhence : Int
  lStart : Int
  lLen : Int
  lPid : Int
  lOwner : Text
deriving DecidableEq

/-- What a brick has answered, as an `ec_cbk_data_t` has it. Of the vector only the lengths count,
and of the file its address. -/
structure Answer where
  idx : Nat
  opRet : Int
  opErrno : Int
  xdata : Option RawDict
  dict : Option RawDict
  fd : Nat
  iatt : Fin 5 → Iatt
  vector : List Nat
  statvfs : Statvfs
  flock : GfFlock

/-- A function that combines an answer, the destination, with an earlier one. -/
abbrev CombineF := Fop → Answer → Answer → Option Answer

/-- Combining the first attributes. -/
def combineIatts (count : Nat) : CombineF := fun fop dst src =>
  (ecIattCombine fop dst.iatt src.iatt count).map fun iatt => { dst with iatt := iatt }

/-- An answer that is combined if a test succeeds, with nothing to take over. -/
def combineIf (test : Answer → Answer → Bool) : CombineF := fun _ dst src =>
  if test dst src then some dst else none

/-- `ec_combine_write` (44). -/
def ecCombineWrite : CombineF := fun fop dst src =>
  match fop.id with
  | .removexattr | .fremovexattr | .setxattr | .fsetxattr => some dst
  | .symlink | .link | .create | .mknod | .mkdir => combineIatts 3 fop dst src
  | .unlink | .rmdir | .setattr | .fsetattr | .truncate | .ftruncate | .write | .fallocate
  | .discard | .zerofill => combineIatts 2 fop dst src
  | .rename => combineIatts 5 fop dst src
  | _ => none

/-- `ec_combine_opendir` (ec-dir-read.c:23). -/
def ecCombineOpendir : CombineF := combineIf fun dst src => dst.fd = src.fd

/-- `ec_combine_open` (ec-inode-read.c:711). -/
def ecCombineOpen : CombineF := combineIf fun dst src => dst.fd = src.fd

/-- `ec_combine_fsync` (ec-generic.c:240). -/
def ecCombineFsync : CombineF := combineIatts 2

/-- `ec_combine_lookup` (ec-generic.c:826). -/
def ecCombineLookup : CombineF := combineIatts 2

/-- `ec_combine_stat` (ec-inode-read.c:1585). -/
def ecCombineStat : CombineF := combineIatts 1

/-- `ec_combine_getxattr` (ec-inode-read.c:208). -/
def ecCombineGetxattr : CombineF := combineIf fun dst src => ecDictCompare dst.dict src.dict

/-- `ec_combine_xattrop` (ec-generic.c:1334). -/
def ecCombineXattrop : CombineF := combineIf fun dst src => ecDictCompare dst.dict src.dict

/-- `ec_vector_compare` (755), with the lengths as `int32_t`. -/
def ecVectorCompare (dst src : List Nat) : Bool :=
  toInt32 (dst.sum : Nat) = toInt32 (src.sum : Nat)

/-- `ec_combine_readv` (ec-inode-read.c:1287). -/
def ecCombineReadv : CombineF := fun fop dst src =>
  if ecVectorCompare dst.vector src.vector then combineIatts 1 fop dst src else none

/-- `ec_combine_lk` (ec-locks.c:973), with `ec_flock_compare` (772). -/
def ecCombineLk : CombineF := combineIf fun dst src => dst.flock = src.flock

/-- `ec_combine_statfs` (ec-generic.c:1115). -/
def ecCombineStatfs : CombineF := fun _ dst src =>
  some { dst with statvfs := ecStatvfsCombine dst.statvfs src.statvfs }

/-- The function that the callback of an operation passes to `ec_combine` (901). -/
def combineOf : FopId → Option CombineF
  | .removexattr | .fremovexattr | .setxattr | .symlink | .link | .create | .mknod | .mkdir
  | .unlink | .rmdir | .setattr | .fsetattr | .truncate | .ftruncate | .write | .fallocate
  | .discard | .zerofill | .rename => some ecCombineWrite
  | .opendir => some ecCombineOpendir
  | .open => some ecCombineOpen
  | .fsync => some ecCombineFsync
  | .lookup => some ecCombineLookup
  | .statfs => some ecCombineStatfs
  | .xattrop | .fxattrop => some ecCombineXattrop
  | .getxattr | .fgetxattr => some ecCombineGetxattr
  | .read => some ecCombineReadv
  | .stat | .fstat => some ecCombineStat
  | .lk => some ecCombineLk
  | .fsetxattr | .readdir | .readdirp | .flush | .fsyncdir | .access | .entrylk | .fentrylk
  | .inodelk | .finodelk => none

/-- `ec_combine_check` (858): the destination with what it has taken over, if the two can be
combined. -/
def ecCombineCheck (fop : Fop) (dst src : Answer) : Option Answer :=
  if dst.opRet ≠ src.opRet then none
  else if dst.opRet < 0 ∧ dst.opErrno ≠ src.opErrno then none
  else if ecDictCompare dst.xdata src.xdata = false then none
  else if 0 ≤ dst.opRet then
    match combineOf fop.id with
    | some combine => combine fop dst src
    | none => some dst
  else some dst

/-- Answers that cannot be told apart by comparing another one with them. -/
structure Alike (a c : Answer) : Prop where
  opRet : c.opRet = a.opRet
  opErrno : c.opErrno = a.opErrno
  xdata : c.xdata = a.xdata
  dict : c.dict = a.dict
  fd : c.fd = a.fd
  vector : c.vector = a.vector
  flock : c.flock = a.flock
  basic : ∀ (x : Iatt) i, x.basicDiffers (c.iatt i) = x.basicDiffers (a.iatt i)
  unstable : ∀ (x : Iatt) i, x.unstableDiffers (c.iatt i) = x.unstableDiffers (a.iatt i)

variable {fop : Fop} {a b c x : Answer} {combine : CombineF}

private lemma alike_refl (a : Answer) : Alike a a :=
  ⟨rfl, rfl, rfl, rfl, rfl, rfl, rfl, fun _ _ => rfl, fun _ _ => rfl⟩

/-- Attributes that are taken over are not compared. -/
lemma alike_of_combineIatts {count : Nat} (h : combineIatts count fop a b = some c) :
    Alike a c := by
  obtain ⟨iatt, hiatt, rfl⟩ := map_eq_some_iff.mp h
  unfold ecIattCombine at hiatt
  split at hiatt
  · cases hiatt
    refine ⟨rfl, rfl, rfl, rfl, rfl, rfl, rfl, fun x i => ?_, fun x i => ?_⟩
    · change x.basicDiffers (if _ then _ else _) = _
      split <;> rfl
    · change x.unstableDiffers (if _ then _ else _) = _
      split <;> rfl
  · cases hiatt

private lemma alike_of_combineIf {test : Answer → Answer → Bool}
    (h : combineIf test fop a b = some c) : Alike a c := by
  unfold combineIf at h
  split at h
  · cases h
    exact alike_refl _
  · cases h

private lemma isSome_combineIatts (count : Nat) (h : Alike a c) :
    (combineIatts count fop x c).isSome = (combineIatts count fop x a).isSome := by
  simp only [combineIatts, ecIattCombine, h.basic, h.unstable]
  split <;> rfl

/-- The functions that are passed to `ec_combine` return an answer like the new one, and do not
tell like answers apart. -/
structure Respects (combine : CombineF) (fop : Fop) : Prop where
  alike : ∀ {a b c}, combine fop a b = some c → Alike a c
  isSome : ∀ {a c}, Alike a c → ∀ x, (combine fop x c).isSome = (combine fop x a).isSome

private lemma respects_combineIatts (count : Nat) (fop : Fop) : Respects (combineIatts count) fop :=
  ⟨alike_of_combineIatts, fun h _ => isSome_combineIatts count h⟩

private lemma respects_combineIf {test : Answer → Answer → Bool} (fop : Fop)
    (h : ∀ {a c}, Alike a c → ∀ x, test x c = test x a) : Respects (combineIf test) fop := by
  refine ⟨alike_of_combineIf, fun hac x => ?_⟩
  simp [combineIf, h hac]

/-- An answer to a write operation is combined by its attributes, or in any case, or never. -/
lemma ecCombineWrite_cases (fop : Fop) :
    (∃ count, ∀ dst src, ecCombineWrite fop dst src = combineIatts count fop dst src) ∨
      (∀ dst src, ecCombineWrite fop dst src = some dst) ∨
        ∀ dst src, ecCombineWrite fop dst src = none := by
  obtain ⟨id, topId, locked⟩ := fop
  cases id
  all_goals first
    | exact .inl ⟨2, fun _ _ => rfl⟩
    | exact .inl ⟨3, fun _ _ => rfl⟩
    | exact .inl ⟨5, fun _ _ => rfl⟩
    | exact .inr (.inl fun _ _ => rfl)
    | exact .inr (.inr fun _ _ => rfl)

private lemma respects_write (fop : Fop) : Respects ecCombineWrite fop := by
  rcases ecCombineWrite_cases fop with ⟨count, h⟩ | h | h
  · refine ⟨fun hc => ?_, fun hac x => ?_⟩
    · rw [h] at hc
      exact alike_of_combineIatts hc
    · rw [h, h]
      exact isSome_combineIatts count hac
  · refine ⟨fun hc => ?_, fun hac x => by rw [h, h]⟩
    rw [h] at hc
    cases hc
    exact alike_refl _
  · refine ⟨fun hc => ?_, fun hac x => by rw [h, h]⟩
    rw [h] at hc
    cases hc

private lemma respects_readv (fop : Fop) : Respects ecCombineReadv fop := by
  constructor
  · intro a b c h
    unfold ecCombineReadv at h
    split at h
    · exact alike_of_combineIatts h
    · cases h
  · intro a c h x
    simp only [ecCombineReadv, h.vector]
    split
    · exact isSome_combineIatts 1 h
    · rfl

private lemma respects_statfs (fop : Fop) : Respects ecCombineStatfs fop := by
  refine ⟨fun h => ?_, fun _ _ => rfl⟩
  cases h
  exact ⟨rfl, rfl, rfl, rfl, rfl, rfl, rfl, fun _ _ => rfl, fun _ _ => rfl⟩

private lemma combineOf_cases {id : FopId} (h : combineOf id = some combine) :
    combine = ecCombineWrite ∨ combine = ecCombineReadv ∨ combine = ecCombineStatfs ∨
      (combine = ecCombineFsync ∨ combine = ecCombineLookup ∨ combine = ecCombineStat) ∨
      (combine = ecCombineOpendir ∨ combine = ecCombineOpen) ∨
      (combine = ecCombineGetxattr ∨ combine = ecCombineXattrop) ∨ combine = ecCombineLk := by
  unfold combineOf at h
  split at h
  all_goals first
    | rw [← Option.some.inj h]
      simp [true_or]
    | exact absurd h.symm (some_ne_none _)

private lemma respects_of_combineOf {id : FopId} (fop : Fop) (h : combineOf id = some combine) :
    Respects combine fop := by
  rcases combineOf_cases h with rfl | rfl | rfl | (rfl | rfl | rfl) | (rfl | rfl) |
    (rfl | rfl) | rfl
  · exact respects_write fop
  · exact respects_readv fop
  · exact respects_statfs fop
  · exact respects_combineIatts 2 fop
  · exact respects_combineIatts 2 fop
  · exact respects_combineIatts 1 fop
  · exact respects_combineIf fop fun hac _ => by rw [hac.fd]
  · exact respects_combineIf fop fun hac _ => by rw [hac.fd]
  · exact respects_combineIf fop fun hac _ => by rw [hac.dict]
  · exact respects_combineIf fop fun hac _ => by rw [hac.dict]
  · exact respects_combineIf fop fun hac _ => by rw [hac.flock]

private lemma alike_of_ecCombineCheck (h : ecCombineCheck fop a b = some c) : Alike a c := by
  unfold ecCombineCheck at h
  split at h
  · cases h
  split at h
  · cases h
  split at h
  · cases h
  split at h
  · cases hf : combineOf fop.id with
    | none =>
      simp only [hf, Option.some.injEq] at h
      exact h ▸ alike_refl a
    | some combine =>
      simp only [hf] at h
      exact (respects_of_combineOf fop hf).alike h
  · cases h
    exact alike_refl _

/-- Comparing with a combined answer is comparing with the new one. -/
lemma isSome_ecCombineCheck (h : ecCombineCheck fop a b = some c) (x : Answer) :
    (ecCombineCheck fop x c).isSome = (ecCombineCheck fop x a).isSome := by
  have hac := alike_of_ecCombineCheck h
  unfold ecCombineCheck
  rw [hac.opRet, hac.opErrno, hac.xdata]
  split
  · rfl
  split
  · rfl
  split
  · rfl
  · split
    · cases hf : combineOf fop.id with
      | none => rfl
      | some combine => exact (respects_of_combineOf fop hf).isSome hac x
    · rfl

/-- How answers to an operation are matched. -/
def matching (fop : Fop) : Matching Answer where
  join := ecCombineCheck fop
  join_right := isSome_ecCombineCheck

end TagItGluster.Ec
