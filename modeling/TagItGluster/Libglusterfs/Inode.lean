import TagItGluster.Base.Keyed
import TagItGluster.Base.Machine
import TagItGluster.Base.Text

/-!
# The inode table

An inode is in the active list while it is referenced, in the lru list while the kernel may still
ask for it, and otherwise in the list of those that are to be purged. A dentry names an inode in a
directory and references the directory; dropping it may retire the directory, whose own dentries are
then dropped as well.

Each event is what happens under one hold of the table's lock; pruning takes the lock again and is
an event of its own. An inode is known by the allocation that made it. Beside the code's fields
stand the references that callers hold and whether the inode has been retired: a retired inode is
not hashed and nobody holds it, so that no call can name it. Line numbers:
`libglusterfs/src/inode.c`.
-/

namespace TagItGluster.Libglusterfs

open Base

/-- `inode_t`; `held` and `retired` are not fields of the code. -/
structure Inode where
  ptr : Nat
  /-- `none` is the null gfid. -/
  gfid : Option Nat
  /-- `ia_type` is `IA_IFDIR`. -/
  isDir : Bool
  nlookup : Nat
  ref : Nat
  hashed : Bool
  held : Nat
  retired : Bool
deriving DecidableEq

/-- `dentry_t`. -/
structure Dentry where
  inode : Nat
  parent : Nat
  /-- The characters before the terminating zero. -/
  name : Text
  hashed : Bool
deriving DecidableEq

/-- `inode_table_t`; `destroyed` are the inodes as they were when they were freed. -/
structure InodeTable where
  lruLimit : Nat
  inodes : List Inode
  /-- The dentries of all inodes, the newest first. -/
  dentries : List Dentry
  active : List Nat
  lru : List Nat
  purge : List Nat
  activeSize : Nat
  lruSize : Nat
  purgeSize : Nat
  destroyed : List Inode
  nextPtr : Nat
deriving DecidableEq

/-- What a call is told of an inode, as far as `__inode_link` reads it. -/
structure Iatt where
  gfid : Option Nat
  isDir : Bool
deriving DecidableEq

/-- The gfid that `__is_root_gfid` (858) tests for. -/
def rootGfid : Nat := 1

/-- `table->root`, the first inode that is made. -/
def rootPtr : Nat := 0

/-- `++` on a counter of 32 bits. -/
@[irreducible] def inc32 (n : Nat) : Nat := if n + 1 = UInt32.size then 0 else n + 1

/-- `--` on a counter of 32 bits. -/
@[irreducible] def dec32 (n : Nat) : Nat := if n = 0 then UInt32.size - 1 else n - 1

namespace Inode

/-- One more reference. -/
def addRef (byCaller : Bool) (i : Inode) : Inode :=
  { i with ref := inc32 i.ref, held := if byCaller then i.held + 1 else i.held }

/-- One reference less. -/
def dropRef (byCaller : Bool) (i : Inode) : Inode :=
  { i with ref := dec32 i.ref, held := if byCaller then i.held - 1 else i.held }

/-- `__inode_unhash` (236) when an inode is retired. -/
def unhash (i : Inode) : Inode := { i with hashed := false, retired := true }

/-- What `__inode_link` writes into an inode that was not known. -/
def known (gfid : Nat) (isDir : Bool) (i : Inode) : Inode :=
  { i with gfid := some gfid, isDir := isDir, hashed := true }

end Inode

namespace InodeTable

/-- The inode at a pointer. -/
def inodeAt (ptr : Nat) (t : InodeTable) : Option Inode := t.inodes.find? (·.ptr = ptr)

/-- Change the inode at a pointer. -/
def modify (ptr : Nat) (f : Inode → Inode) (t : InodeTable) : InodeTable :=
  { t with inodes := updateAt Inode.ptr ptr f t.inodes }

/-- `inode->dentry_list`. -/
def dentriesOf (ptr : Nat) (t : InodeTable) : List Dentry := t.dentries.filter (·.inode = ptr)

/-- The first half of `list_move`. -/
def listDel (ptr : Nat) (t : InodeTable) : InodeTable :=
  { t with
    active := t.active.erase ptr
    lru := t.lru.erase ptr
    purge := t.purge.erase ptr }

/-- `__inode_activate` (400). -/
def activate (ptr : Nat) (t : InodeTable) : InodeTable :=
  let t := t.listDel ptr
  { t with active := ptr :: t.active, activeSize := inc32 t.activeSize }

/-- The list part of `__inode_passivate` (411); the dentries that it unsets come after. -/
def passivate (ptr : Nat) (t : InodeTable) : InodeTable :=
  let t := t.listDel ptr
  { t with lru := t.lru ++ [ptr], lruSize := inc32 t.lruSize }

/-- The list part of `__inode_retire`. -/
def toPurge (ptr : Nat) (t : InodeTable) : InodeTable :=
  let t := t.listDel ptr
  { t with purge := t.purge ++ [ptr], purgeSize := inc32 t.purgeSize }

/-- `__inode_retire` (433); the dentries that it unsets come after. -/
def retire (ptr : Nat) (t : InodeTable) : InodeTable := (t.toPurge ptr).modify ptr Inode.unhash

/-- What a caller of `__inode_retire` or `__inode_activate` takes from the size of the list that the
inode leaves. -/
def leaveLru (t : InodeTable) : InodeTable := { t with lruSize := dec32 t.lruSize }

/-- The same for the list of active inodes. -/
def leaveActive (t : InodeTable) : InodeTable := { t with activeSize := dec32 t.activeSize }

/-- The first half of `__inode_ref`: an inode without references is made active. -/
def wake (inode : Inode) (t : InodeTable) : InodeTable :=
  if inode.ref = 0 then t.leaveLru.activate inode.ptr else t

/-- `__inode_ref` (486); `byCaller` if it is a caller who has the reference and not a dentry. -/
def ref (byCaller : Bool) (ptr : Nat) (t : InodeTable) : InodeTable :=
  match t.inodeAt ptr with
  | none => t
  | some inode =>
    if inode.gfid = some rootGfid ∧ inode.ref ≠ 0 then t.wake inode
    else (t.wake inode).modify ptr (Inode.addRef byCaller)

/-- The second half of `__inode_unref`, for an inode without references, and the dentries that are
to be unset in turn. -/
def sleep (inode : Inode) (t : InodeTable) : InodeTable × List Dentry :=
  if inode.nlookup ≠ 0 then
    (t.leaveActive.passivate inode.ptr, (t.dentriesOf inode.ptr).filter (!·.hashed))
  else (t.leaveActive.retire inode.ptr, t.dentriesOf inode.ptr)

/-- `__inode_unref` (456), and the dentries that are to be unset in turn. -/
def unrefOne (byCaller : Bool) (ptr : Nat) (t : InodeTable) : InodeTable × List Dentry :=
  match t.inodeAt ptr with
  | none => (t, [])
  | some inode =>
    if inode.gfid = some rootGfid then (t, [])
    else if dec32 inode.ref = 0 then (t.modify ptr (Inode.dropRef byCaller)).sleep inode
    else (t.modify ptr (Inode.dropRef byCaller), [])

/-- `__dentry_unset` (130) without what it leads to. -/
def unsetOne (dentry : Dentry) (t : InodeTable) : InodeTable × List Dentry :=
  unrefOne false dentry.parent { t with dentries := t.dentries.erase dentry }

/-- `__dentry_unset` of some dentries, each with all that it leads to before the next. -/
def unsetAll : Nat → List Dentry → InodeTable → InodeTable
  | 0, _, t => t
  | _, [], t => t
  | fuel + 1, dentry :: rest, t =>
    unsetAll fuel ((t.unsetOne dentry).2 ++ rest) (t.unsetOne dentry).1

/-- Each step takes one dentry away, so that their number is enough. -/
def unset (ds : List Dentry) (t : InodeTable) : InodeTable := unsetAll t.dentries.length ds t

/-- `__inode_unref` with all that it leads to. -/
def unref (ptr : Nat) (t : InodeTable) : InodeTable :=
  (t.unrefOne true ptr).1.unset (t.unrefOne true ptr).2

/-- `__inode_create` (594). -/
def create (t : InodeTable) : InodeTable :=
  { t with
    inodes := ⟨t.nextPtr, none, false, 0, 0, false, 0, false⟩ :: t.inodes
    lru := t.nextPtr :: t.lru
    lruSize := inc32 t.lruSize
    nextPtr := t.nextPtr + 1 }

/-- `inode_new` (639). -/
def new (t : InodeTable) : InodeTable := t.create.ref true t.nextPtr

/-- `__inode_lookup` (699). -/
def lookup (ptr : Nat) (t : InodeTable) : InodeTable :=
  t.modify ptr fun i =>
    { i with nlookup := if i.nlookup + 1 = UInt64.size then 0 else i.nlookup + 1 }

/-- `__inode_forget` (711); the assertion before the subtraction only logs. -/
def forget (ptr n : Nat) (t : InodeTable) : InodeTable :=
  t.modify ptr fun i =>
    { i with
      nlookup := if n = 0 then 0
        else if n ≤ i.nlookup then i.nlookup - n
        else UInt64.size - (n - i.nlookup) }

/-- `__dentry_grep` (728). -/
def dentryGrep (parent : Nat) (name : Text) (t : InodeTable) : Option Dentry :=
  t.dentries.find? fun d => d.hashed && d.parent = parent && d.name = name

/-- `__inode_find` (873); `table->root` is returned without a look at it. -/
def find (gfid : Nat) (t : InodeTable) : Option Nat :=
  if gfid = rootGfid then some rootPtr
  else (t.inodes.find? fun i => i.hashed && i.gfid = some gfid).map Inode.ptr

/-- `__foreach_ancestor_dentry` (155) with `__check_cycle` (197), to a depth; `none` if that is not
enough. -/
def foreachAncestorDentry (link : Nat) (t : InodeTable) : Nat → Dentry → Option Bool
  | 0, _ => none
  | depth + 1, d =>
    if d.parent = link then some true
    else (t.dentriesOf d.parent).anyM (foreachAncestorDentry link t depth)

/-- `__is_dentry_cyclic` (211). -/
def isDentryCyclic (d : Dentry) (t : InodeTable) : Option Bool :=
  foreachAncestorDentry d.inode t t.dentries.length d

/-- `__dentry_create` (556). -/
def dentryCreate (d : Dentry) (t : InodeTable) : InodeTable :=
  let t := t.ref false d.parent
  { t with dentries := d :: t.dentries }

/-- `__dentry_hash` (83). -/
def dentryHash (d : Dentry) (t : InodeTable) : InodeTable :=
  { t with dentries := { d with hashed := true } :: t.dentries.erase d }

/-- The end of `__inode_link`: a dentry for `link` in `parent`, and what is returned. `allocated` is
whether there is memory for it, `check` whether the inode was known before. -/
def linkDentry (allocated check : Bool) (link parent : Nat) (name : Text) (t : InodeTable) :
    InodeTable × Option Nat :=
  let old := t.dentryGrep parent name
  if old.map Dentry.inode = some link then (t, some link)
  else if !allocated then (t, none)
  else
    let d : Dentry := ⟨link, parent, name, false⟩
    let t := t.dentryCreate d
    if check && t.isDentryCyclic d ≠ some false then (t.unset [d], none)
    else ((t.dentryHash d).unset old.toList, some link)

/-- The start of `__inode_link`: the inode that is linked, and whether it was known before. -/
def linkInode (inode : Nat) (iatt : Option Iatt) (t : InodeTable) :
    Option (InodeTable × Nat × Bool) :=
  match t.inodeAt inode with
  | none => none
  | some i =>
    if i.hashed then some (t, inode, true)
    else
      match iatt with
      | some ⟨some gfid, isDir⟩ =>
        match t.find gfid with
        | some old => some (t, old, true)
        | none => some (t.modify inode (Inode.known gfid isDir), inode, false)
      | _ => none

/-- The test of the parent at the start of `__inode_link`. -/
def parentOk (parent : Option Nat) (name : Option Text) (t : InodeTable) : Bool :=
  match parent with
  | none => true
  | some p => ((t.inodeAt p).map Inode.isDir).getD false && name.getD [] ≠ []

/-- `__inode_link` (928), with the inode that it returns. -/
def linkCore (allocated : Bool) (inode : Nat) (parent : Option Nat) (name : Option Text)
    (iatt : Option Iatt) (t : InodeTable) : InodeTable × Option Nat :=
  if !t.parentOk parent name then (t, none)
  else
    match t.linkInode inode iatt with
    | none => (t, none)
    | some (t, link, check) =>
      if name = some ['.'] ∨ name = some ['.', '.'] then (t, some link)
      else if '/' ∈ name.getD [] then (t, none)
      else
        match parent with
        | none => (t, some link)
        | some p => t.linkDentry allocated check link p (name.getD [])

/-- `inode_link` (1036). -/
def link (allocated : Bool) (inode : Nat) (parent : Option Nat) (name : Option Text)
    (iatt : Option Iatt) (t : InodeTable) : InodeTable :=
  match t.linkCore allocated inode parent name iatt with
  | (t, none) => t
  | (t, some linked) => t.ref true linked

/-- `__dentry_search_for_inode` (282). -/
def dentrySearchForInode (inode parent : Nat) (name : Text) (t : InodeTable) : Option Dentry :=
  match (t.inodeAt parent).bind Inode.gfid with
  | none => none
  | some gfid => (t.dentriesOf inode).find? fun d =>
      (t.inodeAt d.parent).bind Inode.gfid = some gfid && d.name = name

/-- `__inode_unlink` (1188). -/
def unlink (inode parent : Nat) (name : Text) (t : InodeTable) : InodeTable :=
  t.unset (t.dentrySearchForInode inode parent name).toList

/-- `inode_rename` (1236); the source is unlinked whatever came of the link. -/
def rename (allocated : Bool) (inode srcdir : Nat) (srcname : Text) (dstdir : Option Nat)
    (dstname : Option Text) (iatt : Option Iatt) (t : InodeTable) : InodeTable :=
  (t.linkCore allocated inode dstdir dstname iatt).1.unlink inode srcdir srcname

/-- The loop of `inode_table_prune`; it retires an inode with each turn. -/
def pruneLru : Nat → InodeTable → InodeTable
  | 0, t => t
  | fuel + 1, t =>
    if t.lruLimit ≠ 0 ∧ t.lruLimit < t.lruSize then
      match t.lru with
      | [] => t
      | entry :: _ =>
        pruneLru fuel ((t.leaveLru.retire entry).unset (t.dentriesOf entry))
    else t

/-- The end of `inode_table_prune`. -/
def destroyPurge (t : InodeTable) : InodeTable :=
  { t with
    inodes := t.inodes.filter (·.ptr ∉ t.purge)
    purge := []
    purgeSize := 0
    destroyed := t.inodes.filter (·.ptr ∈ t.purge) ++ t.destroyed }

/-- `inode_table_prune` (1466). -/
def prune (t : InodeTable) : InodeTable := (pruneLru t.inodes.length t).destroyPurge

/-- `inode_table_new` (1530) with `__inode_table_init_root` (1510). -/
def init (lruLimit : Nat) : InodeTable :=
  { lruLimit
    inodes := [⟨rootPtr, some rootGfid, true, 0, 0, true, 0, false⟩]
    dentries := []
    active := []
    lru := [rootPtr]
    purge := []
    activeSize := 0
    lruSize := 1
    purgeSize := 0
    destroyed := []
    nextPtr := rootPtr + 1 }

/-- A call can name the inode. -/
def usable (ptr : Nat) (t : InodeTable) : Bool :=
  ((t.inodeAt ptr).map fun i => !i.retired).getD false

/-- A caller can release a reference: the root's are not counted. -/
def releasable (ptr : Nat) (t : InodeTable) : Bool :=
  ((t.inodeAt ptr).map fun i => i.gfid = some rootGfid || i.held ≠ 0).getD false

end InodeTable

/-- The calls on a table, each under one hold of the lock. -/
inductive InodeEvent where
  | new
  | ref (ptr : Nat)
  | unref (ptr : Nat)
  | lookup (ptr : Nat)
  | forget (ptr n : Nat)
  | link (allocated : Bool) (inode : Nat) (parent : Option Nat) (name : Option Text)
      (iatt : Option Iatt)
  | unlink (inode parent : Nat) (name : Text)
  | rename (allocated : Bool) (inode srcdir : Nat) (srcname : Text) (dstdir : Option Nat)
      (dstname : Option Text) (iatt : Option Iatt)
  | prune
deriving DecidableEq

namespace InodeTable

/-- One event; a call that names an inode that nobody can have is none. -/
def step : InodeEvent → InodeTable → InodeTable
  | .new, t => t.new
  | .ref ptr, t => if t.usable ptr then t.ref true ptr else t
  | .unref ptr, t => if t.usable ptr && t.releasable ptr then t.unref ptr else t
  | .lookup ptr, t => if t.usable ptr then t.lookup ptr else t
  | .forget ptr n, t => if t.usable ptr then t.forget ptr n else t
  | .link allocated inode parent name iatt, t =>
    if t.usable inode && parent.all t.usable then t.link allocated inode parent name iatt else t
  | .unlink inode parent name, t =>
    if t.usable inode && t.usable parent then t.unlink inode parent name else t
  | .rename allocated inode srcdir srcname dstdir dstname iatt, t =>
    if t.usable inode && t.usable srcdir && dstdir.all t.usable then
      t.rename allocated inode srcdir srcname dstdir dstname iatt
    else t
  | .prune, t => t.prune

end InodeTable

end TagItGluster.Libglusterfs
