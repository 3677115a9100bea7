import TagItGluster.Base.Machine
import TagItGluster.Xdb.Isolation

/-!
# Callbacks of the imess-server translator

The reply callbacks of `imess-server.c`. Each of them updates the index at once, or, with
`async_update`, hands a task to the worker of `imess-server-async.c`. Latency logging and
the failure of an allocation are left out. Line numbers:
`xlators/features/imess-server/src/imess-server.c`.
-/

namespace TagItGluster.Server

open Base Xdb

/-- The parts of `struct iatt` that are read: the gfid, and the attributes that
`iatt_to_stat` (iatt.h:301) converts. -/
structure Iatt where
  gfid : Gfid
  stat : Stat

/-- `ims_task_t`, by its `op`, with the fields that are set for it. -/
inductive Task where
  | insertNewFile (gfid : Option Gfid) (path : Path) (sb : Stat)
  | insertStat (gfid : Option Gfid) (sb : Stat)
  | updateStat (gfid : Option Gfid) (sb : Stat)
  | linkFile (gfid : Option Gfid) (path : Option Path)
  | unlinkFile (path : Option Path)
  | rename (path extra : Option Path)
  | insertXattr (attr : XAttr)
  | removeXattr

/-- What a callback does for the index: nothing, an operation at once, or a task. -/
inductive Action where
  | skip
  | op (p : Op Int)
  | put (task : Task)

/-- `insert_new_xdb_entry` (26). -/
def insertNewXdbEntry (asyncUpdate : Bool) (buf : Iatt) (path : Path) : Action :=
  if asyncUpdate then .put (.insertNewFile (some buf.gfid) path buf.stat)
  else .op (imsXdbInsertNewFile (some buf.gfid) path buf.stat)

/-- `unlink_from_xdb` (62). -/
def unlinkFromXdb (asyncUpdate : Bool) (path : Path) : Action :=
  if asyncUpdate then .put (.unlinkFile (some path)) else .op (imsXdbUnlinkFile (some path))

/-- `ims_mkdir` (146): the cookie that the callback gets, from the value of `imess-dht-hashed` in
the request. A request without the key is wound with its path, after a warning. -/
def imsMkdir (dirHash : Bool) (hashed : Option Int) (path : Path) : Option Path :=
  if dirHash then
    match hashed with
    | none => some path
    | some hashed => if hashed = 0 then none else some path
  else some path

/-- `ims_mkdir_cbk` (97): the cookie is `NULL` at a non-hashed location. -/
def imsMkdirCbk (asyncUpdate : Bool) (cookie : Option Path) (buf : Iatt) : Action :=
  match cookie with
  | none => .skip
  | some path => insertNewXdbEntry asyncUpdate buf path

/-- `ims_create_cbk` (474). -/
def imsCreateCbk (asyncUpdate : Bool) (cookie : Path) (buf : Iatt) : Action :=
  insertNewXdbEntry asyncUpdate buf cookie

/-- `ims_symlink_cbk` (628). -/
def imsSymlinkCbk (asyncUpdate : Bool) (cookie : Path) (buf : Iatt) : Action :=
  insertNewXdbEntry asyncUpdate buf cookie

/-- `ims_unlink_cbk` (185). -/
def imsUnlinkCbk (asyncUpdate : Bool) (cookie : Path) : Action := unlinkFromXdb asyncUpdate cookie

/-- `ims_rmdir_cbk` (244). -/
def imsRmdirCbk (asyncUpdate : Bool) (cookie : Path) : Action := unlinkFromXdb asyncUpdate cookie

/-- `ims_link_cbk` (687). -/
def imsLinkCbk (asyncUpdate : Bool) (cookie : Path) (buf : Iatt) : Action :=
  if asyncUpdate then .put (.linkFile (some buf.gfid) (some cookie))
  else .op (imsXdbLinkFile (some buf.gfid) (some cookie))

/-- `ims_rename_cbk` (804): the cookie holds the old and the new path. -/
def imsRenameCbk (asyncUpdate : Bool) (cookie : Option (Path × Path)) : Action :=
  match cookie with
  | none => .skip
  | some (oldPath, newPath) =>
    if asyncUpdate then .put (.rename (some oldPath) (some newPath))
    else .op (imsXdbRename (some oldPath) (some newPath))

/-- `ims_setattr_cbk` (532), which also serves fsetattr, truncate, ftruncate and writev. -/
def imsSetattrCbk (asyncUpdate : Bool) (postop : Iatt) : Action :=
  if postop.gfid = 0 then .skip
  else if asyncUpdate then .put (.updateStat (some postop.gfid) postop.stat)
  else .op (imsXdbUpdateStat (some postop.gfid) postop.stat statOpWrite)

/-- `ims_setxattr_cbk` (348): without a key to index the cookie is `NULL`. -/
def imsSetxattrCbk (asyncUpdate : Bool) (cookie : Option XAttr) : Action :=
  match cookie with
  | none => .skip
  | some xattr => if asyncUpdate then .put (.insertXattr xattr) else .op (imsXdbSetxattr xattr)

/-- A reply that arrives at the translator, with the cookie given to the callback. -/
inductive Reply where
  | mkdir (cookie : Option Path) (buf : Iatt)
  | create (cookie : Path) (buf : Iatt)
  | symlink (cookie : Path) (buf : Iatt)
  | link (cookie : Path) (buf : Iatt)
  | unlink (cookie : Path)
  | rmdir (cookie : Path)
  | rename (cookie : Option (Path × Path))
  | setattr (postop : Iatt)
  | fsetattr (postop : Iatt)
  | truncate (postop : Iatt)
  | ftruncate (postop : Iatt)
  | writev (postop : Iatt)
  | setxattr (cookie : Option XAttr)

/-- The callback that a file operation is wound with. Every callback first tests for
`op_ret == -1`. -/
def callback (asyncUpdate : Bool) (opRet : Int) (reply : Reply) : Action :=
  if opRet = -1 then .skip
  else match reply with
    | .mkdir cookie buf => imsMkdirCbk asyncUpdate cookie buf
    | .create cookie buf => imsCreateCbk asyncUpdate cookie buf
    | .symlink cookie buf => imsSymlinkCbk asyncUpdate cookie buf
    | .link cookie buf => imsLinkCbk asyncUpdate cookie buf
    | .unlink cookie => imsUnlinkCbk asyncUpdate cookie
    | .rmdir cookie => imsRmdirCbk asyncUpdate cookie
    | .rename cookie => imsRenameCbk asyncUpdate cookie
    | .setattr postop => imsSetattrCbk asyncUpdate postop
    | .fsetattr postop => imsSetattrCbk asyncUpdate postop
    | .truncate postop => imsSetattrCbk asyncUpdate postop
    | .ftruncate postop => imsSetattrCbk asyncUpdate postop
    | .writev postop => imsSetattrCbk asyncUpdate postop
    | .setxattr cookie => imsSetxattrCbk asyncUpdate cookie

/-- The operation that the worker runs for a task (`worker_*`, `ims_async_work`
(imess-server-async.c:169)). An `IMS_TASK_INSERT_STAT` is only logged as unknown. -/
def worker : Task → Op Int
  | .insertNewFile gfid path sb => imsXdbInsertNewFile gfid path sb
  | .unlinkFile path => imsXdbUnlinkFile path
  | .updateStat gfid sb => imsXdbUpdateStat gfid sb statOpAll
  | .linkFile gfid path => imsXdbLinkFile gfid path
  | .rename path extra => imsXdbRename path extra
  | .insertXattr attr => imsXdbSetxattr attr
  | .removeXattr => pure 0
  | .insertStat _ _ => pure 0

/-- A reply and its `op_ret`. -/
structure Event where
  opRet : Int
  reply : Reply

/-- Run an operation without faults. -/
def runOp (fk : Bool) (p : Op Int) (c : Conn Tables) : Conn Tables :=
  (runAlone (Sql.apply fk) p c []).2

/-- The index after what is done at once. -/
def Action.now (fk : Bool) (c : Conn Tables) : Action → Conn Tables
  | .op p => runOp fk p c
  | _ => c

/-- The task that is put into the queue. -/
def Action.task : Action → Option Task
  | .put task => some task
  | _ => none

/-- A synchronous callback updates the index before it unwinds. -/
def syncStep (fk : Bool) (e : Event) (c : Conn Tables) : Conn Tables :=
  (callback false e.opRet e.reply).now fk c

/-- The task that an asynchronous callback puts into the queue. -/
def putTask (e : Event) : Option Task := (callback true e.opRet e.reply).task

/-- The worker processes one task. -/
def workStep (fk : Bool) (task : Task) (c : Conn Tables) : Conn Tables := runOp fk (worker task) c

end TagItGluster.Server
