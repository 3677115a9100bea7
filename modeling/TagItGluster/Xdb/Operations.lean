import TagItGluster.Base.Txn
import TagItGluster.Xdb.Statements

/-!
# Index operations

The functions `ims_xdb_*` of `imess-server-xdb.c` and `imess-server-xdb.h` as programs over
statements. Each of them returns 0 or -1. Preparing and binding a statement can only fail
before it has an effect, so it is part of the statement, except in `ims_xdb_update_stat`,
which prepares once and steps many times. The handle, the file record and the stat buffer
are never `NULL`: every caller passes the address of a variable. Line numbers:
`xlators/features/imess-server/src/imess-server-xdb.c`.
-/

namespace TagItGluster.Xdb

open Base

/-- A function of the index library: statements on the connection, then its return value. -/
abbrev Op (A : Type) := Prog (Stmt Sql) (Res Int) A

/-- `ims_xdb_attr_t`; `ival` is the signed reading of its 64 bits. -/
structure XAttr where
  gfid : Option Gfid
  type : Int
  name : Option Text
  ival : Int
  rval : Dbl
  sval : Option Text
  deriving DecidableEq, Repr

/-- `IMS_XDB_TYPE_INTEGER`. -/
def typeInteger : Int := 1

/-- `IMS_XDB_TYPE_REAL`. -/
def typeReal : Int := 2

/-- `IMS_XDB_TYPE_STRING`. -/
def typeString : Int := 3

/-- `IMS_XDB_STAT_OP_ALL`. -/
def statOpAll : Int := 0

/-- `IMS_XDB_STAT_OP_WRITE`. -/
def statOpWrite : Int := 1

/-- `IMS_XDB_STAT_OP_OWNER`. -/
def statOpOwner : Int := 2

/-- `sqlite3_column_int`: the low 32 bits of the column, read as a signed integer. -/
def columnInt (v : Int) : Int := v.bmod (2 ^ 32)

/-- `sqlite3_bind_double`: SQLite stores a NaN as `NULL`. -/
def bindDouble (d : Dbl) : Option Dbl :=
  if d.extractLsb' 52 11 = 0x7ff ∧ d.extractLsb' 0 52 ≠ 0 then none else some d

/-- `ims_xdb_tx_begin` (imess-server-xdb.h:129); no caller looks at its outcome. -/
def imsXdbTxBegin : Op Unit := do
  let _ ← Prog.send .begin
  pure ()

/-- `ims_xdb_tx_commit` (imess-server-xdb.h:134); no caller looks at its outcome. -/
def imsXdbTxCommit : Op Unit := do
  let _ ← Prog.send .commit
  pure ()

/-- `ims_xdb_tx_rollback` (imess-server-xdb.h:139); no caller looks at its outcome. -/
def imsXdbTxRollback : Op Unit := do
  let _ ← Prog.send .rollback
  pure ()

/-- Step a statement once and compare with `SQLITE_DONE`. -/
def stepDone (q : Sql) : Op Int := do
  match ← Prog.send (.data q) with
  | .done => pure 0
  | _ => pure (-1)

/-- `get_gid` (216). -/
def getGid (gfid : Option Gfid) : Op (Option Int) := do
  match ← Prog.send (.data (.getGid gfid)) with
  | .row v => pure (some (columnInt v))
  | _ => pure none

/-- `ims_xdb_insert_gfid` (401). -/
def imsXdbInsertGfid (gfid : Option Gfid) : Op Int := stepDone (.insertGfid gfid)

/-- `ims_xdb_insert_file` (432). -/
def imsXdbInsertFile (gfid : Option Gfid) (path : Path) : Op Int :=
  stepDone (.insertFile gfid path)

/-- `ims_xdb_insert_stat` (565). -/
def imsXdbInsertStat (gfid : Option Gfid) (sb : Stat) : Op Int := do
  match ← getGid gfid with
  | none => pure (-1)
  | some gid => stepDone (.insertStat gid sb)

/-- The statements of `ims_xdb_insert_new_file` between its transaction calls. -/
def insertNewFileBody (gfid : Option Gfid) (path : Path) (sb : Stat) : Op Int := do
  let ret ← imsXdbInsertGfid gfid
  if ret ≠ 0 then pure ret
  else
    let ret ← imsXdbInsertFile gfid path
    if ret ≠ 0 then pure ret
    else imsXdbInsertStat gfid sb

/-- The label `out` of a function with a transaction: close it as `ret` tells. -/
def txOut (ret : Int) : Op Int := do
  if ret ≠ 0 then imsXdbTxRollback else imsXdbTxCommit
  pure ret

/-- `ims_xdb_insert_new_file` (imess-server-xdb.h:170). -/
def imsXdbInsertNewFile (gfid : Option Gfid) (path : Path) (sb : Stat) : Op Int := do
  imsXdbTxBegin
  let ret ← insertNewFileBody gfid path sb
  txOut ret

/-- `ims_xdb_link_file` (497). -/
def imsXdbLinkFile : Option Gfid → Option Path → Op Int
  | some gfid, some path => stepDone (.linkFile gfid path)
  | _, _ => pure (-1)

/-- `ims_xdb_unlink_file` (533). -/
def imsXdbUnlinkFile : Option Path → Op Int
  | some path => stepDone (.unlinkFile path)
  | none => pure (-1)

/-- `ims_xdb_rename` (705): `path` is the old path and `extra` the new one. -/
def imsXdbRename : (path extra : Option Path) → Op Int
  | some path, some extra => stepDone (.rename extra path)
  | _, _ => pure (-1)

/-- The attributes that `ims_xdb_update_stat` sets, in its order. -/
def updatePlan (statOp : Int) : List StatAttr :=
  (if statOp = statOpAll then [.dev, .ino, .mode, .nlink, .rdev, .blksize, .ctime] else []) ++
  (if statOp = statOpAll ∨ statOp = statOpOwner then [.uid, .gid] else []) ++
  (if statOp = statOpAll ∨ statOp = statOpWrite then [.size, .blocks, .atime, .mtime] else [])

/-- The value that an out-of-range `stat_op` is replaced by. -/
def normStatOp (statOp : Int) : Int :=
  if statOp < 0 ∨ 3 ≤ statOp then statOpAll else statOp

/-- The macros `update_xdata` (624), one after the other, then the end of the function. -/
def updateXdata (gid : Int) (sb : Stat) : List StatAttr → Op Int
  | [] => do
    imsXdbTxCommit
    pure 0
  | a :: as => do
    match ← Prog.send (.data (.updateStat (sb a) gid a)) with
    | .done => updateXdata gid sb as
    | _ =>
      imsXdbTxRollback
      pure (-1)

/-- `ims_xdb_update_stat` (635). -/
def imsXdbUpdateStat (gfid : Option Gfid) (sb : Stat) (statOp : Int) : Op Int := do
  if gfid = none then pure (-1)
  else
    match ← getGid gfid with
    | none => pure (-1)
    | some gid =>
      match ← Prog.send .prepare with
      | .err => pure (-1)
      | _ =>
        imsXdbTxBegin
        updateXdata gid sb (updatePlan (normStatOp statOp))

/-- The three value columns that `ims_xdb_setxattr` binds for a type. -/
def bindValue (x : XAttr) : Option Int × Option Dbl × Option Text :=
  if x.type = typeInteger then (some x.ival, none, none)
  else if x.type = typeReal then (none, bindDouble x.rval, none)
  else (none, none, x.sval)

/-- The statements of `ims_xdb_setxattr` between its transaction calls. -/
def setxattrBody (gfid : Gfid) (name : Text) (x : XAttr) : Op Int := do
  let ret ← stepDone (.insertXname name)
  if ret ≠ 0 then pure ret
  else
    let (ival, rval, sval) := bindValue x
    stepDone (.insertXdata gfid name ival rval sval)

/-- `ims_xdb_setxattr` (758). Without a gfid or a name it jumps to `out` and rolls back a
transaction that it never opened. -/
def imsXdbSetxattr (x : XAttr) : Op Int :=
  match x.gfid, x.name with
  | some gfid, some name =>
    if x.type ≠ typeInteger ∧ x.type ≠ typeReal ∧ x.type ≠ typeString then pure (-1)
    else do
      imsXdbTxBegin
      let ret ← setxattrBody gfid name x
      txOut ret
  | _, _ => txOut (-1)

end TagItGluster.Xdb
