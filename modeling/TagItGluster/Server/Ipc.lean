import TagItGluster.Server.Sessions

/-!
# The ipc requests of a brick

`ims_ipc` answers queries, and runs a program on the files that a query selects: plain
execution returns the lines that the program prints, an extractor stores each line as an
extended attribute. The files are looked up in the index, the programs and the file system
are outside of the model. Line numbers: `xlators/features/imess-server/src/imess-server-ipc.c`.
-/

namespace TagItGluster.Server

open Base Libglusterfs

/-- What an active request finds outside of the index. -/
structure ActiveEnv where
  /-- The rows of a statement, `none` for an SQL error. -/
  exec : Text → Option ResultSet
  /-- The lines that `fgets` reads from the program run on a path, and what `runner_end`
  returns; `none` when the program cannot be started. -/
  run : Text → Text → Option (List Text × Int)
  /-- Whether the attribute of a line can be set on the path and queued for the index. -/
  setxattr : Text → Text → Bool
  brickPath : Text
  runtime : Int

/-- The accumulators of the loop over the files. -/
structure WorkState where
  opRet : Int
  count : Nat
  result : Dict

/-- One file of `ipc_active_work_files_exec`: every line becomes a row. -/
def execFile (env : ActiveEnv) (operator : Text) (s : WorkState) (file : Text) : WorkState :=
  match env.run operator (env.brickPath ++ file) with
  | none => { s with opRet := -1 }
  | some (lines, ended) => ⟨ended, s.count + lines.length, putRows s.count lines s.result⟩

/-- `extractor_setxattr` (221): a line without `=` is refused. -/
def extractorSetxattr (env : ActiveEnv) (path line : Text) : Bool :=
  line.contains '=' && env.setxattr path line

/-- One file of `ipc_active_work_files_extract`: the lines are counted up to the first one
that fails. No row is written. -/
def extractFile (env : ActiveEnv) (operator : Text) (s : WorkState) (file : Text) : WorkState :=
  match env.run operator (env.brickPath ++ file) with
  | none => { s with opRet := -1 }
  | some (lines, ended) =>
    let done := lines.takeWhile (fun line => extractorSetxattr env (env.brickPath ++ file) line)
    ⟨ended, s.count + done.length, s.result⟩

/-- The loop over the files and what follows it, for either of the two. -/
def workFiles (work : WorkState → Text → WorkState) (files : List Text) (xout : Dict) : Dict :=
  let s := files.foldl work ⟨0, 0, xout⟩
  (s.result.setInt32 "ret".toList s.opRet).setUint64 "count".toList s.count

/-- `ipc_active_work_files_exec` (34). -/
def ipcActiveWorkFilesExec (env : ActiveEnv) (operator : Text) : List Text → Dict → Dict :=
  workFiles (execFile env operator)

/-- `ipc_active_work_files_extract` (274). -/
def ipcActiveWorkFilesExtract (env : ActiveEnv) (operator : Text) : List Text → Dict → Dict :=
  workFiles (extractFile env operator)

/-- The types of request that `ims_ipc` knows. -/
inductive IpcType where
  | query
  | exec
  | filter
  | extractor
deriving DecidableEq

/-- The `strncmp` chain of `ims_ipc`. -/
def ipcType (type : Text) : Option IpcType :=
  if "query".toList.isPrefixOf type then some .query
  else if "exec".toList.isPrefixOf type then some .exec
  else if "filter".toList.isPrefixOf type then some .filter
  else if "extractor".toList.isPrefixOf type then some .extractor
  else none

/-- What `ims_ipc_active_exec` does with the selected files. A filter is not implemented. -/
def activeWork (env : ActiveEnv) (operator : Text) (type : IpcType) (files : List Text)
    (xout : Dict) : Dict :=
  match type with
  | .exec => ipcActiveWorkFilesExec env operator files xout
  | .extractor => ipcActiveWorkFilesExtract env operator files xout
  | .filter => xout
  | .query => xout

/-- `ims_ipc_active_exec` (338); `none` for an error return. The dictionary of the selected files is
given by its rows. -/
def imsIpcActiveExec (env : ActiveEnv) (type : IpcType) (xin xout : Dict) : Option Dict := do
  let sql ← xin.getStr "sql".toList
  let operator ← xin.getStr "operator".toList
  let files ← env.exec sql
  if files.rows.length = 0 then
    some (((xout.setInt32 "ret".toList 0).setUint64 "count".toList 0).setDouble "runtime".toList 0)
  else
    some ((activeWork env operator type files.rows xout).setDouble "runtime".toList env.runtime)

/-- `ims_ipc` (imess-server.c:912): the table of query results afterwards, and the reply unless
there was an error; `none` when a query has overrun a buffer. An unknown type is told in `op_errno`
only: the call returns zero and its reply has nothing but the identity of the brick. -/
def imsIpc (identity : Text) (query : QueryEnv) (active : ActiveEnv) (xin : Dict)
    (qrset : Qrset) : Option (Qrset × Option Dict) :=
  match xin.getStr "type".toList with
  | none => some (qrset, none)
  | some type =>
    match ipcType type with
    | none => some (qrset, some (replyFrom identity))
    | some .query => imsIpcQuery query xin (replyFrom identity) qrset
    | some t => some (qrset, imsIpcActiveExec active t xin (replyFrom identity))

end TagItGluster.Server
