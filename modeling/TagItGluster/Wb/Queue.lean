import TagItGluster.Base.Workers

/-!
# The queue of write-behind

The requests for one inode wait in lists that are linked through the requests. Threads come from
calls of the application and from answers of the server; what they do with the lists they do in
locked sections, which are the steps here, together with what is wound or unwound. Which allocations
fail is up to each step. Offsets and sizes are those of calls that do not reach beyond the largest
offset. Line numbers: `xlators/performance/write-behind/src/write-behind.c`.
-/

namespace TagItGluster.Wb

open Base

/-- The calls that go through the queue. -/
inductive Fop where
  | write
  | read
  | flush
  | fsync
  | stat
  | fstat
  | truncate
  | ftruncate
  | setattr
  | fsetattr
deriving DecidableEq

/-- The options in `wb_conf_t` that matter for the queue, and the page size. -/
structure Conf where
  aggregateSize : Nat
  windowSize : Nat
  tricklingWrites : Bool
  strictWriteOrdering : Bool
  strictODirect : Bool
  pageSize : Nat

/-- `call_stub_t`: a call with the owner of its locks. `size` is that of what is read or written, in
`count` vectors; `sync` and `direct` are set if the flags of the call or of its `fd` are. -/
structure Stub where
  fop : Fop
  fd : Option Nat
  lkOwner : Nat
  offset : Nat
  size : Nat
  count : Nat
  append : Bool
  sync : Bool
  direct : Bool

/-- The lists that `lie` can be in. -/
inductive Lie where
  | liability
  | temptation
deriving DecidableEq

/-- `wb_request_t`, with what its stub has and the lists it is in. `total_size` is with the batch
that the request is the head of. -/
structure Request where
  all : Bool
  todo : Bool
  lie : Option Lie
  wip : Bool
  fop : Fop
  offset : Nat
  count : Nat
  writeSize : Nat
  origSize : Nat
  opRet : Int
  opErrno : Int
  refcount : Nat
  lkOwner : Nat
  iobref : Bool
  gen : Nat
  fd : Option Nat
  size : Nat
  off : Nat
  append : Bool
  tempted : Bool
  lied : Bool
  fulfilled : Bool
  go : Bool

/-- Memory that has been cleared. -/
def Request.zero : Request where
  all := false
  todo := false
  lie := none
  wip := false
  fop := .write
  offset := 0
  count := 0
  writeSize := 0
  origSize := 0
  opRet := 0
  opErrno := 0
  refcount := 0
  lkOwner := 0
  iobref := false
  gen := 0
  fd := none
  size := 0
  off := 0
  append := false
  tempted := false
  lied := false
  fulfilled := false
  go := false

/-- `wb_inode_t`. The first `count` requests have been enqueued, in this order.

From `carrier` on, everything is only recorded: the request with whose data that of a request will
be wound; which writes have been acknowledged, and which requests have been wound, answered or given
up; whether a write has been collapsed into one that did not keep the order; how much of what was
given up had not been loaded; and how much was in the window when the list of all requests became
empty. -/
structure Inode where
  windowConf : Int
  windowCurrent : Int
  transit : Int
  gen : Nat
  size : Nat
  count : Nat
  req : Nat → Request
  carrier : Nat → Nat
  acked : Nat → Bool
  wound : Nat → Bool
  answered : Nat → Bool
  dropped : Nat → Bool
  hasty : Bool
  unloaded : Nat
  emptied : List Int

section

/-- The byte is not behind the range of the request. -/
def Request.reaches (r : Request) (b : Nat) : Bool := r.size = 0 || b < r.off + r.size

/-- `wb_requests_overlap` (255). -/
def wbRequestsOverlap (req₁ req₂ : Request) : Bool :=
  req₁.reaches req₂.off && req₂.reaches req₁.off

variable (conf : Conf) (s : Inode)

/-- `wb_requests_conflict` (282). -/
def wbRequestsConflict (lie req : Nat) : Bool :=
  decide (lie ≠ req) && decide ((s.req lie).gen < (s.req req).gen) &&
    ((s.req lie).append || conf.strictWriteOrdering || wbRequestsOverlap (s.req lie) (s.req req))

/-- `wb_liability_has_conflict` (314). -/
def wbLiabilityHasConflict (req : Nat) : Bool :=
  (List.range s.count).any fun each =>
    decide ((s.req each).lie = some .liability) && wbRequestsConflict conf s each req

/-- `wb_wip_has_conflict` (328). -/
def wbWipHasConflict (req : Nat) : Bool :=
  decide ((s.req req).fop = .write) && (List.range s.count).any fun each =>
    (s.req each).wip && decide (each ≠ req) && wbRequestsOverlap (s.req each) (s.req req)

end

namespace Inode

/-- A request is replaced. -/
def set (s : Inode) (i : Nat) (r : Request) : Inode := { s with req := Function.update s.req i r }

/-- The list of all requests is empty. -/
def allEmpty (s : Inode) : Bool := (List.range s.count).all fun i => !(s.req i).all

end Inode

/-- A request with one reference less. The last one takes it out of all lists. -/
def Request.unref (r : Request) : Request :=
  if r.refcount = 0 then r
  else if r.refcount = 1 then
    { r with refcount := 0, all := false, todo := false, lie := none, wip := false }
  else { r with refcount := r.refcount - 1 }

/-- `__wb_request_unref` (352). -/
def wbRequestUnref (i : Nat) (s : Inode) : Inode :=
  let s' := s.set i (s.req i).unref
  -- The last request resets the generation and the window.
  let last := decide ((s.req i).refcount = 1) && s'.allEmpty
  { s' with
    gen := if last then 0 else s.gen
    windowCurrent := if last then 0 else s.windowCurrent
    emptied := if last then s.emptied ++ [s.windowCurrent] else s.emptied }

/-- `__wb_fulfill_request` (667), for a request with this `total_size`. -/
def wbFulfillRequest (totalSize i : Nat) (s : Inode) : Inode :=
  wbRequestUnref i { s.set i { s.req i with fulfilled := true } with
    windowCurrent := s.windowCurrent - totalSize
    transit := s.transit - totalSize }

section

variable (conf : Conf)

/-- `wb_disabled` of `wb_writev` (1279). -/
def wbDisabled (stub : Stub) : Bool := stub.sync || conf.strictODirect && stub.direct

/-- `wb_enqueue_common` (461), up to the range. -/
def Request.ofStub (stub : Stub) : Request :=
  let writeSize := if stub.fop = .write then stub.size else 0
  { Request.zero with
    fop := stub.fop
    offset := stub.offset
    count := stub.count
    writeSize := writeSize
    origSize := writeSize
    opRet := writeSize
    lkOwner := stub.lkOwner
    fd := if stub.fop = .write ∨ stub.fop = .read ∨ stub.fop = .ftruncate then stub.fd else none
    append := decide (stub.fop = .write) && stub.append
    tempted := decide (stub.fop = .write) && !wbDisabled conf stub }

/-- `wb_enqueue_common`, where it sets the range and the size of the file. -/
def wbEnqueueRange (stub : Stub) (s : Inode) : Inode × Request :=
  let req := Request.ofStub conf stub
  match stub.fop with
  | .write =>
    ({ s with
        size := if s.size < stub.offset + stub.size then stub.offset + stub.size else s.size },
      if s.size < stub.offset then
        { req with off := s.size, size := stub.offset + stub.size - s.size }
      else { req with off := stub.offset, size := stub.size })
  | .read => (s, { req with off := stub.offset, size := stub.size })
  | .truncate => ({ s with size := stub.offset }, { req with off := stub.offset, size := 0 })
  | .ftruncate => ({ s with size := stub.offset }, { req with off := stub.offset, size := 0 })
  | _ => (s, req)

/-- A request in the lists `all` and `todo`, and `temptation` if it is tempted. -/
def Request.enqueue (r : Request) (gen : Nat) : Request :=
  { r with
    all := true
    gen := gen
    todo := true
    lie := if r.tempted then some .temptation else none
    refcount := if r.tempted then 2 else 1 }

/-- `wb_enqueue_common`, where it puts the request into the lists. -/
def wbEnqueueCommon (req : Request) (s : Inode) : Inode :=
  { s.set s.count (req.enqueue s.gen) with count := s.count + 1 }

end

section

variable (conf : Conf)

/-- The holder is good to go. -/
def Inode.setGo (s : Inode) (h : Nat) : Inode := s.set h { s.req h with go := true }

/-- A write is collapsed into one that has been acknowledged, and all others that have been and
overlap it are older than that. -/
def Inode.keepsOrder (s : Inode) (holder req : Nat) : Bool :=
  (s.req holder).lied && (List.range s.count).all fun each =>
    !(decide ((s.req each).lie = some .liability) && decide (each ≠ holder) &&
      wbRequestsOverlap (s.req each) (s.req req)) ||
      decide ((s.req each).gen < (s.req holder).gen)

/-- A holder takes in the data of another write, in a buffer. -/
def Request.collapse (h : Request) (writeSize : Nat) : Request :=
  { h with
    count := if h.iobref then h.count else 1
    iobref := true
    writeSize := h.writeSize + writeSize
    size := h.size + writeSize }

/-- `__wb_collapse_small_writes` (967), when there is memory, and taking the request out of
`todo`. -/
def wbCollapseSmallWrites (holder req : Nat) (s : Inode) : Inode :=
  { (s.set holder ((s.req holder).collapse (s.req req).writeSize)).set req
      { s.req req with todo := false } with
    carrier := fun w => if s.carrier w = req then holder else s.carrier w
    hasty := s.hasty || !s.keepsOrder holder req }

/-- The loop of `__wb_preprocess_winds` for one request, with the holder. For some requests there is
no memory for a buffer. -/
def preprocessWind (noBuffer : Nat → Bool) (req : Nat) (p : Inode × Option Nat) :
    Inode × Option Nat :=
  let s := p.1
  let r := s.req req
  if !r.todo then p
  else match p.2 with
  | none => (s, if r.tempted then some req else none)
  | some holder =>
    let h := s.req holder
    if !r.tempted then
      (if wbRequestsConflict conf s holder req then s.setGo holder else s, some holder)
    else if r.offset ≠ h.offset + h.writeSize ∨ r.lkOwner ≠ h.lkOwner ∨ r.fd ≠ h.fd ∨
        conf.pageSize < h.writeSize + r.writeSize then
      (s.setGo holder, some req)
    else if !h.iobref && noBuffer req then (s, some holder)
    else (wbFulfillRequest 0 req (wbCollapseSmallWrites holder req s), some holder)

/-- `__wb_preprocess_winds` (1037). -/
def wbPreprocessWinds (noBuffer : Nat → Bool) (s : Inode) : Inode :=
  match runAll (preprocessWind conf noBuffer) (List.range s.count) (s, none) with
  | (s, some holder) =>
    if conf.tricklingWrites ∧ s.transit = 0 then s.setGo holder else s
  | (s, none) => s

/-- The lists that `wb_process_queue` (1190) works off, with the inode. With a task goes whether it
is a write. -/
structure Pass where
  inode : Inode
  tasks : List (Nat × Bool)
  liabilities : List Nat
  lies : List Nat

/-- A request is wound: it is in progress if it is a write, and then a synchronous one gets another
reference. -/
def Request.pick (r : Request) : Request :=
  { r with
    wip := r.wip || decide (r.fop = .write)
    refcount := r.refcount + if r.fop = .write ∧ r.tempted = false then 1 else 0
    todo := false }

/-- The loop of `__wb_pick_winds` for one request. -/
def pickWind (req : Nat) (p : Pass) : Pass :=
  let s := p.inode
  let r := s.req req
  if !r.todo || wbLiabilityHasConflict conf s req || r.tempted && !r.go ||
      wbWipHasConflict s req then p
  else if r.tempted then
    { p with inode := s.set req r.pick, liabilities := p.liabilities ++ [req] }
  else
    { p with
      inode := s.set req r.pick
      tasks := p.tasks ++ [(req, decide (r.fop = .write))] }

/-- `__wb_pick_winds` (1137). -/
def wbPickWinds (p : Pass) : Pass := runAll (pickWind conf) (List.range p.inode.count) p

/-- A request is unwound, and goes to `liability` if it has not been fulfilled. -/
def Request.unwind (r : Request) : Request :=
  if r.fulfilled then { r with lie := none }
  else { r with lie := some .liability, lied := true }

/-- The window grows, and the generation with what there is liability for. -/
def Inode.unwind (s : Inode) (req : Nat) : Inode :=
  { s.set req (s.req req).unwind with
    windowCurrent := s.windowCurrent + (s.req req).origSize
    gen := if (s.req req).fulfilled then s.gen else s.gen + 1 }

/-- The loop of `__wb_pick_unwinds` for one request. -/
def pickUnwind (req : Nat) (p : Pass) : Pass :=
  let s := p.inode
  let r := s.req req
  if r.lie ≠ some .temptation ∨ r.fulfilled = false ∧ s.windowConf < s.windowCurrent then p
  else { p with inode := s.unwind req, lies := p.lies ++ [req] }

/-- `__wb_pick_unwinds` (937). -/
def wbPickUnwinds (p : Pass) : Pass := runAll pickUnwind (List.range p.inode.count) p

/-- The locked section of `wb_process_queue`. -/
def wbProcessQueue (noBuffer : Nat → Bool) (s : Inode) : Pass :=
  wbPickUnwinds (wbPickWinds conf ⟨wbPreprocessWinds conf noBuffer s, [], [], []⟩)

end

section

/-- The head and the requests in its list `winds`. -/
structure Batch where
  head : Nat
  winds : List Nat
deriving DecidableEq

/-- The requests of a batch. -/
def Batch.members (b : Batch) : List Nat := b.head :: b.winds

/-- The variables of the loop of `wb_fulfill` (854). -/
structure Gathering where
  batch : Batch
  expectedOffset : Nat
  currAggregate : Nat
  vectorCount : Nat

/-- `NEXT_HEAD` (842). -/
def nextHead (req : Nat → Request) (i : Nat) : Gathering :=
  ⟨⟨i, []⟩, (req i).offset + (req i).writeSize, 0, 0⟩

/-- `MAX_VECTOR_COUNT`. -/
def maxVectorCount : Nat := 8

variable (conf : Conf) (req : Nat → Request)

/-- The loop of `wb_fulfill`. -/
def fulfillFrom (g : Gathering) : List Nat → List Batch
  | [] => [g.batch]
  | i :: rest =>
    if (req i).fd ≠ (req g.batch.head).fd ∨ (req i).lkOwner ≠ (req g.batch.head).lkOwner ∨
        g.expectedOffset ≠ (req i).offset ∨
        conf.aggregateSize < g.currAggregate + (req i).writeSize ∨
        maxVectorCount < g.vectorCount + (req i).count then
      g.batch :: fulfillFrom (nextHead req i) rest
    else
      fulfillFrom { g with
        batch := { g.batch with winds := g.batch.winds ++ [i] }
        currAggregate := g.currAggregate + (req i).writeSize
        vectorCount := g.vectorCount + (req i).count } rest

/-- The batches that `wb_fulfill` gives to `wb_fulfill_head`. -/
def wbFulfill : List Nat → List Batch
  | [] => []
  | i :: rest => fulfillFrom conf req (nextHead req i) rest

/-- The sizes of the requests. -/
def sizes (is : List Nat) : Nat := (is.map fun i => (req i).writeSize).sum

/-- `wb_head_done` (688), for a batch with this `total_size`. -/
def wbHeadDone (b : Batch) (totalSize : Nat) (s : Inode) : Inode :=
  wbFulfillRequest totalSize b.head (runAll (wbFulfillRequest 0) b.winds s)

/-- The locked section of `wb_fulfill_err`. -/
def wbFulfillErr (fd : Option Nat) (opErrno : Int) (s : Inode) : Inode :=
  { s with req := fun i =>
      if (s.req i).all ∧ (s.req i).fd = fd then
        { s.req i with opRet := -1, opErrno := opErrno }
      else s.req i }

end

/-- What a thread has to do. -/
inductive Action where
  | call (stub : Stub)
  | range (stub : Stub)
  | enqueue (req : Request)
  | process
  | unwind (i : Nat)
  | unref (i : Nat)
  | resume (i : Nat) (write : Bool)
  | fulfill (batches : List Batch) (retry : Bool)
  | wind (b : Batch) (totalSize : Nat)
  | fdCtxSet (fd : Option Nat) (opErrno : Int)
  | fulfillErr (fd : Option Nat) (opErrno : Int)
  | headDone (b : Batch) (totalSize : Nat) (wound : Bool)

/-- What `wb_process_queue` does with the lists: `wb_do_unwinds` (914), `wb_do_winds` (1174) and
`wb_fulfill`. -/
def Pass.actions (conf : Conf) (p : Pass) : List Action :=
  p.lies.flatMap (fun i => [.unwind i, .unref i]) ++
    p.tasks.flatMap (fun i => [.resume i.1 i.2, .unref i.1]) ++
    [.fulfill (wbFulfill conf p.inode.req p.liabilities) false]

/-- What the threads share: the inode, the errors of each `fd`, and what the server has not
answered, which are batches with their `total_size` and synchronous writes. The sizes of the batches
that could not be wound are only recorded. -/
structure Shared where
  inode : Inode
  fdErr : Nat → Option Int
  outstanding : List (Batch × Nat)
  syncs : List Nat
  failures : List Nat

/-- What fails in a step: buffers to collapse requests into, `iobref_merge` for one of the requests
of a batch, or `create_frame`. -/
structure Env where
  noBuffer : Nat → Bool
  noMerge : Option Nat
  noFrame : Bool

/-- `ENOMEM`. -/
def enomem : Int := 12

/-- `EIO`. -/
def eio : Int := 5

/-- The calls that return an error of their `fd` at once. -/
def checksFd (fop : Fop) : Bool := decide (fop = .write ∨ fop = .fsync ∨ fop = .ftruncate)

/-- `wb_fulfill_err` (708). -/
def failing (fd : Option Nat) (opErrno : Int) : List Action :=
  [.fdCtxSet fd opErrno, .fulfillErr fd opErrno]

section

variable (conf : Conf) (env : Env)

/-- `wb_fulfill_head` (778), up to the wind or through its errors. -/
def wbFulfillHead (b : Batch) (s : Shared) : List Action × Bool :=
  let fd := (s.inode.req b.head).fd
  match env.noMerge.filter fun j => decide (j < b.winds.length) with
  | some j =>
    let totalSize := sizes s.inode.req (b.head :: b.winds.take (j + 1))
    (failing fd enomem ++ [.headDone b totalSize false], true)
  | none =>
    let totalSize := sizes s.inode.req b.members
    if (fd.bind s.fdErr).isSome then ([.headDone b totalSize false], true)
    else if env.noFrame then (failing fd enomem ++ [.headDone b totalSize false], true)
    else ([.wind b totalSize], false)

/-- Everything that is carried by the requests is wound. -/
def Inode.wind (s : Inode) (is : List Nat) : Inode :=
  { s with wound := fun w => s.wound w || decide (s.carrier w ∈ is) }

/-- Everything that is carried by the requests is answered. -/
def Inode.answer (s : Inode) (is : List Nat) : Inode :=
  { s with answered := fun w => s.answered w || decide (s.carrier w ∈ is) }

/-- Everything that is carried by the requests is given up, with the size that was not loaded. -/
def Inode.drop (s : Inode) (is : List Nat) (size : Nat) : Inode :=
  { s with
    dropped := fun w => s.dropped w || decide (s.carrier w ∈ is)
    unloaded := s.unloaded + size }

/-- What is recorded when a batch is done. -/
def Inode.settle (s : Inode) (b : Batch) (totalSize : Nat) (wound : Bool) : Inode :=
  if wound then s.answer b.members else s.drop b.members (sizes s.req b.members - totalSize)

/-- A thread does the next thing it has to do. -/
def exec : Action → Shared → Option (List Action × Shared)
  | .call stub, s =>
    some (if checksFd stub.fop ∧ (stub.fd.bind s.fdErr).isSome then [] else [.range stub], s)
  | .range stub, s =>
    let r := wbEnqueueRange conf stub s.inode
    some ([.enqueue r.2, .process], { s with inode := r.1 })
  | .enqueue req, s => some ([], { s with inode := wbEnqueueCommon req s.inode })
  | .process, s =>
    let p := wbProcessQueue conf env.noBuffer s.inode
    some (p.actions conf, { s with inode := p.inode })
  | .unwind i, s =>
    some ([], { s with inode := { s.inode with acked := Function.update s.inode.acked i true } })
  | .unref i, s => some ([], { s with inode := wbRequestUnref i s.inode })
  | .resume i write, s =>
    some ([], { s with
      inode := s.inode.wind [i]
      syncs := if write then s.syncs ++ [i] else s.syncs })
  | .fulfill [] retry, s => some (if retry then [.process] else [], s)
  | .fulfill (b :: batches) retry, s =>
    let r := wbFulfillHead env b s
    some (r.1 ++ [.fulfill batches (retry || r.2)], s)
  | .wind b totalSize, s =>
    some ([], { s with
      inode := { s.inode.wind b.members with transit := s.inode.transit + totalSize }
      outstanding := s.outstanding ++ [(b, totalSize)] })
  | .fdCtxSet fd opErrno, s =>
    some ([], { s with fdErr := fun i => if fd = some i then some opErrno else s.fdErr i })
  | .fulfillErr fd opErrno, s => some ([], { s with inode := wbFulfillErr fd opErrno s.inode })
  | .headDone b totalSize wound, s =>
    some ([], { s with
      inode := wbHeadDone b totalSize (s.inode.settle b totalSize wound)
      failures := if wound then s.failures else s.failures ++ [totalSize] })

/-- What happens: a call, a step of a thread, an answer of the server to a batch or to a synchronous
write, or a new size of the file from elsewhere. -/
inductive Event where
  | call (stub : Stub)
  | step (thread : Nat) (env : Env)
  | reply (k : Nat) (opRet opErrno : Int)
  | replySync (k : Nat)
  | setSize (size : Nat)

/-- The error that `wb_fulfill_cbk` (733) finds. -/
def replyErr (opRet opErrno : Int) (totalSize : Nat) : Option Int :=
  if opRet = -1 then some opErrno
  else if 0 ≤ opRet ∧ opRet < totalSize then some eio
  else none

/-- An event for an inode. -/
def wbStep : Event → Workers Action Shared → Workers Action Shared
  | .call stub, w => ⟨w.todo ++ [[.call stub]], w.state⟩
  | .step thread env, w => w.step (exec conf env) thread
  -- `wb_fulfill_cbk`.
  | .reply k opRet opErrno, w =>
    match w.state.outstanding[k]? with
    | none => w
    | some (b, totalSize) =>
      let failed := match replyErr opRet opErrno totalSize with
        | some e => failing (w.state.inode.req b.head).fd e
        | none => []
      ⟨w.todo ++ [failed ++ [.headDone b totalSize true, .process]],
        { w.state with outstanding := w.state.outstanding.eraseIdx k }⟩
  -- `wb_writev_cbk`.
  | .replySync k, w =>
    match w.state.syncs[k]? with
    | none => w
    | some i =>
      ⟨w.todo ++ [[.unref i, .process, .unwind i]], { w.state with
          syncs := w.state.syncs.eraseIdx k
          inode := { w.state.inode with
            answered := Function.update w.state.inode.answered i true } }⟩
  -- `wb_set_inode_size`, or a file that is truncated when it is opened.
  | .setSize size, w =>
    ⟨w.todo, { w.state with inode := { w.state.inode with size := size } }⟩

end

/-- `__wb_inode_create` (602). -/
def wbInodeCreate (conf : Conf) : Inode where
  windowConf := conf.windowSize
  windowCurrent := 0
  transit := 0
  gen := 0
  size := 0
  count := 0
  req _ := Request.zero
  carrier w := w
  acked _ := false
  wound _ := false
  answered _ := false
  dropped _ := false
  hasty := false
  unloaded := 0
  emptied := []

/-- An inode before the first call. -/
def newInode (conf : Conf) : Workers Action Shared :=
  ⟨[], ⟨wbInodeCreate conf, fun _ => none, [], [], []⟩⟩

/-- Steps of a thread in which nothing fails. -/
def steps (thread n : Nat) : List Event :=
  List.replicate n (.step thread ⟨fun _ => false, none, false⟩)

/-- A call for a part of a file, through the only `fd`. -/
def callOn (fop : Fop) (offset size : Nat) (sync : Bool) : Event :=
  .call ⟨fop, some 0, 0, offset, size, 1, false, sync, false⟩

end TagItGluster.Wb
