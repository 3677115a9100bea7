import TagItGluster.Base.Keyed
import TagItGluster.Base.Machine
import TagItGluster.Rpc.Rb

/-!
# The duplicate request cache

The cache keeps the requests of its clients, in a list with the newest in front and in a tree for
each client. A client is a network address; the connections from it are attached to it. A client has
a reference for each of its requests and for each connection, and goes with the last one.

Pointers are numbers that are not used again. Reading what has been freed is a fault, and so is a
division by zero. Line numbers: `rpc/rpc-lib/src/rpc-drc.c`.
-/

namespace TagItGluster.Rpc

open Base

/-- The fields of a request that are compared. -/
structure ReqKey where
  xid : BitVec 32
  prognum : Int
  progversion : Int
  procnum : Int
deriving DecidableEq

/-- `drc_compare_reqs` (127). -/
def drcCompareReqs (req reply : ReqKey) : Int :=
  let ret := (req.xid - reply.xid).toInt
  if ret ≠ 0 then ret
  else if req.prognum = reply.prognum ∧ req.procnum = reply.procnum ∧
    req.progversion = reply.progversion then 0
  else 1

/-- `drc_op_state_t`. -/
inductive OpState where
  | inTransit
  | cached
deriving DecidableEq

/-- `drc_cached_op_t`. -/
structure CachedOp where
  ptr : Nat
  state : OpState
  key : ReqKey
  client : Nat
deriving DecidableEq

/-- What a node of a tree has: the pointer to a request, and what is compared. -/
structure OpRef where
  ptr : Nat
  key : ReqKey
deriving DecidableEq

/-- The node for a request. -/
def CachedOp.toRef (op : CachedOp) : OpRef := ⟨op.ptr, op.key⟩

/-- The comparison of nodes. -/
def compareRefs (a b : OpRef) : Int := drcCompareReqs a.key b.key

/-- Network addresses, of a known family or not. -/
inductive SockAddr where
  | inet (addr : Nat)
  | inet6 (addr : Nat)
  | other (addr : Nat)
deriving DecidableEq

/-- `gf_sock_union_equal_addr` (common-utils.c:2341). -/
def gfSockUnionEqualAddr : SockAddr → SockAddr → Bool
  | .inet a, .inet b => a = b
  | .inet6 a, .inet6 b => a = b
  | _, _ => false

/-- `drc_client_t`. The counters, 32 bits wide in the source, are integers: there are fewer than
`2 ^ 31` requests. -/
structure DrcClient where
  ptr : Nat
  ref : Int
  sockaddr : SockAddr
  rbtree : RbTree OpRef
  opCount : Int
deriving DecidableEq

/-- A connection, with the client that it is attached to. -/
structure Transport where
  id : Nat
  sockaddr : SockAddr
  drcClient : Option Nat
deriving DecidableEq

/-- `rpcsvc_drc_globals_t`, and the connections. -/
structure Drc where
  /-- The cache is switched on. -/
  initiated : Bool
  globalCacheSize : Nat
  lruFactor : Nat
  opCount : Int
  clientCount : Int
  cache : List CachedOp
  clients : List DrcClient
  conns : List Transport
  nextPtr : Nat
  fault : Bool
deriving DecidableEq

namespace Drc

/-- The client at a pointer. -/
def clientAt (ptr : Nat) (d : Drc) : Option DrcClient := d.clients.find? (·.ptr = ptr)

/-- Write to the client at a pointer. -/
def modifyClient (ptr : Nat) (f : DrcClient → DrcClient) (d : Drc) : Drc :=
  if (d.clientAt ptr).isSome then
    { d with clients := updateAt DrcClient.ptr ptr f d.clients }
  else { d with fault := true }

/-- `rpcsvc_drc_op_destroy` (37); requests in transit are kept. -/
def opDestroy (ptr : Nat) (d : Drc) : Drc :=
  match d.cache.find? (·.ptr = ptr) with
  | none => { d with fault := true }
  | some op =>
    if op.state = .inTransit then d
    else { d.modifyClient op.client fun c => { c with opCount := c.opCount - 1 } with
      cache := d.cache.erase op
      opCount := d.opCount - 1 }

/-- `rpcsvc_remove_drc_client` (82). -/
def removeDrcClient (c : DrcClient) (d : Drc) : Drc :=
  let d := runAll (fun r d => opDestroy r.ptr d) c.rbtree.toList d
  { d with clients := d.clients.filter (·.ptr ≠ c.ptr) }

/-- `rpcsvc_drc_client_ref` (256). -/
def clientRef (ptr : Nat) (d : Drc) : Drc :=
  d.modifyClient ptr fun c => { c with ref := c.ref + 1 }

/-- `rpcsvc_drc_client_unref` (272). -/
def clientUnref (ptr : Nat) (d : Drc) : Drc :=
  match d.clientAt ptr with
  | none => { d with fault := true }
  | some c =>
    if c.ref - 1 = 0 then { d.removeDrcClient c with clientCount := d.clientCount - 1 }
    else d.modifyClient ptr fun c => { c with ref := c.ref - 1 }

/-- `rpcsvc_get_drc_client` (183), with what the allocations do. -/
def getDrcClient (addr : SockAddr) (alloc : Bool) (d : Drc) : Option Nat × Drc :=
  match d.clients.find? (fun c => gfSockUnionEqualAddr c.sockaddr addr) with
  | some c => (some c.ptr, d)
  | none =>
    if alloc then
      (some d.nextPtr, { d with
        clients := ⟨d.nextPtr, 0, addr, .nil, 0⟩ :: d.clients
        clientCount := d.clientCount + 1
        nextPtr := d.nextPtr + 1 })
    else (none, d)

/-- A connection is attached to a client, or to none. -/
def attach (id : Nat) (client : Option Nat) (d : Drc) : Drc :=
  { d with conns := updateAt Transport.id id (fun t => { t with drcClient := client }) d.conns }

/-- `rpcsvc_drc_notify` (617) for a connection that has been accepted. -/
def notifyAccept (t : Transport) (alloc : Bool) (d : Drc) : Drc :=
  if d.initiated then
    match d.getDrcClient t.sockaddr alloc with
    | (none, d) => d
    | (some c, d) => (d.clientRef c).attach t.id (some c)
  else d

/-- `rpcsvc_drc_notify` for a connection that is gone. -/
def notifyDisconnect (t : Transport) (alloc : Bool) (d : Drc) : Drc :=
  if d.initiated then
    match d.getDrcClient t.sockaddr alloc with
    | (none, d) => d
    | (some c, d) => (d.attach t.id none).clientUnref c
  else d

/-- The connection of a request is attached to its client, if it is not yet. -/
def attachFor (t : Transport) (alloc : Bool) (d : Drc) : Option Nat × Drc :=
  match t.drcClient with
  | some c => (some c, d)
  | none =>
    match d.getDrcClient t.sockaddr alloc with
    | (none, d) => (none, d)
    | (some c, d) => (some c, (d.clientRef c).attach t.id (some c))

/-- The search for a request of a client. -/
def findOp (key : ReqKey) (c : DrcClient) : Option OpRef :=
  if c.opCount = 0 then none else c.rbtree.find fun r => drcCompareReqs key r.key

/-- `rpcsvc_drc_lookup` (294). -/
def rpcsvcDrcLookup (t : Transport) (key : ReqKey) (alloc : Bool) (d : Drc) : Option OpRef × Drc :=
  match d.attachFor t alloc with
  | (none, d) => (none, d)
  | (some ptr, d) =>
    match d.clientAt ptr with
    | none => (none, { d with fault := true })
    | some c => (findOp key c, d)

/-- The references of `rpcsvc_send_cached_reply` (336); a request in transit is not answered. -/
def rpcsvcSendCachedReply (r : OpRef) (d : Drc) : Drc :=
  match d.cache.find? (·.ptr = r.ptr) with
  | none => { d with fault := true }
  | some op =>
    if op.state = .cached then (d.clientRef op.client).clientUnref op.client else d

/-- A request is looked up, and answered when it is cached. -/
def lookupAndAnswer (t : Transport) (key : ReqKey) (alloc : Bool) (d : Drc) : Drc :=
  match d.rpcsvcDrcLookup t key alloc with
  | (none, d) => d
  | (some r, d) => d.rpcsvcSendCachedReply r

/-- The loop of `rpcsvc_vacate_drc_entries`, the oldest request first. -/
def vacateLoop (n : Nat) : List CachedOp → Nat → Drc → Drc
  | [], _, d => d
  | op :: rest, i, d =>
    if op.state = .inTransit then vacateLoop n rest i d
    else
      let d := d.modifyClient op.client fun c =>
        { c with rbtree := RbTree.rbDelete compareRefs op.toRef c.rbtree }
      let d := (d.opDestroy op.ptr).clientUnref op.client
      if n ≤ i + 1 then d else vacateLoop n rest (i + 1) d

/-- `rpcsvc_vacate_drc_entries` (413). -/
def vacateDrcEntries (d : Drc) : Drc :=
  if d.lruFactor = 0 then { d with fault := true }
  else vacateLoop (d.globalCacheSize / d.lruFactor) d.cache.reverse 0 d

/-- `rpcsvc_add_op_to_cache` (450), with whether the request has been added. -/
def addOpToCache (op : CachedOp) (alloc : Bool) (d : Drc) : Bool × Drc :=
  let d := if d.globalCacheSize ≤ d.opCount then d.vacateDrcEntries else d
  match d.clientAt op.client with
  | none => (false, { d with fault := true })
  | some c =>
    match RbTree.rbProbe compareRefs op.toRef alloc c.rbtree with
    | (none, _) => (false, d)
    | (some found, tree) =>
      if found = op.toRef then
        (true, { d.modifyClient op.client fun c =>
            { c with rbtree := tree, opCount := c.opCount + 1 } with
          cache := op :: d.cache
          opCount := d.opCount + 1 })
      else (false, d)

/-- `rpcsvc_cache_request` (489), with memory for the request and for a node of the tree or not. -/
def rpcsvcCacheRequest (t : Transport) (key : ReqKey) (mem alloc : Bool) (d : Drc) : Drc :=
  match t.drcClient with
  | none => d
  | some client =>
    if mem then
      let op : CachedOp := ⟨d.nextPtr, .inTransit, key, client⟩
      match addOpToCache op alloc { d.clientRef client with nextPtr := d.nextPtr + 1 } with
      | (true, d) => d
      | (false, d) => d.clientUnref client
    else d

/-- `rpcsvc_cache_reply` (371). -/
def rpcsvcCacheReply (ptr : Nat) (d : Drc) : Drc :=
  { d with cache := updateAt CachedOp.ptr ptr (fun op => { op with state := .cached }) d.cache }

/-- The connection with an id. -/
def connAt (id : Nat) (d : Drc) : Option Transport := d.conns.find? (·.id = id)

/-- A cache that is switched off and has no connections. -/
def init (globalCacheSize lruFactor : Nat) : Drc :=
  ⟨false, globalCacheSize, lruFactor, 0, 0, [], [], [], 0, false⟩

end Drc

/-- What happens to a cache, with what the allocations do. -/
inductive DrcEvent where
  | accept (id : Nat) (sockaddr : SockAddr) (alloc : Bool)
  | disconnect (id : Nat) (alloc : Bool)
  | switchOn
  | lookup (id : Nat) (key : ReqKey) (alloc : Bool)
  | cacheRequest (id : Nat) (key : ReqKey) (mem alloc : Bool)
  | cacheReply (ptr : Nat)
  | vacate
deriving DecidableEq

namespace Drc

/-- One event; an id is that of one connection, and requests need a cache that is switched on. -/
def step : DrcEvent → Drc → Drc
  | .accept id sockaddr alloc, d =>
    if (d.connAt id).isSome then d
    else
      let t : Transport := ⟨id, sockaddr, none⟩
      { d with conns := t :: d.conns }.notifyAccept t alloc
  | .disconnect id alloc, d =>
    match d.connAt id with
    | none => d
    | some t => d.notifyDisconnect t alloc
  | .switchOn, d => { d with initiated := true }
  | .lookup id key alloc, d =>
    match d.initiated, d.connAt id with
    | true, some t => d.lookupAndAnswer t key alloc
    | _, _ => d
  | .cacheRequest id key mem alloc, d =>
    match d.initiated, d.connAt id with
    | true, some t => d.rpcsvcCacheRequest t key mem alloc
    | _, _ => d
  | .cacheReply ptr, d => d.rpcsvcCacheReply ptr
  | .vacate, d => d.vacateDrcEntries

end Drc

end TagItGluster.Rpc
