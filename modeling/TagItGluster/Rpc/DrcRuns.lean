import TagItGluster.Rpc.DrcSteps

/-!
# Runs of the duplicate request cache

Every event keeps the references balanced, provided that a connection that goes has been attached.
One that is older than the cache has not: its end takes a reference that it never had.
-/

namespace TagItGluster.Rpc

open Base List

namespace Drc

variable {base : BitVec 32} {K : ReqKey → Prop} {pending : List Nat} {d : Drc}

/-- What a change of references leaves alone. -/
structure Frame (d d' : Drc) : Prop where
  cache : d'.cache = d.cache
  conns : d'.conns = d.conns
  nextPtr : d'.nextPtr = d.nextPtr
  initiated : d'.initiated = d.initiated

variable {ptr : Nat} {t : Transport} {key : ReqKey}

private lemma frame_clientRef : Frame d (d.clientRef ptr) := by
  unfold Drc.clientRef modifyClient
  split
  · exact ⟨rfl, rfl, rfl, rfl⟩
  · exact ⟨rfl, rfl, rfl, rfl⟩

private lemma Inv.frame_clientUnref (h : Inv base K (ptr :: pending) d)
    (hp : ptr ∈ d.peers.map (·.1)) : Frame d (d.clientUnref ptr) := by
  obtain ⟨c, hc, rfl, hat⟩ := exists_client hp
  have hcount := h.counted c hc
  have href := hcount.ref
  rw [count_cons_self] at href
  unfold Drc.clientUnref
  rw [hat]
  dsimp only
  split
  · have hheld : d.held c.ptr = 0 := by omega
    unfold removeDrcClient
    rw [hcount.tree_nil hheld]
    exact ⟨rfl, rfl, rfl, rfl⟩
  · rw [modifyClient_eq hp]
    exact ⟨rfl, rfl, rfl, rfl⟩

private lemma peers_clientRef : (d.clientRef ptr).peers = d.peers := by
  unfold Drc.clientRef modifyClient
  split
  · exact map_updateAt _ fun _ _ => rfl
  · rfl

/-- The body of the loop takes a request out. -/
lemma Inv.destroy_eq (h : Inv base K pending d) {op : CachedOp} (hop : op ∈ d.cache)
    (hstate : op.state ≠ .inTransit) :
    (d.modifyClient op.client fun c =>
      { c with rbtree := RbTree.rbDelete compareRefs op.toRef c.rbtree }).opDestroy op.ptr =
      evicted op d := by
  have hp := h.tables.owned op hop
  rw [modifyClient_eq hp]
  have hnodup : (d.cache.map CachedOp.ptr).Nodup := h.tables.opsNodup
  have hfind : d.cache.find? (fun o => decide (o.ptr = op.ptr)) = some op :=
    find?_key_of_mem hnodup hop rfl
  unfold opDestroy
  rw [hfind]
  dsimp only
  rw [if_neg hstate, modifyClient_eq]
  · simp only [updateAt, map_map]
    congr 1
    apply map_congr_left
    intro c _
    by_cases heq : c.ptr = op.client
    · simp [heq, dropOp]
    · simp [heq]
  · have hpeers : peers { d with clients := updateAt DrcClient.ptr op.client (fun c =>
        { c with rbtree := RbTree.rbDelete compareRefs op.toRef c.rbtree }) d.clients } = d.peers :=
      map_updateAt _ fun _ _ => rfl
    rw [hpeers]
    exact hp

/-- The loop keeps the invariant: the requests that it still has to see stay in the cache. -/
lemma Inv.vacateLoop (hord : Ordered base K) (n : Nat) {ops : List CachedOp} {i : Nat}
    (h : Inv base K pending d) (hops : ∀ op ∈ ops, op ∈ d.cache) (hnodup : ops.Nodup) :
    Inv base K pending (vacateLoop n ops i d) ∧
      (vacateLoop n ops i d).conns = d.conns ∧ (vacateLoop n ops i d).nextPtr = d.nextPtr ∧
      ∀ op ∈ (vacateLoop n ops i d).cache, op ∈ d.cache := by
  induction ops generalizing d i with
  | nil => exact ⟨h, rfl, rfl, fun _ hop => hop⟩
  | cons op ops ih =>
    have hcons := nodup_cons.mp hnodup
    have hmem := hops op mem_cons_self
    unfold Drc.vacateLoop
    by_cases hstate : op.state = .inTransit
    · rw [if_pos hstate]
      exact ih h (fun o ho => hops o (mem_cons_of_mem _ ho)) hcons.2
    rw [if_neg hstate]
    dsimp only
    rw [h.destroy_eq hmem hstate]
    have hev := h.evict hord hmem
    have hp : op.client ∈ (evicted op d).peers.map (·.1) := by
      have hpeers : (evicted op d).peers = d.peers := map_updateAt _ fun _ _ => rfl
      rw [hpeers]
      exact h.tables.owned op hmem
    have hun := hev.clientUnref hp
    have hf := hev.frame_clientUnref hp
    have hsub : ∀ o ∈ ((evicted op d).clientUnref op.client).cache, o ∈ d.cache := by
      intro o ho
      rw [hf.cache] at ho
      exact (h.tables.mem_erase.mp ho).2
    split
    · exact ⟨hun, hf.conns, hf.nextPtr, hsub⟩
    have hrest : ∀ o ∈ ops, o ∈ ((evicted op d).clientUnref op.client).cache := by
      intro o ho
      rw [hf.cache]
      refine h.tables.mem_erase.mpr ⟨?_, hops o (mem_cons_of_mem _ ho)⟩
      rintro rfl
      exact hcons.1 ho
    obtain ⟨hinv, hconns, hnext, hcache⟩ := ih hun hrest hcons.2
    exact ⟨hinv, hconns.trans hf.conns, hnext.trans hf.nextPtr, fun o ho => hsub o (hcache o ho)⟩

private lemma Inv.vacate (hord : Ordered base K) (h : Inv base K pending d) :
    Inv base K pending d.vacateDrcEntries ∧ d.vacateDrcEntries.conns = d.conns ∧
      d.vacateDrcEntries.nextPtr = d.nextPtr ∧
      ∀ op ∈ d.vacateDrcEntries.cache, op ∈ d.cache := by
  unfold vacateDrcEntries
  rw [if_neg (Nat.ne_of_gt h.tables.lruPos)]
  apply h.vacateLoop hord
  · exact fun op hop => mem_reverse.mp hop
  · exact nodup_reverse.mpr (List.Nodup.of_map _ h.tables.opsNodup)

/-- Asking for the client of a known address finds it or makes it, or there is no memory. -/
lemma Inv.getDrcClient (h : Inv base K [] d) {addr : SockAddr}
    (hknown : gfSockUnionEqualAddr addr addr) (alloc : Bool) :
    (d.getDrcClient addr alloc = (none, d) ∧ addr ∉ d.peers.map (·.2)) ∨
      ∃ ptr d', d.getDrcClient addr alloc = (some ptr, d') ∧ (ptr, addr) ∈ d'.peers ∧
        Inv base K [ptr] (d'.clientRef ptr) ∧ (d'.clientRef ptr).conns = d.conns ∧
        (d'.clientRef ptr).cache = d.cache ∧ ∀ w ∈ d.peers, w ∈ d'.peers := by
  unfold Drc.getDrcClient
  cases hfind : d.clients.find? (fun c => gfSockUnionEqualAddr c.sockaddr addr) with
  | some c =>
    have hc := mem_of_find?_eq_some hfind
    have hequal : gfSockUnionEqualAddr c.sockaddr addr := by
      have hfound := find?_some hfind
      exact hfound
    have haddr : c.sockaddr = addr := eq_of_gfSockUnionEqualAddr hequal
    refine .inr ⟨c.ptr, d, rfl, ?_, h.clientRef (mem_ptrs hc), frame_clientRef.conns,
      frame_clientRef.cache, fun _ hw => hw⟩
    exact mem_map.mpr ⟨c, hc, by rw [haddr]⟩
  | none =>
    have hnew : addr ∉ d.peers.map (·.2) := by
      intro hmem
      obtain ⟨w, hw, rfl⟩ := mem_map.mp hmem
      obtain ⟨c, hc, rfl⟩ := mem_map.mp hw
      exact find?_eq_none.mp hfind c hc hknown
    cases alloc with
    | false => exact .inl ⟨rfl, hnew⟩
    | true =>
      right
      refine ⟨d.nextPtr, _, rfl, mem_cons_self, ?_, frame_clientRef.conns,
        frame_clientRef.cache, fun _ hw => mem_cons_of_mem _ hw⟩
      -- The reference goes to the new client, whose pointer no other has.
      have hfresh : d.nextPtr ∉ d.clients.map DrcClient.ptr := by
        intro hmem
        obtain ⟨c, hc, heq⟩ := mem_map.mp hmem
        have := h.tables.ptrsFresh _ (mem_map_of_mem hc)
        omega
      have hcreate := h.create hnew
      unfold Drc.clientRef
      rw [modifyClient_eq mem_cons_self]
      have hclients : updateAt DrcClient.ptr d.nextPtr
          (fun c : DrcClient => { c with ref := c.ref + 1 })
          (⟨d.nextPtr, 0, addr, .nil, 0⟩ :: d.clients) =
            ⟨d.nextPtr, 1, addr, .nil, 0⟩ :: d.clients := by
        have hrest := updateAt_of_notMem (f := fun c : DrcClient => { c with ref := c.ref + 1 })
          hfresh
        unfold updateAt at hrest ⊢
        rw [map_cons, hrest]
        simp
      rw [hclients]
      exact hcreate

/-- A connection that is not attached is attached to its client. -/
lemma Inv.attachNew (h : Inv base K [ptr] (d.clientRef ptr)) (hmem : t ∈ (d.clientRef ptr).conns)
    (hnone : t.drcClient = none) (hpeer : (ptr, t.sockaddr) ∈ d.peers) :
    Inv base K [] ((d.clientRef ptr).attach t.id (some ptr)) := by
  apply h.attach hmem
  · rintro p heq
    cases heq
    rw [peers_clientRef]
    exact hpeer
  · intro c _
    rw [hnone]
    by_cases heq : ptr = c.ptr
    · simp [heq]
    · simp [heq]

/-- What a request in the cache says does not depend on its state. -/
lemma Inv.cacheReply (h : Inv base K [] d) (ptr : Nat) :
    Inv base K [] (d.rpcsvcCacheReply ptr) := by
  have ht := h.tables
  have hptrs : (d.rpcsvcCacheReply ptr).cache.map (·.ptr) = d.cache.map (·.ptr) :=
    map_updateAt _ fun _ _ => rfl
  have hops : ∀ o, o ∈ (d.rpcsvcCacheReply ptr).cache → ∃ o' ∈ d.cache,
      o.ptr = o'.ptr ∧ o.client = o'.client ∧ o.key = o'.key := by
    intro o ho
    obtain ⟨o', ho', rfl⟩ := mem_map.mp ho
    refine ⟨o', ho', ?_⟩
    split
    · exact ⟨rfl, rfl, rfl⟩
    · exact ⟨rfl, rfl, rfl⟩
  have hrefs : (d.rpcsvcCacheReply ptr).cache.map (fun o => (o.client, o.toRef)) =
      d.cache.map fun o => (o.client, o.toRef) := map_updateAt _ fun _ _ => rfl
  have hheld : ∀ p, (d.rpcsvcCacheReply ptr).held p = d.held p := by
    intro p
    have hcount := congrArg (List.countP fun w : Nat × OpRef => decide (w.1 = p)) hrefs
    simpa [Function.comp_def, held] using hcount
  refine ⟨⟨ht.noFault, ht.lruPos, ?_, ?_, ht.ptrsNodup, ht.ptrsFresh, ht.addrsNodup, ht.idsNodup,
    ht.connsKnown, ht.attachedTo, ?_, ?_, ?_, ht.clientCount⟩, ?_⟩
  · rw [hptrs]
    exact ht.opsNodup
  · intro o ho
    obtain ⟨o', ho', hp, -, -⟩ := hops o ho
    rw [hp]
    exact ht.opsFresh o' ho'
  · intro o ho
    obtain ⟨o', ho', -, hc, -⟩ := hops o ho
    rw [hc]
    exact ht.owned o' ho'
  · intro o ho
    obtain ⟨o', ho', -, -, hk⟩ := hops o ho
    rw [hk]
    exact ht.keys o' ho'
  · have hlen := congrArg List.length hptrs
    rw [length_map, length_map] at hlen
    rw [hlen]
    exact ht.opCount
  · intro c hc
    have hcount := h.counted c hc
    refine ⟨?_, hcount.positive, ?_, hcount.sorted, ?_⟩
    · rw [hheld]
      exact hcount.ref
    · rw [hheld]
      exact hcount.opCount
    · intro r
      have hiff : (c.ptr, r) ∈ (d.rpcsvcCacheReply ptr).cache.map (fun o => (o.client, o.toRef)) ↔
          (c.ptr, r) ∈ d.cache.map fun o => (o.client, o.toRef) := by rw [hrefs]
      simp only [mem_map, Prod.mk.injEq] at hiff
      exact (hcount.nodes r).trans hiff.symm

/-- Answering a request that is in the cache changes no count in the end. -/
lemma Inv.sendCachedReply (h : Inv base K [] d) {op : CachedOp} (hop : op ∈ d.cache) :
    Inv base K [] (d.rpcsvcSendCachedReply op.toRef) := by
  have hnodup : (d.cache.map CachedOp.ptr).Nodup := h.tables.opsNodup
  have hfind : d.cache.find? (fun o => decide (o.ptr = op.toRef.ptr)) = some op :=
    find?_key_of_mem hnodup hop rfl
  unfold rpcsvcSendCachedReply
  rw [hfind]
  dsimp only
  split
  · have hp := h.tables.owned op hop
    apply (h.clientRef hp).clientUnref
    rw [peers_clientRef]
    exact hp
  · exact h

/-- A search among ordered requests finds exactly what is in the cache. -/
lemma Inv.findOp_eq_some_iff (hord : Ordered base K) (h : Inv base K pending d) {c : DrcClient}
    (hc : c ∈ d.clients) (hkey : K key) {r : OpRef} :
    findOp key c = some r ↔ ∃ op ∈ d.cache, op.client = c.ptr ∧ op.key = key ∧ op.toRef = r := by
  have hcount := h.counted c hc
  have hK := h.tree_keys hc
  have hcuts := hcount.sorted.cuts hord hK hkey
  have hsearch : (c.rbtree.find fun r => drcCompareReqs key r.key) = some r ↔
      ∃ op ∈ d.cache, op.client = c.ptr ∧ op.key = key ∧ op.toRef = r := by
    rw [SearchTree.find_eq_some_iff hcuts]
    constructor
    · rintro ⟨hr, hzero⟩
      have heq := (drcCompareReqs_eq_zero_iff hord hkey (hK r hr)).mp hzero
      obtain ⟨op, hop, hclient, rfl⟩ := (hcount.nodes r).mp hr
      exact ⟨op, hop, hclient, heq.symm, rfl⟩
    · rintro ⟨op, hop, hclient, rfl, rfl⟩
      have hr : op.toRef ∈ c.rbtree.toList := (hcount.nodes _).mpr ⟨op, hop, hclient, rfl⟩
      exact ⟨hr, (drcCompareReqs_eq_zero_iff hord hkey (hK _ hr)).mpr rfl⟩
  unfold findOp
  split
  · next hzero =>
    -- Without requests there is nothing to find.
    constructor
    · intro hnone
      cases hnone
    rintro ⟨op, hop, hclient, -, -⟩
    have hheld : d.held c.ptr = 0 := by
      have := hcount.opCount
      omega
    have := countP_eq_zero.mp hheld op hop
    simp [hclient] at this
  · exact hsearch

private lemma mem_of_connAt {id : Nat} (h : d.connAt id = some t) :
    t ∈ d.conns ∧ t.id = id := of_find?_key h

section

variable (h : Inv base K [] d)
include h

/-- A new connection is not attached. -/
lemma Inv.connect (hnone : t.drcClient = none) (hknown : gfSockUnionEqualAddr t.sockaddr t.sockaddr)
    (hnew : t.id ∉ d.conns.map (·.id)) : Inv base K [] { d with conns := t :: d.conns } := by
  have ht := h.tables
  refine ⟨⟨ht.noFault, ht.lruPos, ht.opsNodup, ht.opsFresh, ht.ptrsNodup, ht.ptrsFresh,
    ht.addrsNodup, nodup_cons.mpr ⟨hnew, ht.idsNodup⟩, ?_, ?_, ht.owned, ht.keys, ht.opCount,
    ht.clientCount⟩, ?_⟩
  · intro u hu
    rcases mem_cons.mp hu with rfl | hu
    · exact hknown
    · exact ht.connsKnown u hu
  · intro u hu ptr hptr
    rcases mem_cons.mp hu with rfl | hu
    · rw [hnone] at hptr
      cases hptr
    · exact ht.attachedTo u hu ptr hptr
  · intro c hc
    have hcount := h.counted c hc
    refine ⟨?_, hcount.positive, hcount.opCount, hcount.sorted, hcount.nodes⟩
    have hatt : attached c.ptr { d with conns := t :: d.conns } = d.attached c.ptr := by
      simp [attached, hnone]
    rw [hatt]
    exact hcount.ref

private lemma Inv.notifyAccept (hmem : t ∈ d.conns) (hnone : t.drcClient = none) (alloc : Bool) :
    Inv base K [] (d.notifyAccept t alloc) := by
  unfold Drc.notifyAccept
  split
  · rcases h.getDrcClient (h.tables.connsKnown t hmem) alloc with
      ⟨heq, -⟩ | ⟨ptr, d', heq, hpeer, hinv, hc, -, -⟩
    · rw [heq]
      exact h
    · rw [heq]
      exact hinv.attachNew (hc ▸ hmem) hnone hpeer
  · exact h

/-- The end of a connection that is attached drops its reference. -/
lemma Inv.notifyDisconnect (hmem : t ∈ d.conns) (hptr : t.drcClient = some ptr) (alloc : Bool) :
    Inv base K [] (d.notifyDisconnect t alloc) := by
  have ht := h.tables
  unfold Drc.notifyDisconnect
  split
  · -- The client is found by its address.
    have hpeer := ht.attachedTo t hmem ptr hptr
    obtain ⟨c, hc, hw⟩ := mem_map.mp hpeer
    have hcptr : c.ptr = ptr := congrArg Prod.fst hw
    have hcaddr : c.sockaddr = t.sockaddr := congrArg Prod.snd hw
    have hget : d.getDrcClient t.sockaddr alloc = (some ptr, d) := by
      unfold Drc.getDrcClient
      cases hfind : d.clients.find? (fun c => gfSockUnionEqualAddr c.sockaddr t.sockaddr) with
      | none =>
        have hno := find?_eq_none.mp hfind c hc
        rw [hcaddr] at hno
        exact absurd (ht.connsKnown t hmem) hno
      | some b =>
        have hb := mem_of_find?_eq_some hfind
        have hequal : gfSockUnionEqualAddr b.sockaddr t.sockaddr := by
          have hfound := find?_some hfind
          exact hfound
        have hbaddr := eq_of_gfSockUnionEqualAddr hequal
        have haddrs : (d.clients.map DrcClient.sockaddr).Nodup := by
          simpa [peers, Function.comp_def] using ht.addrsNodup
        have hbc : b = c := inj_on_of_nodup_map haddrs hb hc (hbaddr.trans hcaddr.symm)
        rw [hbc]
        dsimp only
        rw [hcptr]
    rw [hget]
    have hdetach : Inv base K [ptr] (d.attach t.id none) := by
      apply h.attach hmem
      · intro p hp
        cases hp
      · intro c _
        rw [hptr]
        by_cases heq : ptr = c.ptr
        · simp [heq]
        · simp [heq]
    exact hdetach.clientUnref (mem_map.mpr ⟨_, hpeer, rfl⟩)
  · exact h

end

private lemma Inv.lookupAndAnswer (hord : Ordered base K) (h : Inv base K [] d) (hmem : t ∈ d.conns)
    (hkey : K key) (alloc : Bool) : Inv base K [] (d.lookupAndAnswer t key alloc) := by
  -- Once the connection is attached, what is found is in the cache.
  have hanswer : ∀ {d' : Drc} {ptr : Nat}, Inv base K [] d' → ptr ∈ d'.peers.map (·.1) →
      d.attachFor t alloc = (some ptr, d') → Inv base K [] (d.lookupAndAnswer t key alloc) := by
    intro d' ptr hinv hp hat
    obtain ⟨c, hc, -, hclient⟩ := exists_client hp
    unfold Drc.lookupAndAnswer rpcsvcDrcLookup
    rw [hat]
    dsimp only
    rw [hclient]
    dsimp only
    cases hfind : findOp key c with
    | none => exact hinv
    | some r =>
      obtain ⟨op, hop, -, -, rfl⟩ := (hinv.findOp_eq_some_iff hord hc hkey).mp hfind
      exact hinv.sendCachedReply hop
  cases hclient : t.drcClient with
  | some ptr =>
    apply hanswer h (mem_map.mpr ⟨_, h.tables.attachedTo t hmem ptr hclient, rfl⟩)
    simp [attachFor, hclient]
  | none =>
    rcases h.getDrcClient (h.tables.connsKnown t hmem) alloc with
      ⟨heq, -⟩ | ⟨ptr, d', heq, hpeer, hinv, hc, -, -⟩
    · simp [Drc.lookupAndAnswer, rpcsvcDrcLookup, attachFor, hclient, heq, h]
    · apply hanswer (hinv.attachNew (hc ▸ hmem) hclient hpeer)
      · change ptr ∈ (d'.clientRef ptr).peers.map (·.1)
        rw [peers_clientRef]
        exact mem_map.mpr ⟨_, hpeer, rfl⟩
      · simp [attachFor, hclient, heq]

private lemma Inv.skipPtr (h : Inv base K pending d) :
    Inv base K pending { d with nextPtr := d.nextPtr + 1 } := by
  have ht := h.tables
  refine ⟨⟨ht.noFault, ht.lruPos, ht.opsNodup, fun o ho => Nat.lt_succ_of_lt (ht.opsFresh o ho),
    ht.ptrsNodup, fun w hw => Nat.lt_succ_of_lt (ht.ptrsFresh w hw), ht.addrsNodup, ht.idsNodup,
    ht.connsKnown, ht.attachedTo, ht.owned, ht.keys, ht.opCount, ht.clientCount⟩, ?_⟩
  intro c hc
  have hcount := h.counted c hc
  exact ⟨hcount.ref, hcount.positive, hcount.opCount, hcount.sorted, hcount.nodes⟩

variable (hord : Ordered base K)
include hord

/-- A request is added with the reference that has been taken for it, or the reference stays. -/
lemma Inv.addOpToCache (op : CachedOp) (h : Inv base K [op.client] d) (hnext : op.ptr < d.nextPtr)
    (hnew : ∀ o ∈ d.cache, o.ptr ≠ op.ptr) (hkey : K op.key) (hmem : t ∈ d.conns)
    (hclient : t.drcClient = some op.client) (alloc : Bool) :
    (∃ d', d.addOpToCache op alloc = (true, d') ∧ Inv base K [] d') ∨
      ∃ d', d.addOpToCache op alloc = (false, d') ∧ Inv base K [op.client] d' ∧
        op.client ∈ d'.peers.map (·.1) := by
  -- A full cache is vacated first; what is in it afterwards was in it before.
  obtain ⟨d₁, hd₁, hroom, hconns, hptr, hsub⟩ : ∃ d₁,
      (if d.globalCacheSize ≤ d.opCount then d.vacateDrcEntries else d) = d₁ ∧
        Inv base K [op.client] d₁ ∧ d₁.conns = d.conns ∧ d₁.nextPtr = d.nextPtr ∧
        ∀ op ∈ d₁.cache, op ∈ d.cache := by
    split
    · exact ⟨_, rfl, h.vacate hord⟩
    · exact ⟨d, rfl, h, rfl, rfl, fun _ hop => hop⟩
  unfold Drc.addOpToCache
  dsimp only
  rw [hd₁]
  -- The connection is still attached, so that the client is there.
  have hp : op.client ∈ d₁.peers.map (·.1) :=
    mem_map.mpr ⟨_, hroom.tables.attachedTo t (hconns ▸ hmem) _ hclient, rfl⟩
  have hfresh : ∀ o ∈ d₁.cache, o.ptr ≠ op.ptr := fun o ho => hnew o (hsub o ho)
  obtain ⟨c, hc, hcptr, hat⟩ := exists_client hp
  have hcount := hroom.counted c hc
  rw [hat]
  dsimp only
  rcases hcount.sorted.rbProbe (r := op.toRef) hord (hroom.tree_keys hc) hkey alloc with
    ⟨found, hfound, -, heq⟩ | heq | ⟨tree, heq, hsorted, hnodes⟩
  · have hne : found ≠ op.toRef := by
      rintro rfl
      obtain ⟨o, ho, -, hrefs⟩ := (hcount.nodes _).mp hfound
      exact hfresh o ho (congrArg OpRef.ptr hrefs)
    rw [heq]
    dsimp only
    rw [if_neg hne]
    exact .inr ⟨d₁, rfl, hroom, hp⟩
  · rw [heq]
    exact .inr ⟨d₁, rfl, hroom, hp⟩
  · rw [heq]
    dsimp only
    rw [if_pos rfl, modifyClient_eq hp]
    exact .inl ⟨_, rfl, hroom.add (hptr ▸ hnext) hfresh hkey hc hcptr hsorted hnodes⟩

private lemma Inv.cacheRequest (h : Inv base K [] d) (hmem : t ∈ d.conns) (hkey : K key)
    (mem alloc : Bool) : Inv base K [] (d.rpcsvcCacheRequest t key mem alloc) := by
  unfold rpcsvcCacheRequest
  cases hclient : t.drcClient with
  | none => exact h
  | some ptr =>
    cases mem with
    | false => exact h
    | true =>
      have hp : ptr ∈ d.peers.map (·.1) :=
        mem_map.mpr ⟨_, h.tables.attachedTo t hmem ptr hclient, rfl⟩
      have hf : Frame d (d.clientRef ptr) := frame_clientRef
      have href : Inv base K [ptr] { d.clientRef ptr with nextPtr := d.nextPtr + 1 } := by
        have hskip := (h.clientRef hp).skipPtr
        rw [hf.nextPtr] at hskip
        exact hskip
      have hnew : ∀ o ∈ (d.clientRef ptr).cache, o.ptr ≠ d.nextPtr := by
        intro o ho
        rw [hf.cache] at ho
        exact Nat.ne_of_lt (h.tables.opsFresh o ho)
      have hconn : t ∈ (d.clientRef ptr).conns := hf.conns ▸ hmem
      dsimp only
      rcases Inv.addOpToCache hord ⟨d.nextPtr, .inTransit, key, ptr⟩ href (Nat.lt_succ_self _) hnew
        hkey hconn hclient alloc with ⟨d', heq, hinv⟩ | ⟨d', heq, hinv, hp'⟩
      · rw [heq]
        exact hinv
      · rw [heq]
        exact hinv.clientUnref hp'

end Drc

/-- The request that an event is about. -/
def DrcEvent.key? : DrcEvent → Option ReqKey
  | .lookup _ key _ => some key
  | .cacheRequest _ key _ _ => some key
  | _ => none

namespace Drc

/-- Addresses are of a known family, and a connection that goes has been attached. -/
def Proper : DrcEvent → Drc → Prop
  | .accept _ sockaddr _, _ => gfSockUnionEqualAddr sockaddr sockaddr = true
  | .disconnect id _, d => d.initiated = true → ∀ t ∈ d.conns, t.id = id → t.drcClient.isSome = true
  | _, _ => True

instance decidableProper : ∀ (e : DrcEvent) (d : Drc), Decidable (Proper e d)
  | .accept _ a _, _ => inferInstanceAs (Decidable (gfSockUnionEqualAddr a a = true))
  | .disconnect id _, d => inferInstanceAs (Decidable
      (d.initiated = true → ∀ t ∈ d.conns, t.id = id → t.drcClient.isSome = true))
  | .switchOn, _ => inferInstanceAs (Decidable True)
  | .lookup .., _ => inferInstanceAs (Decidable True)
  | .cacheRequest .., _ => inferInstanceAs (Decidable True)
  | .cacheReply _, _ => inferInstanceAs (Decidable True)
  | .vacate, _ => inferInstanceAs (Decidable True)

variable {base : BitVec 32} {K : ReqKey → Prop} {d : Drc}

private lemma inv_init (globalCacheSize : Nat) {lruFactor : Nat} (hlru : 0 < lruFactor) :
    Inv base K [] (init globalCacheSize lruFactor) := by
  refine ⟨⟨rfl, hlru, nodup_nil, ?_, nodup_nil, ?_, nodup_nil, nodup_nil, ?_,
    ?_, ?_, ?_, rfl, rfl⟩, ?_⟩ <;> simp [init, peers]

variable (hord : Ordered base K)
include hord

/-- One event keeps the invariant. -/
lemma Inv.step (h : Inv base K [] d) {e : DrcEvent} (hproper : Proper e d)
    (hkey : ∀ key, e.key? = some key → K key) : Inv base K [] (Drc.step e d) := by
  cases e with
  | accept id sockaddr alloc =>
    simp only [Drc.step]
    split
    · exact h
    next hnone =>
    have hnew : id ∉ d.conns.map (·.id) := by
      intro hmem
      obtain ⟨u, hu, heq⟩ := mem_map.mp hmem
      apply hnone
      have hnodup : (d.conns.map Transport.id).Nodup := h.tables.idsNodup
      unfold connAt
      rw [find?_key_of_mem hnodup hu heq]
      rfl
    exact (h.connect (t := ⟨id, sockaddr, none⟩) rfl hproper hnew).notifyAccept
      mem_cons_self rfl alloc
  | disconnect id alloc =>
    simp only [Drc.step]
    split
    · exact h
    next t hat =>
    obtain ⟨hmem, hid⟩ := mem_of_connAt hat
    by_cases hon : d.initiated = true
    · obtain ⟨ptr, hptr⟩ := Option.isSome_iff_exists.mp (hproper hon t hmem hid)
      exact h.notifyDisconnect hmem hptr alloc
    · unfold Drc.notifyDisconnect
      rw [if_neg hon]
      exact h
  | switchOn =>
    have ht := h.tables
    exact ⟨⟨ht.noFault, ht.lruPos, ht.opsNodup, ht.opsFresh, ht.ptrsNodup, ht.ptrsFresh,
      ht.addrsNodup, ht.idsNodup, ht.connsKnown, ht.attachedTo, ht.owned, ht.keys, ht.opCount,
      ht.clientCount⟩, fun c hc => ⟨(h.counted c hc).ref, (h.counted c hc).positive,
      (h.counted c hc).opCount, (h.counted c hc).sorted, (h.counted c hc).nodes⟩⟩
  | lookup id key alloc =>
    simp only [Drc.step]
    split
    · next t _ hat =>
      exact h.lookupAndAnswer hord (mem_of_connAt hat).1 (hkey key rfl) alloc
    · exact h
  | cacheRequest id key mem alloc =>
    simp only [Drc.step]
    split
    · next t _ hat =>
      exact h.cacheRequest hord (mem_of_connAt hat).1 (hkey key rfl) mem alloc
    · exact h
  | cacheReply ptr => exact h.cacheReply ptr
  | vacate => exact (h.vacate hord).1

/-- Every run of proper events keeps the invariant. -/
lemma inv_run (globalCacheSize : Nat) {lruFactor : Nat} (hlru : 0 < lruFactor) {es : List DrcEvent}
    (hkeys : ∀ e ∈ es, ∀ key, e.key? = some key → K key)
    (hproper : Throughout Drc.step Proper es (init globalCacheSize lruFactor)) :
    Inv base K [] (runAll Drc.step es (init globalCacheSize lruFactor)) := by
  have hinit : Inv base K [] (init globalCacheSize lruFactor) := inv_init globalCacheSize hlru
  generalize init globalCacheSize lruFactor = d at *
  induction es generalizing d with
  | nil => exact hinit
  | cons e es ih =>
    apply ih (fun e' he' => hkeys e' (mem_cons_of_mem _ he')) _ hproper.2
    exact hinit.step hord hproper.1 (hkeys e mem_cons_self)

/-- A look-up finds exactly the requests of the client at the address of the connection. -/
lemma Inv.lookup_eq_some_iff (h : Inv base K [] d) {t : Transport} (hmem : t ∈ d.conns)
    {key : ReqKey} (hkey : K key) (alloc : Bool) {r : OpRef} :
    (d.rpcsvcDrcLookup t key alloc).1 = some r ↔
      ∃ op ∈ d.cache, (op.client, t.sockaddr) ∈ d.peers ∧ op.key = key ∧ op.toRef = r := by
  -- After the connection is attached, the client at its address is known by its pointer.
  have hfind : ∀ {d' : Drc} {ptr : Nat}, Inv base K [] d' → d'.cache = d.cache →
      (∀ w ∈ d.peers, w ∈ d'.peers) → (ptr, t.sockaddr) ∈ d'.peers →
      d.attachFor t alloc = (some ptr, d') →
      ((d.rpcsvcDrcLookup t key alloc).1 = some r ↔
        ∃ op ∈ d.cache, (op.client, t.sockaddr) ∈ d.peers ∧ op.key = key ∧ op.toRef = r) := by
    intro d' ptr hinv hcache hsub hpeer hat
    obtain ⟨c, hc, rfl, hclient⟩ := exists_client (mem_map.mpr ⟨_, hpeer, rfl⟩)
    have hresult : (d.rpcsvcDrcLookup t key alloc).1 = findOp key c := by
      unfold rpcsvcDrcLookup
      rw [hat]
      dsimp only
      rw [hclient]
    rw [hresult, hinv.findOp_eq_some_iff hord hc hkey, hcache]
    constructor
    · rintro ⟨op, hop, hptr, hrest⟩
      refine ⟨op, hop, ?_, hrest⟩
      obtain ⟨w, hw, hfst⟩ := mem_map.mp (h.tables.owned op hop)
      have heq : w = (c.ptr, t.sockaddr) :=
        inj_on_of_nodup_map hinv.tables.ptrsNodup (hsub w hw) hpeer (hfst.trans hptr)
      rw [hptr, ← heq]
      exact hw
    · rintro ⟨op, hop, hw, hrest⟩
      have heq := inj_on_of_nodup_map hinv.tables.addrsNodup (hsub _ hw) hpeer rfl
      exact ⟨op, hop, congrArg Prod.fst heq, hrest⟩
  cases hclient : t.drcClient with
  | some ptr =>
    apply hfind h rfl (fun _ hw => hw) (h.tables.attachedTo t hmem ptr hclient)
    simp [attachFor, hclient]
  | none =>
    rcases h.getDrcClient (h.tables.connsKnown t hmem) alloc with
      ⟨heq, hnew⟩ | ⟨ptr, d', heq, hpeer, hinv, hc, hcache, hsub⟩
    · have hnone : (d.rpcsvcDrcLookup t key alloc).1 = none := by
        simp [rpcsvcDrcLookup, attachFor, hclient, heq]
      rw [hnone]
      constructor
      · intro hsome
        cases hsome
      · rintro ⟨op, -, hw, -⟩
        exact absurd (mem_map.mpr ⟨_, hw, rfl⟩) hnew
    · have hpeers : ((d'.clientRef ptr).attach t.id (some ptr)).peers = d'.peers := peers_clientRef
      apply hfind (hinv.attachNew (hc ▸ hmem) hclient hpeer) hcache
      · rw [hpeers]
        exact hsub
      · rw [hpeers]
        exact hpeer
      · simp [attachFor, hclient, heq]

end Drc

open Drc

/-- Among requests whose transaction ids lie within half of the circle, each for one request, a
look-up finds a request if and only if it is in the cache. -/
theorem drc_lookup_exact (base : BitVec 32) (K : ReqKey → Prop) (hord : Ordered base K)
    (globalCacheSize lruFactor : Nat) (hlru : 0 < lruFactor) (es : List DrcEvent)
    (hkeys : ∀ e ∈ es, ∀ key, e.key? = some key → K key)
    (hproper : Throughout Drc.step Proper es (init globalCacheSize lruFactor))
    (t : Transport) (ht : t ∈ (runAll Drc.step es (init globalCacheSize lruFactor)).conns)
    (key : ReqKey) (hkey : K key) (alloc : Bool) (r : OpRef) :
    ((runAll Drc.step es (init globalCacheSize lruFactor)).rpcsvcDrcLookup t key alloc).1 = some r ↔
      ∃ op ∈ (runAll Drc.step es (init globalCacheSize lruFactor)).cache,
        (op.client, t.sockaddr) ∈ (runAll Drc.step es (init globalCacheSize lruFactor)).peers ∧
          op.key = key ∧ op.toRef = r :=
  (inv_run hord globalCacheSize hlru hkeys hproper).lookup_eq_some_iff hord ht hkey alloc

/-- The requests of a small run: two ids of one program. -/
def twoKeys (key : ReqKey) : Prop := key = ⟨5, 1, 3, 7⟩ ∨ key = ⟨6, 1, 3, 7⟩

/-- The events of a small run: a request is cached, then answered. -/
def smallRun : List DrcEvent :=
  [.switchOn, .accept 1 (.inet 9) true, .lookup 1 ⟨5, 1, 3, 7⟩ true,
    .cacheRequest 1 ⟨5, 1, 3, 7⟩ true true, .cacheReply 1]

private lemma ordered_twoKeys : Ordered 0 twoKeys := by
  constructor
  · rintro k (rfl | rfl) <;> decide
  · rintro k k' (rfl | rfl) (rfl | rfl) heq
    · rfl
    · exact absurd heq (by decide)
    · exact absurd heq (by decide)
    · rfl

private lemma keys_smallRun : ∀ e ∈ smallRun, ∀ key, e.key? = some key → twoKeys key := by
  intro e he key hkey
  simp only [smallRun, mem_cons, not_mem_nil, or_false] at he
  rcases he with rfl | rfl | rfl | rfl | rfl <;> simp [DrcEvent.key?] at hkey ⊢
  · exact .inl hkey.symm
  · exact .inl hkey.symm

theorem drc_lookup_exact_again :
    ((runAll Drc.step smallRun (init 8 2)).rpcsvcDrcLookup ⟨1, .inet 9, some 0⟩ ⟨5, 1, 3, 7⟩
      true).1 = some ⟨1, ⟨5, 1, 3, 7⟩⟩ :=
  (drc_lookup_exact 0 twoKeys ordered_twoKeys 8 2 (by decide) smallRun keys_smallRun
    (by decide +kernel) ⟨1, .inet 9, some 0⟩ (by decide +kernel) ⟨5, 1, 3, 7⟩ (.inl rfl) true
    ⟨1, ⟨5, 1, 3, 7⟩⟩).mpr
      ⟨⟨1, .cached, ⟨5, 1, 3, 7⟩, 0⟩, by decide +kernel, by decide +kernel, rfl, rfl⟩

/-- Requests of one client are cached one after the other. -/
def cachedRun (keys : List ReqKey) : Drc :=
  runAll Drc.step ([.switchOn, .accept 1 (.inet 9) true] ++
    keys.map fun key => .cacheRequest 1 key true true) (init 64 2)

/-- Three programs with one transaction id, and eight ids of one program that do not fit into half
of the circle: in both runs a request is in the cache and is not found. -/
theorem drc_lookup_misses : ((cachedRun [⟨5, 1, 3, 7⟩, ⟨5, 2, 3, 7⟩, ⟨5, 3, 3, 7⟩]).rpcsvcDrcLookup
        ⟨1, .inet 9, some 0⟩ ⟨5, 1, 3, 7⟩ true).1 = none ∧
      ⟨1, .inTransit, ⟨5, 1, 3, 7⟩, 0⟩ ∈
        (cachedRun [⟨5, 1, 3, 7⟩, ⟨5, 2, 3, 7⟩, ⟨5, 3, 3, 7⟩]).cache ∧
      ((cachedRun ([0, 0x80000001, 1, 2, 3, 4, 5, 6].map fun xid => ⟨xid, 1, 3, 7⟩)).rpcsvcDrcLookup
        ⟨1, .inet 9, some 0⟩ ⟨0x80000001, 1, 3, 7⟩ true).1 = none ∧
      ⟨2, .inTransit, ⟨0x80000001, 1, 3, 7⟩, 0⟩ ∈
        (cachedRun ([0, 0x80000001, 1, 2, 3, 4, 5, 6].map fun xid => ⟨xid, 1, 3, 7⟩)).cache := by
  decide +kernel

/-- In every proper run the count of a client is the number of its requests and connections, it is
not negative, a client that has either is there, and the counters are the numbers of requests. -/
theorem drc_references_balanced (base : BitVec 32) (K : ReqKey → Prop) (hord : Ordered base K)
    (globalCacheSize lruFactor : Nat) (hlru : 0 < lruFactor) (es : List DrcEvent)
    (hkeys : ∀ e ∈ es, ∀ key, e.key? = some key → K key)
    (hproper : Throughout Drc.step Proper es (init globalCacheSize lruFactor)) :
    let d := runAll Drc.step es (init globalCacheSize lruFactor)
    (∀ c ∈ d.clients, c.ref = d.held c.ptr + d.attached c.ptr ∧ 0 ≤ c.ref ∧
        c.opCount = d.held c.ptr) ∧
      (∀ ptr, 0 < d.held ptr + d.attached ptr → ∃ c ∈ d.clients, c.ptr = ptr) ∧
      d.opCount = d.cache.length ∧ d.clientCount = d.clients.length ∧ d.fault = false := by
  intro d
  have h : Inv base K [] d := inv_run hord globalCacheSize hlru hkeys hproper
  have ht := h.tables
  refine ⟨?_, ?_, ht.opCount, ht.clientCount, ht.noFault⟩
  · intro c hc
    have hcount := h.counted c hc
    have href := hcount.ref
    rw [count_nil] at href
    exact ⟨by omega, Int.le_of_lt hcount.positive, hcount.opCount⟩
  · intro ptr hpos
    have hp : ptr ∈ d.peers.map (·.1) := by
      by_cases hheld : 0 < d.held ptr
      · obtain ⟨op, hop, hclient⟩ := countP_pos_iff.mp hheld
        have heq : op.client = ptr := by simpa using hclient
        exact heq ▸ ht.owned op hop
      · have hatt : 0 < d.attached ptr := by omega
        obtain ⟨t, hmem, hclient⟩ := countP_pos_iff.mp hatt
        exact mem_map.mpr ⟨_, ht.attachedTo t hmem ptr (by simpa using hclient), rfl⟩
    obtain ⟨c, hc, hptr, -⟩ := exists_client hp
    exact ⟨c, hc, hptr⟩

theorem drc_references_balanced_again :
    let d := runAll Drc.step smallRun (init 8 2)
    (∀ c ∈ d.clients, c.ref = d.held c.ptr + d.attached c.ptr ∧ 0 ≤ c.ref ∧
        c.opCount = d.held c.ptr) ∧
      (∀ ptr, 0 < d.held ptr + d.attached ptr → ∃ c ∈ d.clients, c.ptr = ptr) ∧
      d.opCount = d.cache.length ∧ d.clientCount = d.clients.length ∧ d.fault = false :=
  drc_references_balanced 0 twoKeys ordered_twoKeys 8 2 (by decide) smallRun keys_smallRun
    (by decide +kernel)

/-- A connection that is older than the cache goes: a client is made for it, and has minus one
reference. If another connection from its address is attached, that one's client is removed. -/
theorem drc_references_lost :
    (runAll Drc.step [.accept 1 (.inet 9) true, .switchOn, .disconnect 1 true]
      (init 8 2)).clients.map (·.ref) = [-1] ∧
    (runAll Drc.step [.accept 1 (.inet 9) true, .switchOn, .accept 2 (.inet 9) true,
      .disconnect 1 true] (init 8 2)).clients = [] ∧
    (runAll Drc.step [.accept 1 (.inet 9) true, .switchOn, .accept 2 (.inet 9) true,
      .disconnect 1 true] (init 8 2)).attached 0 = 1 := by
  decide +kernel

end TagItGluster.Rpc
