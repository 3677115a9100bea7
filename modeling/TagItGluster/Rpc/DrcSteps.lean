import TagItGluster.Rpc.DrcInv

/-!
# Requests enter and leave the cache

A new client starts with the reference of whoever asked for it. A request that is evicted leaves its
reference pending, and one that is added takes over a pending reference.
-/

namespace TagItGluster.Rpc

open Base List

namespace Drc

variable {base : BitVec 32} {K : ReqKey → Prop} {pending : List Nat} {d : Drc}

private lemma Tables.unused (h : Tables K d) : d.held d.nextPtr = 0 ∧ d.attached d.nextPtr = 0 := by
  constructor
  · apply countP_eq_zero.mpr
    intro op hop
    obtain ⟨w, hw, heq⟩ := mem_map.mp (h.owned op hop)
    have := h.ptrsFresh w hw
    simp only [decide_eq_true_eq]
    omega
  · apply countP_eq_zero.mpr
    intro t ht
    simp only [decide_eq_true_eq]
    intro heq
    have := h.ptrsFresh _ (h.attachedTo t ht _ heq)
    omega

/-- A client for a new address, with one reference. -/
lemma Inv.create (h : Inv base K [] d) {addr : SockAddr} (hnew : addr ∉ d.peers.map (·.2)) :
    Inv base K [d.nextPtr] { d with
        clients := ⟨d.nextPtr, 1, addr, .nil, 0⟩ :: d.clients
        clientCount := d.clientCount + 1
        nextPtr := d.nextPtr + 1 } := by
  have ht := h.tables
  have hunused := ht.unused
  have hfresh : d.nextPtr ∉ d.peers.map (·.1) := by
    intro hmem
    obtain ⟨w, hw, heq⟩ := mem_map.mp hmem
    have := ht.ptrsFresh w hw
    omega
  refine ⟨⟨ht.noFault, ht.lruPos, ht.opsNodup, ?_, ?_, ?_, ?_, ht.idsNodup, ht.connsKnown, ?_, ?_,
    ht.keys, ht.opCount, ?_⟩, ?_⟩
  · exact fun op hop => Nat.lt_succ_of_lt (ht.opsFresh op hop)
  · exact nodup_cons.mpr ⟨hfresh, ht.ptrsNodup⟩
  · intro w hw
    rcases mem_cons.mp hw with rfl | hw
    · exact Nat.lt_succ_self _
    · exact Nat.lt_succ_of_lt (ht.ptrsFresh w hw)
  · exact nodup_cons.mpr ⟨hnew, ht.addrsNodup⟩
  · exact fun t hmem ptr hptr => mem_cons_of_mem _ (ht.attachedTo t hmem ptr hptr)
  · exact fun op hop => mem_cons_of_mem _ (ht.owned op hop)
  · have hcc := ht.clientCount
    simp only [length_cons]
    omega
  · intro c hc
    rcases mem_cons.mp hc with rfl | hc
    · refine ⟨?_, Int.one_pos, ?_, List.Pairwise.nil, ?_⟩
      · change 1 = (d.held d.nextPtr : Int) + d.attached d.nextPtr +
          ([d.nextPtr].count d.nextPtr : Nat)
        rw [hunused.1, hunused.2, count_singleton_self]
        rfl
      · change 0 = (d.held d.nextPtr : Int)
        rw [hunused.1]
        rfl
      · intro r
        constructor
        · intro hr
          cases hr
        · rintro ⟨op, hop, hclient, -⟩
          have := countP_eq_zero.mp hunused.1 op hop
          simp [hclient] at this
    · have hcount := h.counted c hc
      have hne : c.ptr ≠ d.nextPtr := fun heq => hfresh (heq ▸ mem_ptrs hc)
      refine ⟨?_, hcount.positive, hcount.opCount, hcount.sorted, hcount.nodes⟩
      rw [count_cons_of_ne (Ne.symm hne)]
      exact hcount.ref

variable {op : CachedOp}

lemma Tables.mem_erase (h : Tables K d) {o : CachedOp} :
    o ∈ d.cache.erase op ↔ o ≠ op ∧ o ∈ d.cache :=
  (List.Nodup.of_map _ h.opsNodup).mem_erase_iff

lemma Inv.tree_keys (h : Inv base K pending d) {c : DrcClient} (hc : c ∈ d.clients) :
    ∀ r ∈ c.rbtree.toList, K r.key := by
  intro r hr
  obtain ⟨o, ho, -, rfl⟩ := ((h.counted c hc).nodes r).mp hr
  exact h.tables.keys o ho

/-- The client of an evicted request. -/
def dropOp (op : CachedOp) (c : DrcClient) : DrcClient :=
  { c with
    rbtree := RbTree.rbDelete compareRefs op.toRef c.rbtree
    opCount := c.opCount - 1 }

/-- The cache without a request. -/
def evicted (op : CachedOp) (d : Drc) : Drc :=
  { d with
    clients := updateAt DrcClient.ptr op.client (dropOp op) d.clients
    cache := d.cache.erase op
    opCount := d.opCount - 1 }

private lemma held_evicted (hop : op ∈ d.cache) (ptr : Nat) :
    d.held ptr = (evicted op d).held ptr + if op.client = ptr then 1 else 0 := by
  unfold held
  rw [(perm_cons_erase hop).countP_eq, countP_cons]
  simp [evicted]

private lemma Tables.evict (h : Tables K d) (hop : op ∈ d.cache) : Tables K (evicted op d) := by
  have hsub : (d.cache.erase op).Sublist d.cache := erase_sublist
  have hm := h.modify op.client (dropOp op) fun c => ⟨rfl, rfl⟩
  refine ⟨hm.noFault, hm.lruPos, (hsub.map _).nodup h.opsNodup,
    fun o ho => h.opsFresh o (hsub.subset ho), hm.ptrsNodup, hm.ptrsFresh, hm.addrsNodup,
    hm.idsNodup, hm.connsKnown, hm.attachedTo, fun o ho => hm.owned o (hsub.subset ho),
    fun o ho => h.keys o (hsub.subset ho), ?_, hm.clientCount⟩
  have hlen := (perm_cons_erase hop).length_eq
  have hoc := h.opCount
  rw [length_cons] at hlen
  change d.opCount - 1 = ((d.cache.erase op).length : Int)
  omega

/-- A request leaves the tree and the list, and its reference is pending. -/
lemma Inv.evict (hord : Ordered base K) (h : Inv base K pending d) (hop : op ∈ d.cache) :
    Inv base K (op.client :: pending) (evicted op d) := by
  have ht := h.tables
  refine ⟨ht.evict hop, ?_⟩
  intro c' hc'
  rcases mem_updateAt hc' with ⟨c, hc, ⟨hptr, rfl⟩ | ⟨hne, rfl⟩⟩
  · have hcount := h.counted c hc
    have href := hcount.ref
    have hoc := hcount.opCount
    have hheld := held_evicted hop c.ptr
    rw [if_pos hptr.symm] at hheld
    have hself : op.toRef ∈ c.rbtree.toList := (hcount.nodes _).mpr ⟨op, hop, hptr.symm, rfl⟩
    have hdel := hcount.sorted.rbDelete hord (h.tree_keys hc) hself
    refine ⟨?_, hcount.positive, ?_, hdel.1, ?_⟩
    · rw [← hptr]
      change c.ref = ((evicted op d).held c.ptr : Int) + d.attached c.ptr +
        ((c.ptr :: pending).count c.ptr : Nat)
      rw [count_cons_self]
      omega
    · change c.opCount - 1 = ((evicted op d).held c.ptr : Int)
      omega
    · intro r
      refine (hdel.2 r).trans ?_
      constructor
      · rintro ⟨hr, hne⟩
        obtain ⟨o, ho, hclient, rfl⟩ := (hcount.nodes r).mp hr
        refine ⟨o, ht.mem_erase.mpr ⟨?_, ho⟩, hclient, rfl⟩
        rintro rfl
        exact hne rfl
      · rintro ⟨o, ho, hclient, rfl⟩
        have ho' := ht.mem_erase.mp ho
        refine ⟨(hcount.nodes _).mpr ⟨o, ho'.2, hclient, rfl⟩, ?_⟩
        intro heq
        exact ho'.1 (inj_on_of_nodup_map ht.opsNodup ho'.2 hop (congrArg OpRef.ptr heq))
  · have hcount := h.counted c' hc
    have hheld := held_evicted hop c'.ptr
    rw [if_neg (Ne.symm hne)] at hheld
    have href := hcount.ref
    have hoc := hcount.opCount
    rw [hheld] at href hoc
    refine ⟨?_, hcount.positive, hoc, hcount.sorted, ?_⟩
    · rw [count_cons_of_ne (Ne.symm hne)]
      exact href
    intro r
    refine (hcount.nodes r).trans ?_
    constructor
    · rintro ⟨o, ho, hclient, rfl⟩
      refine ⟨o, ht.mem_erase.mpr ⟨?_, ho⟩, hclient, rfl⟩
      rintro rfl
      exact hne hclient.symm
    · rintro ⟨o, ho, hclient, rfl⟩
      exact ⟨o, (ht.mem_erase.mp ho).2, hclient, rfl⟩

/-- The cache with a new request, for which the client has a new tree. -/
def added (op : CachedOp) (tree : RbTree OpRef) (d : Drc) : Drc :=
  { d with
    clients := updateAt DrcClient.ptr op.client
      (fun c => { c with rbtree := tree, opCount := c.opCount + 1 }) d.clients
    cache := op :: d.cache
    opCount := d.opCount + 1 }

/-- A request enters the tree and the list, and takes over a pending reference. -/
lemma Inv.add (h : Inv base K (op.client :: pending) d) (hfresh : op.ptr < d.nextPtr)
    (hnew : ∀ o ∈ d.cache, o.ptr ≠ op.ptr) (hkey : K op.key) {c : DrcClient} (hc : c ∈ d.clients)
    (hptr : c.ptr = op.client) {tree : RbTree OpRef} (hsorted : Sorted base tree.toList)
    (hnodes : ∀ r, r ∈ tree.toList ↔ r = op.toRef ∨ r ∈ c.rbtree.toList) :
    Inv base K pending (added op tree d) := by
  have ht := h.tables
  have hm := ht.modify op.client (fun c => { c with rbtree := tree, opCount := c.opCount + 1 })
    fun c => ⟨rfl, rfl⟩
  have hheld : ∀ ptr, (added op tree d).held ptr =
      d.held ptr + if op.client = ptr then 1 else 0 := by
    intro ptr
    simp [held, added, countP_cons]
  refine ⟨⟨hm.noFault, hm.lruPos, ?_, ?_, hm.ptrsNodup, hm.ptrsFresh, hm.addrsNodup, hm.idsNodup,
    hm.connsKnown, hm.attachedTo, ?_, ?_, ?_, hm.clientCount⟩, ?_⟩
  · refine nodup_cons.mpr ⟨?_, ht.opsNodup⟩
    intro hmem
    obtain ⟨o, ho, heq⟩ := mem_map.mp hmem
    exact hnew o ho heq
  · intro o ho
    rcases mem_cons.mp ho with rfl | ho
    · exact hfresh
    · exact ht.opsFresh o ho
  · intro o ho
    rcases mem_cons.mp ho with rfl | ho
    · have hpeers : peers (added o tree d) = d.peers := map_updateAt _ fun _ _ => rfl
      rw [hpeers, ← hptr]
      exact mem_ptrs hc
    · exact hm.owned o ho
  · intro o ho
    rcases mem_cons.mp ho with rfl | ho
    · exact hkey
    · exact ht.keys o ho
  · have hoc := ht.opCount
    change d.opCount + 1 = ((op :: d.cache).length : Int)
    rw [length_cons]
    omega
  · intro c' hc'
    rcases mem_updateAt hc' with ⟨b, hb, ⟨hbptr, rfl⟩ | ⟨hne, rfl⟩⟩
    · have heq : b = c := inj_on_of_nodup_map ht.clientsNodup hb hc (hbptr.trans hptr.symm)
      subst heq
      have hcount := h.counted b hb
      have href := hcount.ref
      have hoc := hcount.opCount
      have hh := hheld b.ptr
      rw [if_pos hptr.symm] at hh
      rw [← hptr, count_cons_self] at href
      refine ⟨?_, hcount.positive, ?_, hsorted, ?_⟩
      · change b.ref = ((added op tree d).held b.ptr : Int) + d.attached b.ptr + pending.count b.ptr
        omega
      · change b.opCount + 1 = ((added op tree d).held b.ptr : Int)
        omega
      intro r
      refine (hnodes r).trans ?_
      constructor
      · rintro (rfl | hr)
        · exact ⟨op, mem_cons_self, hptr.symm, rfl⟩
        · obtain ⟨o, ho, hclient, rfl⟩ := (hcount.nodes r).mp hr
          exact ⟨o, mem_cons_of_mem _ ho, hclient, rfl⟩
      · rintro ⟨o, ho, hclient, rfl⟩
        rcases mem_cons.mp ho with rfl | ho
        · exact .inl rfl
        · exact .inr ((hcount.nodes _).mpr ⟨o, ho, hclient, rfl⟩)
    · have hcount := h.counted c' hb
      have hh := hheld c'.ptr
      rw [if_neg (Ne.symm hne), add_zero] at hh
      have href := hcount.ref
      have hoc := hcount.opCount
      rw [count_cons_of_ne (Ne.symm hne)] at href
      rw [← hh] at href hoc
      refine ⟨href, hcount.positive, hoc, hcount.sorted, ?_⟩
      intro r
      refine (hcount.nodes r).trans ?_
      constructor
      · rintro ⟨o, ho, hclient, rfl⟩
        exact ⟨o, mem_cons_of_mem _ ho, hclient, rfl⟩
      · rintro ⟨o, ho, hclient, rfl⟩
        rcases mem_cons.mp ho with rfl | ho
        · exact absurd hclient.symm hne
        · exact ⟨o, ho, hclient, rfl⟩

end Drc

end TagItGluster.Rpc
