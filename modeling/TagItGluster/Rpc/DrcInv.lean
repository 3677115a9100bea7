import TagItGluster.Rpc.DrcOrder

/-!
# The references of a client

A reference is held by a request in the cache or by a connection. Between the two halves of an
operation a reference has been taken and is not held yet, or is not held any more and has not been
dropped; such references are pending. The count of a client is what is held plus what is pending.
-/

namespace TagItGluster.Rpc

open Base List

lemma eq_of_gfSockUnionEqualAddr {a b : SockAddr} (h : gfSockUnionEqualAddr a b) :
    a = b := by
  cases a <;> cases b <;> simp_all [gfSockUnionEqualAddr]

namespace Drc

/-- The requests in the cache that belong to a client. -/
def held (ptr : Nat) (d : Drc) : Nat := d.cache.countP (·.client = ptr)

/-- The connections that are attached to a client. -/
def attached (ptr : Nat) (d : Drc) : Nat := d.conns.countP (·.drcClient = some ptr)

/-- The clients as pointers and addresses. -/
def peers (d : Drc) : List (Nat × SockAddr) := d.clients.map fun c => (c.ptr, c.sockaddr)

/-- What the lists say of each other, whatever the counts of the clients are. -/
structure Tables (K : ReqKey → Prop) (d : Drc) : Prop where
  noFault : d.fault = false
  lruPos : 0 < d.lruFactor
  opsNodup : (d.cache.map (·.ptr)).Nodup
  opsFresh : ∀ op ∈ d.cache, op.ptr < d.nextPtr
  ptrsNodup : (d.peers.map (·.1)).Nodup
  ptrsFresh : ∀ w ∈ d.peers, w.1 < d.nextPtr
  addrsNodup : (d.peers.map (·.2)).Nodup
  idsNodup : (d.conns.map (·.id)).Nodup
  connsKnown : ∀ t ∈ d.conns, gfSockUnionEqualAddr t.sockaddr t.sockaddr = true
  attachedTo : ∀ t ∈ d.conns, ∀ ptr, t.drcClient = some ptr → (ptr, t.sockaddr) ∈ d.peers
  owned : ∀ op ∈ d.cache, op.client ∈ d.peers.map (·.1)
  keys : ∀ op ∈ d.cache, K op.key
  opCount : d.opCount = d.cache.length
  clientCount : d.clientCount = d.clients.length

/-- What a client says of its requests and references. -/
structure Counted (base : BitVec 32) (pending : List Nat) (d : Drc) (c : DrcClient) : Prop where
  ref : c.ref = d.held c.ptr + d.attached c.ptr + pending.count c.ptr
  positive : 0 < c.ref
  opCount : c.opCount = d.held c.ptr
  sorted : Sorted base c.rbtree.toList
  nodes : ∀ r, r ∈ c.rbtree.toList ↔ ∃ op ∈ d.cache, op.client = c.ptr ∧ op.toRef = r

/-- The invariant, with the references that are pending. -/
structure Inv (base : BitVec 32) (K : ReqKey → Prop) (pending : List Nat) (d : Drc) : Prop where
  tables : Tables K d
  counted : ∀ c ∈ d.clients, Counted base pending d c

variable {base : BitVec 32} {K : ReqKey → Prop} {pending : List Nat} {d : Drc} {ptr : Nat}
  {c : DrcClient}

lemma exists_client (hp : ptr ∈ d.peers.map (·.1)) :
    ∃ c ∈ d.clients, c.ptr = ptr ∧ d.clientAt ptr = some c := by
  have hmem : ∃ c ∈ d.clients, c.ptr = ptr := by
    simpa [peers] using hp
  cases hat : d.clientAt ptr with
  | none =>
    obtain ⟨c, hc, hptr⟩ := hmem
    have := find?_eq_none.mp hat c hc
    simp [hptr] at this
  | some c =>
    have hfound := of_find?_key hat
    exact ⟨c, hfound.1, hfound.2, rfl⟩

lemma mem_ptrs (hc : c ∈ d.clients) : c.ptr ∈ d.peers.map (·.1) := by
  simpa [peers] using ⟨c, hc, rfl⟩

lemma Tables.clientsNodup (h : Tables K d) : (d.clients.map DrcClient.ptr).Nodup := by
  simpa [peers, Function.comp_def] using h.ptrsNodup

lemma modifyClient_eq (hp : ptr ∈ d.peers.map (·.1)) (f : DrcClient → DrcClient) :
    d.modifyClient ptr f = { d with clients := updateAt DrcClient.ptr ptr f d.clients } := by
  obtain ⟨c, -, -, hat⟩ := exists_client hp
  simp [modifyClient, hat]

/-- Writing to a client keeps the tables, if its pointer and address stay. -/
lemma Tables.modify (h : Tables K d) (ptr : Nat) (f : DrcClient → DrcClient)
    (hf : ∀ c, (f c).ptr = c.ptr ∧ (f c).sockaddr = c.sockaddr) :
    Tables K { d with clients := updateAt DrcClient.ptr ptr f d.clients } := by
  have hpeers : peers { d with clients := updateAt DrcClient.ptr ptr f d.clients } = d.peers :=
    map_updateAt _ fun c _ => by simp [hf c]
  refine ⟨h.noFault, h.lruPos, h.opsNodup, h.opsFresh, ?_, ?_, ?_, h.idsNodup, h.connsKnown, ?_, ?_,
    h.keys, h.opCount, ?_⟩
  · rw [hpeers]
    exact h.ptrsNodup
  · rw [hpeers]
    exact h.ptrsFresh
  · rw [hpeers]
    exact h.addrsNodup
  · rw [hpeers]
    exact h.attachedTo
  · rw [hpeers]
    exact h.owned
  · simpa [updateAt] using h.clientCount

/-- A client after a write is one before it, changed if it is the one that is written to. -/
lemma mem_updateAt {f : DrcClient → DrcClient} {c' : DrcClient} {cs : List DrcClient}
    (h : c' ∈ updateAt DrcClient.ptr ptr f cs) :
    ∃ c ∈ cs, (c.ptr = ptr ∧ c' = f c) ∨ (c.ptr ≠ ptr ∧ c' = c) := by
  obtain ⟨c, hc, rfl⟩ := mem_map.mp h
  by_cases heq : c.ptr = ptr
  · exact ⟨c, hc, .inl ⟨heq, if_pos heq⟩⟩
  · exact ⟨c, hc, .inr ⟨heq, if_neg heq⟩⟩

lemma Inv.clientRef (h : Inv base K pending d) (hp : ptr ∈ d.peers.map (·.1)) :
    Inv base K (ptr :: pending) (d.clientRef ptr) := by
  unfold Drc.clientRef
  rw [modifyClient_eq hp]
  refine ⟨h.tables.modify _ _ fun c => ⟨rfl, rfl⟩, ?_⟩
  intro c' hc'
  rcases mem_updateAt hc' with ⟨c, hc, ⟨rfl, rfl⟩ | ⟨hne, rfl⟩⟩
  · have hcount := h.counted c hc
    have href := hcount.ref
    refine ⟨?_, ?_, hcount.opCount, hcount.sorted, hcount.nodes⟩
    · rw [count_cons_self]
      change c.ref + 1 = (d.held c.ptr : Int) + d.attached c.ptr + (pending.count c.ptr + 1 : Nat)
      omega
    · dsimp only
      omega
  · have hcount := h.counted c' hc
    refine ⟨?_, hcount.positive, hcount.opCount, hcount.sorted, hcount.nodes⟩
    rw [count_cons_of_ne (Ne.symm hne)]
    exact hcount.ref

lemma Counted.tree_nil (h : Counted base pending d c) (hheld : d.held c.ptr = 0) :
    c.rbtree.toList = [] := by
  apply eq_nil_iff_forall_not_mem.mpr
  intro r hr
  obtain ⟨op, hop, hclient, -⟩ := (h.nodes r).mp hr
  have := countP_eq_zero.mp hheld op hop
  simp [hclient] at this

/-- A client that nothing refers to is taken out of the table. -/
lemma Inv.remove (h : Inv base K pending d) (hc : c ∈ d.clients) (hheld : d.held c.ptr = 0)
    (hatt : d.attached c.ptr = 0) :
    Inv base K pending { d with
        clients := d.clients.filter (·.ptr ≠ c.ptr)
        clientCount := d.clientCount - 1 } := by
  have ht := h.tables
  have hsub : (d.clients.filter (·.ptr ≠ c.ptr)).Sublist d.clients := filter_sublist
  have hpeers := hsub.map fun c => (c.ptr, c.sockaddr)
  have hkept : ∀ w ∈ d.peers, w.1 ≠ c.ptr →
      w ∈ (d.clients.filter (·.ptr ≠ c.ptr)).map fun c => (c.ptr, c.sockaddr) := by
    intro w hw hne
    obtain ⟨c', hc', rfl⟩ := mem_map.mp hw
    apply mem_map_of_mem
    simpa using ⟨hc', hne⟩
  refine ⟨⟨ht.noFault, ht.lruPos, ht.opsNodup, ht.opsFresh, ?_, ?_, ?_, ht.idsNodup, ht.connsKnown,
    ?_, ?_, ht.keys, ht.opCount, ?_⟩, ?_⟩
  · exact (hpeers.map _).nodup ht.ptrsNodup
  · exact fun w hw => ht.ptrsFresh w (hpeers.subset hw)
  · exact (hpeers.map _).nodup ht.addrsNodup
  · intro t hmem ptr hptr
    apply hkept _ (ht.attachedTo t hmem ptr hptr)
    rintro rfl
    have := countP_eq_zero.mp hatt t hmem
    simp [hptr] at this
  · intro op hop
    obtain ⟨w, hw, hfst⟩ := mem_map.mp (ht.owned op hop)
    apply mem_map.mpr ⟨w, hkept w hw _, hfst⟩
    intro heq
    have := countP_eq_zero.mp hheld op hop
    simp [← hfst, heq] at this
  · -- The pointers are distinct, so that one client goes.
    have hlen := (perm_key ht.clientsNodup hc rfl).length_eq
    rw [length_cons] at hlen
    have hcc := ht.clientCount
    dsimp only
    omega
  · intro c' hc'
    have hcount := h.counted c' (hsub.subset hc')
    exact ⟨hcount.ref, hcount.positive, hcount.opCount, hcount.sorted, hcount.nodes⟩

/-- Only what is pending for the clients that are there matters. -/
lemma Inv.congr_pending (h : Inv base K pending d) {pending' : List Nat}
    (heq : ∀ c ∈ d.clients, pending'.count c.ptr = pending.count c.ptr) :
    Inv base K pending' d := by
  refine ⟨h.tables, fun c hc => ?_⟩
  have hcount := h.counted c hc
  refine ⟨?_, hcount.positive, hcount.opCount, hcount.sorted, hcount.nodes⟩
  rw [heq c hc]
  exact hcount.ref

/-- A pending reference is dropped; with the last one the client goes. -/
lemma Inv.clientUnref (h : Inv base K (ptr :: pending) d) (hp : ptr ∈ d.peers.map (·.1)) :
    Inv base K pending (d.clientUnref ptr) := by
  obtain ⟨c, hc, rfl, hat⟩ := exists_client hp
  have hcount := h.counted c hc
  have href := hcount.ref
  rw [count_cons_self] at href
  unfold Drc.clientUnref
  rw [hat]
  dsimp only
  by_cases hlast : c.ref - 1 = 0
  · have hheld : d.held c.ptr = 0 := by omega
    have hatt : d.attached c.ptr = 0 := by omega
    rw [if_pos hlast]
    unfold removeDrcClient
    rw [hcount.tree_nil hheld]
    apply (h.remove hc hheld hatt).congr_pending
    intro c' hc'
    have hne : c'.ptr ≠ c.ptr := by simpa using (mem_filter.mp hc').2
    rw [count_cons_of_ne (Ne.symm hne)]
  · rw [if_neg hlast, modifyClient_eq hp]
    refine ⟨h.tables.modify _ _ fun c => ⟨rfl, rfl⟩, ?_⟩
    intro c' hc'
    rcases mem_updateAt hc' with ⟨b, hb, ⟨hptr, rfl⟩ | ⟨hne, rfl⟩⟩
    · have hcb := h.counted b hb
      have heq : b = c := inj_on_of_nodup_map h.tables.clientsNodup hb hc hptr
      subst heq
      refine ⟨?_, ?_, hcb.opCount, hcb.sorted, hcb.nodes⟩
      · change b.ref - 1 = (d.held b.ptr : Int) + d.attached b.ptr + pending.count b.ptr
        omega
      · dsimp only
        omega
    · have hcb := h.counted c' hb
      refine ⟨?_, hcb.positive, hcb.opCount, hcb.sorted, hcb.nodes⟩
      have hrefb := hcb.ref
      rw [count_cons_of_ne (Ne.symm hne)] at hrefb
      exact hrefb

/-- A connection changes its client; the pending references make up for the difference. -/
lemma Inv.attach (h : Inv base K pending d) {pending' : List Nat} {t : Transport}
    (hmem : t ∈ d.conns) {client : Option Nat}
    (hclient : ∀ ptr, client = some ptr → (ptr, t.sockaddr) ∈ d.peers)
    (hbalance : ∀ c ∈ d.clients, (if client = some c.ptr then 1 else 0) + pending'.count c.ptr =
        (if t.drcClient = some c.ptr then 1 else 0) + pending.count c.ptr) :
    Inv base K pending' (d.attach t.id client) := by
  have ht := h.tables
  have hids : (d.attach t.id client).conns.map (·.id) = d.conns.map (·.id) :=
    map_updateAt _ fun _ _ => rfl
  have hconn : ∀ u ∈ (d.attach t.id client).conns, u ∈ d.conns ∨
      u = { t with drcClient := client } := by
    intro u hu
    obtain ⟨v, hv, rfl⟩ := mem_map.mp hu
    by_cases heq : v.id = t.id
    · have : v = t := inj_on_of_nodup_map ht.idsNodup hv hmem heq
      subst this
      exact .inr (if_pos rfl)
    · rw [if_neg heq]
      exact .inl hv
  refine ⟨⟨ht.noFault, ht.lruPos, ht.opsNodup, ht.opsFresh, ht.ptrsNodup, ht.ptrsFresh,
    ht.addrsNodup, ?_, ?_, ?_, ht.owned, ht.keys, ht.opCount, ht.clientCount⟩, ?_⟩
  · rw [hids]
    exact ht.idsNodup
  · intro u hu
    rcases hconn u hu with hu | rfl
    · exact ht.connsKnown u hu
    · exact ht.connsKnown t hmem
  · intro u hu ptr hptr
    rcases hconn u hu with hu | rfl
    · exact ht.attachedTo u hu ptr hptr
    · exact hclient ptr hptr
  · intro c hc
    have hcount := h.counted c hc
    refine ⟨?_, hcount.positive, hcount.opCount, hcount.sorted, hcount.nodes⟩
    have hnodup : (d.conns.map Transport.id).Nodup := ht.idsNodup
    have hmove := countP_updateAt (f := fun t : Transport => { t with drcClient := client })
      (fun t => decide (t.drcClient = some c.ptr)) hnodup hmem rfl
    have hbal := hbalance c hc
    have href := hcount.ref
    simp only [decide_eq_true_eq] at hmove
    change c.ref = (d.held c.ptr : Int) + ((updateAt Transport.id t.id
      (fun t => { t with drcClient := client }) d.conns).countP fun t =>
        decide (t.drcClient = some c.ptr) : Nat) + pending'.count c.ptr
    unfold attached at href
    omega

end Drc

end TagItGluster.Rpc
