import Mathlib.Data.List.Pairwise
import TagItGluster.Libglusterfs.RotBuffs

/-!
# Rotational buffers: every area arrives once

The invariant says where each buffer and each area is: a buffer is in the rotation or with the
consumer, an area was dispatched or waits in one buffer. The counters of a buffer differ by the
number of its writers, so equal counters mean that there are none; a consumer that sleeps although
the counters are equal is owed a signal. Every step keeps the invariant.
-/

namespace TagItGluster.Libglusterfs

open Base List Option

/-! ### One buffer -/

namespace Rlist

variable {l : Rlist} {id bytes : Nat} {mem : Option Nat}

/-- What `used`, `total` and the lengths say about the vectors of a buffer. -/
structure Shaped (l : Rlist) : Prop where
  used_eq : l.used = l.before.length + 1
  total_eq : l.total = l.veclist.length
  tiled : ∀ v ∈ l.before ++ [l.rvec], v.Tiled

private lemma Shaped.usedVecs_eq (h : l.Shaped) : l.usedVecs = l.before ++ [l.rvec] := by
  have hveclist : l.veclist = (l.before ++ [l.rvec]) ++ l.after := by simp [veclist]
  rw [usedVecs, hveclist]
  exact take_left' (by simp [h.used_eq])

private lemma Shaped.content_eq (h : l.Shaped) :
    l.content = l.before.flatMap Rvec.areas ++ l.rvec.areas := by
  simp [content, h.usedVecs_eq]

/-- What a successful reservation does to a buffer. -/
structure Extended (id : Nat) (mem : Option Nat) (l l' : Rlist) (area : WriteArea) : Prop where
  id_eq : l'.id = l.id
  awaiting_eq : l'.awaiting = l.awaiting
  pending_eq : l'.pending = l.pending
  completed_eq : l'.completed = l.completed
  shaped : l'.Shaped
  content_eq : l'.content = l.content ++ [area]
  area_id : area.id = id
  mems_eq : l'.mems = l.mems ∨ ∃ m, mem = some m ∧ l'.mems = l.mems ++ [m]

@[simp] lemma mems_adjust (id bytes : Nat) (l : Rlist) : (l.adjust id bytes).1.mems = l.mems := by
  simp [adjust, mems, veclist, Rvec.adjustWriteArea]

section

variable (h : l.Shaped)
include h

/-- The vector in use takes one more area. -/
lemma Shaped.adjust (hfits : l.rvec.iovLen + bytes ≤ rotBuffAllocSize) (id : Nat)
    (mem : Option Nat) :
    Extended id mem l (l.adjust id bytes).1 (l.adjust id bytes).2 := by
  have hshaped : (l.adjust id bytes).1.Shaped := by
    refine ⟨h.used_eq, ?_, ?_⟩
    · simpa [Rlist.adjust, veclist] using h.total_eq
    · intro v hv
      rcases mem_append.mp hv with hv | hv
      · exact h.tiled v (mem_append_left _ hv)
      · rw [mem_singleton.mp hv]
        exact (h.tiled l.rvec (by simp)).adjust hfits id
  refine ⟨rfl, rfl, rfl, rfl, hshaped, ?_, rfl, .inl ?_⟩
  · rw [hshaped.content_eq, h.content_eq]
    simp [Rlist.adjust, Rvec.adjustWriteArea]
  · exact mems_adjust id bytes l

/-- A buffer with a fresh vector in use has the same content. -/
lemma Shaped.addNewVec (hlast : l.after = []) (m : Nat) :
    (l.addNewVec m).Shaped ∧ (l.addNewVec m).content = l.content ∧
      (l.addNewVec m).mems = l.mems ++ [m] := by
  have hveclist : l.veclist = l.before ++ [l.rvec] := by rw [veclist, hlast]
  have hshaped : (l.addNewVec m).Shaped := by
    refine ⟨?_, ?_, ?_⟩
    · simp [Rlist.addNewVec, hveclist, h.used_eq]
    · have htotal := h.total_eq
      simp [Rlist.addNewVec, veclist] at htotal ⊢
      omega
    · intro v hv
      rcases mem_append.mp hv with hv | hv
      · exact h.tiled v (hveclist ▸ hv)
      · rw [mem_singleton.mp hv]
        exact Rvec.tiled_nil m
  refine ⟨hshaped, ?_, ?_⟩
  · rw [hshaped.content_eq, h.content_eq]
    simp [Rlist.addNewVec, hveclist]
  · simp [mems, Rlist.addNewVec, veclist]

/-- So has one whose next vector is taken into use. -/
lemma Shaped.advance {v : Rvec} {rest : List Rvec} (hafter : l.after = v :: rest) :
    (l.advance v rest).Shaped ∧ (l.advance v rest).content = l.content ∧
      (l.advance v rest).mems = l.mems := by
  have hshaped : (l.advance v rest).Shaped := by
    refine ⟨?_, ?_, ?_⟩
    · simp [Rlist.advance, h.used_eq]
    · have htotal := h.total_eq
      simp [Rlist.advance, veclist, hafter] at htotal ⊢
      omega
    · intro w hw
      rcases mem_append.mp hw with hw | hw
      · exact h.tiled w hw
      · rw [mem_singleton.mp hw]
        exact v.tiled_reset
  refine ⟨hshaped, ?_, ?_⟩
  · rw [hshaped.content_eq, h.content_eq]
    simp [Rlist.advance, Rvec.reset]
  · simp [Rlist.advance, mems, veclist, hafter, Rvec.reset]

private lemma allocWriteArea_spec (hbytes : bytes ≤ rotBuffAllocSize) {r : Rlist × WriteArea}
    (heq : l.allocWriteArea id bytes mem = some r) : Extended id mem l r.1 r.2 := by
  unfold allocWriteArea at heq
  split at heq
  next hfits =>
    rw [← Option.some.inj heq]
    exact h.adjust hfits id mem
  next =>
    split at heq
    next hlast =>
      obtain ⟨m, rfl, rfl⟩ := map_eq_some_iff.mp heq
      obtain ⟨hshaped, hcontent, hmems⟩ := h.addNewVec hlast m
      have hfits : (l.addNewVec m).rvec.iovLen + bytes ≤ rotBuffAllocSize := by
        simpa [Rlist.addNewVec] using hbytes
      have hext := hshaped.adjust hfits id (some m)
      refine { hext with content_eq := ?_, mems_eq := .inr ⟨m, rfl, ?_⟩ }
      · rw [hext.content_eq, hcontent]
      · rw [mems_adjust, hmems]
    next v rest hafter =>
      rw [← Option.some.inj heq]
      obtain ⟨hshaped, hcontent, hmems⟩ := h.advance hafter
      have hfits : (l.advance v rest).rvec.iovLen + bytes ≤ rotBuffAllocSize := by
        simpa [Rlist.advance, Rvec.reset] using hbytes
      have hext := hshaped.adjust hfits id mem
      refine { hext with content_eq := ?_, mems_eq := .inl ?_ }
      · rw [hext.content_eq, hcontent]
      · rw [mems_adjust, hmems]

end

private lemma shrinkCount_lt (decay : Decay) {total : Nat} (h : 0 < total) :
    shrinkCount decay total < total := by
  unfold shrinkCount
  split
  · exact h
  · exact decay.shrink_lt total h

/-- A buffer that is put back has no area, and only allocations it had. -/
structure Emptied (l l' : Rlist) : Prop where
  id_eq : l'.id = l.id
  pending_eq : l'.pending = 0
  completed_eq : l'.completed = 0
  shaped : l'.Shaped
  content_eq : l'.content = []
  mems_sublist : l'.mems.Sublist l.mems

private lemma recycle_spec (decay : Decay) (h : l.Shaped) : Emptied l (l.recycle decay) := by
  have hpos : 0 < l.total := by
    rw [h.total_eq, veclist, length_append, length_cons]
    omega
  have hlt := shrinkCount_lt decay hpos
  unfold recycle
  split
  next hdrop =>
    rw [drop_eq_nil_iff, ← h.total_eq] at hdrop
    omega
  next v rest hdrop =>
    have hlength := congrArg List.length hdrop
    rw [length_drop, ← h.total_eq] at hlength
    have hshaped : (l.restart v rest (l.total - shrinkCount decay l.total)).Shaped := by
      refine ⟨rfl, hlength, ?_⟩
      intro w hw
      rw [mem_singleton.mp hw]
      exact v.tiled_reset
    refine ⟨rfl, rfl, rfl, hshaped, ?_, ?_⟩
    · rw [hshaped.content_eq]
      simp [restart, Rvec.reset]
    · have hmems : (l.restart v rest (l.total - shrinkCount decay l.total)).mems =
          (v :: rest).map Rvec.mem := by
        simp [restart, mems, veclist, Rvec.reset]
      rw [hmems, ← hdrop]
      exact (drop_sublist _ _).map Rvec.mem

end Rlist

/-! ### All buffers -/

namespace Rbuf

/-- The areas of a buffer that were not dispatched. -/
def undelivered (c : RbufConsumer) (l : Rlist) : List WriteArea :=
  if c = .dispatched l.id then [] else l.content

/-- The areas that wait for the consumer. -/
def held (s : Rbuf) : List WriteArea := s.lists.flatMap (undelivered s.consumer)

/-- What holds of a buffer in the phases of the consumer that has it. -/
structure PhaseOk (c : RbufConsumer) (notifying : List Nat) (l : Rlist) : Prop where
  awaiting : c = .marked l.id ∨ c = .asleep l.id → l.awaiting = true
  signal : c = .asleep l.id → l.completed = l.pending → l.id ∈ notifying
  done : c = .dispatched l.id → l.completed = l.pending
  empty : c = .recycled l.id → l.pending = 0

/-- The buffers by themselves: no two are one, and no allocation is in two vectors. -/
structure Stored (lists : List Rlist) (nextMem : Nat) : Prop where
  ids : (lists.map Rlist.id).Nodup
  shaped : ∀ l ∈ lists, l.Shaped
  pending : ∀ l ∈ lists, l.pending = l.content.length
  mems : (lists.flatMap Rlist.mems).Nodup
  mems_lt : ∀ m ∈ lists.flatMap Rlist.mems, m < nextMem

/-- The invariant: each buffer is in the rotation or with the consumer, and the current one is the
first of the rotation; each area was dispatched or waits in one buffer; the two counters of a buffer
differ by the writers it has; behind the current buffer all buffers are empty. -/
structure Inv (s : Rbuf) : Prop extends Stored s.lists s.nextMem where
  rotation : (s.freelist ++ s.consumer.buffer.toList).Perm (s.lists.map Rlist.id)
  current : s.freelist.head? = some s.current
  numbered : s.reserved.map WriteArea.id = List.range s.reserved.length
  conserved : (s.delivered ++ s.held).Perm s.reserved
  writing_mem : ∀ w ∈ s.writing, ∃ l ∈ s.lists, l.id = w.1 ∧ w.2 ∈ l.content
  writing_nodup : (s.writing.map Prod.snd).Nodup
  counted : ∀ l ∈ s.lists, l.completed + s.writing.countP (·.1 = l.id) = l.pending
  phase : ∀ l ∈ s.lists, PhaseOk s.consumer s.notifying l
  quiet : ∀ l ∈ s.lists, l.id ∈ s.freelist → l.id ≠ s.current → l.pending = 0
  tiled : ∀ vs ∈ s.dispatches, ∀ v ∈ vs, v.Tiled

variable {s : Rbuf} {l l' x : Rlist} {i : Nat} {c : RbufConsumer} {a : WriteArea}

private lemma undelivered_of_ne (h : c.buffer ≠ some l.id) : undelivered c l = l.content := by
  apply if_neg
  rintro rfl
  exact h rfl

private lemma undelivered_eq (hc : ∀ i, c ≠ .dispatched i) : undelivered c = Rlist.content := by
  funext l
  exact if_neg (hc l.id)

private lemma of_list? (h : s.list? i = some l) : l ∈ s.lists ∧ l.id = i := of_find?_key h

private lemma mem_setList (hl : l ∈ s.lists) (hid : l'.id = l.id) :
    x ∈ (s.setList l').lists ↔ x = l' ∨ (x ∈ s.lists ∧ x.id ≠ l.id) := by
  unfold setList
  rw [mem_updateAt, hid]
  constructor
  · rintro (⟨_, _, _, rfl⟩ | h)
    · exact .inl rfl
    · exact .inr h
  · rintro (rfl | h)
    · exact .inl ⟨l, hl, rfl, rfl⟩
    · exact .inr h

/-- What holds of the changed buffer and of the others holds of all. -/
lemma forall_setList {P : Rlist → Prop} (hl : l ∈ s.lists) (hid : l'.id = l.id) (hl' : P l')
    (hothers : ∀ x ∈ s.lists, x.id ≠ l.id → P x) : ∀ x ∈ (s.setList l').lists, P x := by
  intro x hx
  rcases (mem_setList hl hid).mp hx with rfl | ⟨hx, hne⟩
  · exact hl'
  · exact hothers x hx hne

private lemma ids_setList (l' : Rlist) (s : Rbuf) :
    (s.setList l').lists.map Rlist.id = s.lists.map Rlist.id := by
  refine map_updateAt Rlist.id ?_
  intro a ha
  exact ha.symm

/-- What is read of all buffers before and after a change of one. -/
lemma perm_setList {β : Type} (g g' : Rlist → List β) (hids : (s.lists.map Rlist.id).Nodup)
    (hl : l ∈ s.lists) (hid : l'.id = l.id) (hg : ∀ x ∈ s.lists, x.id ≠ l.id → g' x = g x) :
    ∃ rest, (s.lists.flatMap g).Perm (g l ++ rest) ∧
      ((s.setList l').lists.flatMap g').Perm (g' l' ++ rest) := by
  unfold setList
  rw [hid]
  exact perm_flatMap_updateAt g g' hids hl rfl hg

/-- A change that keeps the areas of a buffer keeps the areas that wait. -/
lemma undelivered_setList (c : RbufConsumer) (hids : (s.lists.map Rlist.id).Nodup)
    (hl : l ∈ s.lists) (hid : l'.id = l.id) (hcontent : l'.content = l.content) :
    ((s.setList l').lists.flatMap (undelivered c)).Perm (s.lists.flatMap (undelivered c)) := by
  obtain ⟨rest, hbefore, hafter⟩ :=
    perm_setList (undelivered c) (undelivered c) hids hl hid (fun _ _ _ => rfl)
  have heq : undelivered c l' = undelivered c l := by
    rw [undelivered, undelivered, hid, hcontent]
  exact hafter.trans (heq ▸ hbefore.symm)

private lemma Stored.setList {nextMem nextMem' : Nat} (h : Stored s.lists nextMem)
    (hl : l ∈ s.lists)
    (hid : l'.id = l.id) (hshaped : l'.Shaped) (hpending : l'.pending = l'.content.length)
    (hmems : (l'.mems.Sublist l.mems ∧ nextMem ≤ nextMem') ∨
      (l'.mems = l.mems ++ [nextMem] ∧ nextMem < nextMem')) :
    Stored (s.setList l').lists nextMem' := by
  obtain ⟨rest, hbefore, hafter⟩ :=
    perm_setList Rlist.mems Rlist.mems h.ids hl hid (fun _ _ _ => rfl)
  have hsub : ((s.setList l').lists.flatMap Rlist.mems).Subperm
      (nextMem :: s.lists.flatMap Rlist.mems) := by
    refine hafter.subperm.trans (.trans ?_ (hbefore.symm.cons nextMem).subperm)
    rcases hmems with ⟨hsub, -⟩ | ⟨heq, -⟩
    · exact ((hsub.append_right rest).cons nextMem).subperm
    · rw [heq, append_assoc]
      exact perm_middle.subperm
  have hnodup : (nextMem :: s.lists.flatMap Rlist.mems).Nodup :=
    nodup_cons.mpr ⟨fun hm => Nat.lt_irrefl _ (h.mems_lt _ hm), h.mems⟩
  constructor
  case ids => exact (ids_setList l' s).symm ▸ h.ids
  case shaped => exact forall_setList hl hid hshaped fun x hx _ => h.shaped x hx
  case pending => exact forall_setList hl hid hpending fun x hx _ => h.pending x hx
  case mems =>
    obtain ⟨_, hperm, hsub⟩ := hsub
    exact hperm.nodup_iff.mp (hnodup.sublist hsub)
  case mems_lt =>
    intro m hm
    rcases hmems with ⟨hsub, hle⟩ | ⟨heq, hlt⟩
    · have hm := (hsub.append_right rest).subset (hafter.subset hm)
      exact Nat.lt_of_lt_of_le (h.mems_lt m (hbefore.symm.subset hm)) hle
    · rcases mem_cons.mp (hsub.subset hm) with rfl | hm
      · exact hlt
      · exact Nat.lt_trans (h.mems_lt m hm) hlt

/-- A change of a buffer that leaves its areas and its allocations. -/
structure Kept (l l' : Rlist) : Prop where
  id_eq : l'.id = l.id
  pending_eq : l'.pending = l.pending
  content_eq : l'.content = l.content
  mems_eq : l'.mems = l.mems
  shaped : l.Shaped → l'.Shaped

private lemma Kept.of_counters (completed : Nat) (awaiting : Bool) :
    Kept l { l with completed := completed, awaiting := awaiting } :=
  ⟨rfl, rfl, rfl, rfl, fun h => ⟨h.used_eq, h.total_eq, h.tiled⟩⟩

namespace Inv

variable (h : s.Inv)
include h

private lemma eq_of_id (hl : l ∈ s.lists) (hx : x ∈ s.lists) (hid : x.id = l.id) : x = l :=
  inj_on_of_nodup_map h.ids hx hl hid

private lemma rotation_nodup : (s.freelist ++ s.consumer.buffer.toList).Nodup :=
  h.rotation.nodup_iff.mpr h.ids

private lemma current_mem : s.current ∈ s.freelist := mem_of_mem_head? h.current

private lemma buffer_ne (hi : i ∈ s.freelist) : s.consumer.buffer ≠ some i := by
  intro heq
  have hnodup := h.rotation_nodup
  rw [heq] at hnodup
  exact (nodup_append.mp hnodup).2.2 i hi i (by simp) rfl

private lemma list?_of_mem (hl : l ∈ s.lists) : s.list? l.id = some l :=
  find?_key_of_mem h.ids hl rfl

/-- The buffer of a writer has no fewer pending than completed writes. -/
lemma completed_lt (hl : l ∈ s.lists) {a : WriteArea} (hw : (l.id, a) ∈ s.writing) :
    l.completed < l.pending := by
  have hcounted := h.counted l hl
  have hpos : 0 < s.writing.countP (·.1 = l.id) := countP_pos_iff.mpr ⟨_, hw, by simp⟩
  omega

variable {w : Nat × WriteArea}

private lemma held_of_writing (hw : w ∈ s.writing) : w.2 ∈ s.held := by
  obtain ⟨l, hl, hid, hmem⟩ := h.writing_mem w hw
  refine mem_flatMap.mpr ⟨l, hl, ?_⟩
  have hlt := h.completed_lt hl (by rw [hid]; exact hw)
  have hne : s.consumer ≠ .dispatched l.id := by
    intro heq
    have := (h.phase l hl).done heq
    omega
  rw [undelivered, if_neg hne]
  exact hmem

/-- Only the dispatch changes what waits. -/
lemma conserved_of {c : RbufConsumer} (hs : ∀ i, s.consumer ≠ .dispatched i)
    (hc : ∀ i, c ≠ .dispatched i) :
    (s.delivered ++ s.lists.flatMap (undelivered c)).Perm s.reserved := by
  rw [undelivered_eq hc, ← undelivered_eq hs]
  exact h.conserved

private lemma reserved_nodup : s.reserved.Nodup := by
  apply List.Nodup.of_map WriteArea.id
  rw [h.numbered]
  exact nodup_range

/-- A change that keeps the areas of a buffer loses no writer. -/
lemma writing_setList (hl : l ∈ s.lists) (hid : l'.id = l.id) (hsub : l.content ⊆ l'.content)
    (hw : w ∈ s.writing) : ∃ x ∈ (s.setList l').lists, x.id = w.1 ∧ w.2 ∈ x.content := by
  obtain ⟨x, hx, hxid, hxmem⟩ := h.writing_mem w hw
  by_cases hxl : x.id = l.id
  · refine ⟨l', (mem_setList hl hid).mpr (.inl rfl), hid.trans (hxl.symm.trans hxid), hsub ?_⟩
    exact h.eq_of_id hl hx hxl ▸ hxmem
  · exact ⟨x, (mem_setList hl hid).mpr (.inr ⟨hx, hxl⟩), hxid, hxmem⟩

private lemma stored_setList (hl : l ∈ s.lists) (hk : Kept l l') :
    Stored (s.setList l').lists s.nextMem := by
  refine h.toStored.setList hl hk.id_eq (hk.shaped (h.shaped l hl)) ?_
    (.inl ⟨hk.mems_eq ▸ .refl _, Nat.le_refl _⟩)
  rw [hk.pending_eq, hk.content_eq, h.pending l hl]

private lemma quiet_setList (hl : l ∈ s.lists) (hk : Kept l l') : ∀ x ∈ (s.setList l').lists,
    x.id ∈ s.freelist → x.id ≠ s.current → x.pending = 0 := by
  refine forall_setList hl hk.id_eq ?_ fun x hx _ => h.quiet x hx
  rw [hk.id_eq, hk.pending_eq]
  exact h.quiet l hl

private lemma id_lt {a : WriteArea} (ha : a ∈ s.reserved) : a.id < s.reserved.length := by
  have := mem_map_of_mem (f := WriteArea.id) ha
  rwa [h.numbered, mem_range] at this

/-! ### Writers -/

private lemma reserveWriteArea (bytes : Nat) (memory : Bool) :
    (s.reserveWriteArea bytes memory).Inv := by
  unfold Rbuf.reserveWriteArea
  split
  · exact h
  next hbytes =>
  split
  · exact h
  next l hlist =>
  split
  · exact h
  next l₁ area heq =>
  obtain ⟨hl, hid⟩ := of_list? hlist
  have hext := Rlist.allocWriteArea_spec (h.shaped l hl) (by omega) heq
  obtain ⟨l', hl'⟩ : ∃ l', l' = { l₁ with pending := l₁.pending + 1 } := ⟨_, rfl⟩
  rw [← hl']
  have hid' : l'.id = l.id := by rw [hl']; exact hext.id_eq
  have hcontent : l'.content = l.content ++ [area] := by rw [hl']; exact hext.content_eq
  have hmems : l'.mems = l.mems ∨ l'.mems = l.mems ++ [s.nextMem] := by
    rw [hl']
    rcases hext.mems_eq with heq | ⟨m, hm, heq⟩
    · exact .inl heq
    · refine .inr (heq.trans ?_)
      cases memory with
      | false => cases hm
      | true => rw [Option.some.inj hm]
  have hbuffer : s.consumer.buffer ≠ some l.id := hid ▸ h.buffer_ne h.current_mem
  obtain ⟨rest, hheld₁, hheld₂⟩ := perm_setList (undelivered s.consumer)
    (undelivered s.consumer) h.ids hl hid' (fun _ _ _ => rfl)
  rw [undelivered_of_ne hbuffer] at hheld₁
  rw [undelivered_of_ne (hid' ▸ hbuffer), hcontent] at hheld₂
  have hareaNot : area ∉ s.writing.map Prod.snd := by
    intro hmem
    obtain ⟨w, hw, rfl⟩ := mem_map.mp hmem
    have := h.id_lt (h.conserved.subset (mem_append_right _ (h.held_of_writing hw)))
    rw [hext.area_id] at this
    omega
  constructor
  case toStored =>
    refine h.toStored.setList hl hid' ?_ ?_ ?_
    · rw [hl']
      exact ⟨hext.shaped.used_eq, hext.shaped.total_eq, hext.shaped.tiled⟩
    · rw [hcontent, length_append, ← h.pending l hl, hl']
      exact congrArg (· + 1) hext.pending_eq
    · rcases hmems with heq | heq
      · exact .inl ⟨heq ▸ .refl _, Nat.le_succ _⟩
      · exact .inr ⟨heq, Nat.lt_succ_self _⟩
  case rotation => exact (ids_setList l' s).symm ▸ h.rotation
  case current => exact h.current
  case numbered =>
    rw [map_append, h.numbered, map_singleton, hext.area_id, length_append,
      length_singleton, range_succ]
  case conserved =>
    have hperm : ((s.setList l').lists.flatMap (undelivered s.consumer)).Perm
        (s.held ++ [area]) := by
      refine hheld₂.trans ?_
      rw [append_assoc]
      refine perm_middle.trans ?_
      exact (hheld₁.symm.cons area).trans (perm_append_singleton _ _).symm
    refine (hperm.append_left _).trans ?_
    rw [← append_assoc]
    exact h.conserved.append_right _
  case writing_mem =>
    intro w hw
    rcases mem_cons.mp hw with rfl | hw
    · refine ⟨l', (mem_setList hl hid').mpr (.inl rfl), hid'.trans hid, ?_⟩
      rw [hcontent]
      exact mem_append_right _ (mem_singleton_self _)
    · refine h.writing_setList hl hid' ?_ hw
      rw [hcontent]
      exact subset_append_left _ _
  case writing_nodup => exact nodup_cons.mpr ⟨hareaNot, h.writing_nodup⟩
  case counted =>
    refine forall_setList hl hid' ?_ ?_
    · have := h.counted l hl
      have hcompleted : l'.completed = l.completed := by rw [hl']; exact hext.completed_eq
      have hpending : l'.pending = l.pending + 1 := by
        rw [hl']
        exact congrArg (· + 1) hext.pending_eq
      rw [countP_cons, hid', if_pos (by simp [hid])]
      omega
    · intro x hx hne
      rw [countP_cons, if_neg (by simpa [hid] using hne.symm)]
      exact h.counted x hx
  case phase =>
    refine forall_setList hl hid' ⟨?_, ?_, ?_, ?_⟩ fun x hx _ => h.phase x hx
    · rintro (heq | heq) <;> exact absurd (heq ▸ rfl) (hid' ▸ hbuffer)
    all_goals
      intro heq
      exact absurd (heq ▸ rfl) (hid' ▸ hbuffer)
  case quiet =>
    exact forall_setList hl hid' (fun _ hne => absurd (hid'.trans hid) hne) fun x hx _ =>
      h.quiet x hx
  case tiled => exact h.tiled

private lemma writeComplete (id : Nat) : (s.writeComplete id).Inv := by
  unfold Rbuf.writeComplete
  split
  · exact h
  next w hfind =>
  split
  · exact h
  next l hlist =>
  obtain ⟨hl, hid⟩ := of_list? hlist
  have hw : w ∈ s.writing := mem_of_find?_eq_some hfind
  have hlt := h.completed_lt hl (by rw [hid]; exact hw)
  obtain ⟨l', hl', hk, hcompleted, hawaiting⟩ : ∃ l', l' = { l with completed := l.completed + 1 } ∧
      Kept l l' ∧ l'.completed = l.completed + 1 ∧ l'.awaiting = l.awaiting :=
    ⟨_, rfl, .of_counters _ _, rfl, rfl⟩
  rw [← hl']
  have hnotifying : s.notifying ⊆ if l.awaiting && l.completed + 1 == l.pending then
      l.id :: s.notifying else s.notifying := by
    split
    · exact subset_cons_self _ _
    · exact List.Subset.refl _
  constructor
  case toStored => exact h.stored_setList hl hk
  case rotation => exact (ids_setList l' s).symm ▸ h.rotation
  case current => exact h.current
  case numbered => exact h.numbered
  case conserved =>
    have hheld := undelivered_setList s.consumer h.ids hl hk.id_eq hk.content_eq
    exact (hheld.append_left _).trans h.conserved
  case writing_mem =>
    intro v hv
    exact h.writing_setList hl hk.id_eq (hk.content_eq ▸ .refl _) (mem_of_mem_erase hv)
  case writing_nodup => exact h.writing_nodup.sublist (erase_sublist.map _)
  case counted =>
    refine forall_setList hl hk.id_eq ?_ ?_
    · have hcounted := h.counted l hl
      rw [countP_erase, hk.pending_eq, hk.id_eq, if_pos ⟨hw, by simp [hid]⟩]
      omega
    · intro x hx hne
      rw [countP_erase, if_neg (by simpa [hw, hid] using hne.symm)]
      exact h.counted x hx
  case phase =>
    refine forall_setList hl hk.id_eq ?_ ?_
    · have hphase := h.phase l hl
      refine ⟨?_, ?_, ?_, ?_⟩ <;> rw [hk.id_eq]
      · rw [hawaiting]
        exact hphase.awaiting
      · intro hc heq
        rw [hcompleted, hk.pending_eq] at heq
        rw [if_pos (by simp [hphase.awaiting (.inr hc), heq])]
        exact mem_cons_self
      · intro hc
        have := hphase.done hc
        omega
      · intro hc
        have := hphase.empty hc
        omega
    · intro x hx _
      exact { h.phase x hx with
        signal := fun hc heq => hnotifying ((h.phase x hx).signal hc heq) }
  case quiet => exact h.quiet_setList hl hk
  case tiled => exact h.tiled

/-! ### Wake-ups -/

private lemma wake (hc : s.consumer = .asleep i) (notifying : List Nat) :
    { s with notifying := notifying, consumer := .marked i }.Inv := by
  have hrotation := h.rotation
  rw [hc] at hrotation
  refine { h with rotation := hrotation, conserved := ?_, phase := ?_ }
  · exact h.conserved_of (by simp [hc]) (by simp)
  intro l hl
  refine ⟨?_, by simp, by simp, by simp⟩
  rintro (heq | heq)
  · rw [RbufConsumer.marked.injEq] at heq
    exact (h.phase l hl).awaiting (.inr (heq ▸ hc))
  · cases heq

private lemma notifyWaiter (i : Nat) : (s.notifyWaiter i).Inv := by
  unfold Rbuf.notifyWaiter
  split
  next hi =>
    by_cases hc : s.consumer = .asleep i
    · rw [if_pos hc]
      exact h.wake hc _
    rw [if_neg hc]
    refine { h with phase := ?_ }
    intro l hl
    refine { h.phase l hl with signal := ?_ }
    intro hasleep heq
    have hne : l.id ≠ i := by
      rintro rfl
      exact hc hasleep
    exact (mem_erase_of_ne hne).mpr ((h.phase l hl).signal hasleep heq)
  next => exact h

private lemma wakeUp : s.wakeUp.Inv := by
  unfold Rbuf.wakeUp
  split
  next i hc => exact h.wake hc s.notifying
  next => exact h

/-! ### The consumer -/

private lemma getBuffer (hc : s.consumer = .idle) : s.getBuffer.Inv := by
  unfold Rbuf.getBuffer
  split
  · exact h
  next l hlist =>
  split
  · exact h
  next =>
  split
  · exact h
  next hlength =>
  -- the current buffer is the first of the rotation, and another one follows
  obtain ⟨rest, hrest⟩ : ∃ rest, s.freelist = s.current :: rest :=
    ⟨_, eq_cons_of_mem_head? h.current⟩
  have hrotation := h.rotation
  have hnodup := h.rotation_nodup
  rw [hc, hrest] at hrotation hnodup
  cases hr : rest with
  | nil => simp [hrest, hr] at hlength
  | cons i rest' =>
    have herase : s.freelist.erase s.current = rest := by rw [hrest, erase_cons_head]
    rw [herase]
    refine { h with rotation := ?_, current := ?_, conserved := ?_, phase := ?_, quiet := ?_ }
    · refine .trans ?_ hrotation
      simp [RbufConsumer.buffer]
    · rw [hr]
      rfl
    · exact h.conserved_of (by simp [hc]) (by simp)
    · exact fun l _ => ⟨by simp, by simp, by simp, by simp⟩
    · intro x hx hfree _
      refine h.quiet x hx (hrest ▸ mem_cons_of_mem _ hfree) ?_
      rintro heq
      exact (nodup_cons.mp (nodup_append.mp hnodup).1).1 (heq ▸ hfree)

private lemma markWaiting (hc : s.consumer = .taken i) : (s.markWaiting i).Inv := by
  unfold Rbuf.markWaiting
  split
  · exact h
  next l hlist =>
  obtain ⟨hl, hid⟩ := of_list? hlist
  obtain ⟨l', hl', hk, hcompleted, hawaiting⟩ : ∃ l', l' = { l with awaiting := true } ∧
      Kept l l' ∧ l'.completed = l.completed ∧ l'.awaiting = true :=
    ⟨_, rfl, .of_counters _ true, rfl, rfl⟩
  rw [← hl']
  constructor
  case toStored => exact h.stored_setList hl hk
  case rotation =>
    have hrotation := h.rotation
    rw [hc] at hrotation
    exact (ids_setList l' s).symm ▸ hrotation
  case current => exact h.current
  case numbered => exact h.numbered
  case conserved =>
    have hheld := undelivered_setList (.marked i) h.ids hl hk.id_eq hk.content_eq
    exact (hheld.append_left _).trans (h.conserved_of (by simp [hc]) (by simp))
  case writing_mem =>
    exact fun w hw => h.writing_setList hl hk.id_eq (hk.content_eq ▸ .refl _) hw
  case writing_nodup => exact h.writing_nodup
  case counted =>
    refine forall_setList hl hk.id_eq ?_ fun x hx _ => h.counted x hx
    rw [hcompleted, hk.pending_eq, hk.id_eq]
    exact h.counted l hl
  case phase =>
    refine forall_setList hl hk.id_eq ⟨fun _ => hawaiting, by simp, by simp, by simp⟩ ?_
    intro x _ hne
    refine ⟨?_, by simp, by simp, by simp⟩
    rintro (heq | heq)
    · exact absurd ((RbufConsumer.marked.inj heq).symm.trans hid.symm) hne
    · cases heq
  case quiet => exact h.quiet_setList hl hk
  case tiled => exact h.tiled

private lemma waitForWriters (hc : s.consumer = .marked i) : (s.waitForWriters i).Inv := by
  have hrotation := h.rotation
  rw [hc] at hrotation
  unfold Rbuf.waitForWriters
  split
  · exact h
  next l hlist =>
  obtain ⟨hl, hid⟩ := of_list? hlist
  have hlists {x : Rlist} (hx : x ∈ s.lists) (hxi : i = x.id) : x = l :=
    h.eq_of_id hl hx (hxi.symm.trans hid.symm)
  split
  next hne =>
    refine { h with rotation := hrotation, conserved := ?_, phase := ?_ }
    · exact h.conserved_of (by simp [hc]) (by simp)
    intro x hx
    refine ⟨?_, ?_, by simp, by simp⟩
    · rintro (heq | heq)
      · cases heq
      · exact (h.phase x hx).awaiting (.inl (RbufConsumer.asleep.inj heq ▸ hc))
    · intro heq hdone
      rw [hlists hx (RbufConsumer.asleep.inj heq)] at hdone
      exact absurd hdone hne
  next hdone =>
    rw [not_not] at hdone
    refine { h with rotation := hrotation, conserved := ?_, phase := ?_, tiled := ?_ }
    · have hothers : ∀ x ∈ s.lists, x.id ≠ i → undelivered (.dispatched i) x = x.content := by
        intro x _ hx
        exact undelivered_of_ne (by simpa [RbufConsumer.buffer] using hx.symm)
      obtain ⟨rest, hbefore, hafter⟩ := perm_flatMap_updateAt _ _ h.ids hl hid hothers
      rw [updateAt_id, id_eq, undelivered, if_pos (by rw [hid])] at hafter
      have hconserved := h.conserved
      rw [held, undelivered_eq (by simp [hc])] at hconserved
      have hdelivered : ∀ d, { s with consumer := .dispatched i, dispatches := d }.delivered =
          d.flatten.flatMap Rvec.areas := fun _ => rfl
      rw [hdelivered, flatten_append, flatMap_append, flatten_singleton, append_assoc]
      refine .trans (.append_left _ ?_) hconserved
      exact (hafter.append_left _).trans hbefore.symm
    · intro x hx
      refine ⟨by simp, by simp, ?_, by simp⟩
      intro heq
      rw [hlists hx (RbufConsumer.dispatched.inj heq)]
      exact hdone
    · intro vs hvs v hv
      rcases mem_append.mp hvs with hvs | hvs
      · exact h.tiled vs hvs v hv
      · rw [mem_singleton.mp hvs, (h.shaped l hl).usedVecs_eq] at hv
        exact (h.shaped l hl).tiled v hv

private lemma recycleList (decay : Decay) (hc : s.consumer = .dispatched i) :
    (s.recycleList decay i).Inv := by
  unfold Rbuf.recycleList
  split
  · exact h
  next l hlist =>
  obtain ⟨hl, hid⟩ := of_list? hlist
  have hempty := Rlist.recycle_spec decay (h.shaped l hl)
  generalize l.recycle decay = l' at hempty ⊢
  -- the writers of the buffer are done
  have hdone := (h.phase l hl).done (hid ▸ hc)
  have hcount : s.writing.countP (·.1 = l.id) = 0 := by
    have := h.counted l hl
    omega
  constructor
  case toStored =>
    refine h.toStored.setList hl hempty.id_eq hempty.shaped ?_
      (.inl ⟨hempty.mems_sublist, Nat.le_refl _⟩)
    rw [hempty.pending_eq, hempty.content_eq, length_nil]
  case rotation =>
    have hrotation := h.rotation
    rw [hc] at hrotation
    exact (ids_setList l' s).symm ▸ hrotation
  case current => exact h.current
  case numbered => exact h.numbered
  case conserved =>
    have hothers : ∀ x ∈ s.lists, x.id ≠ l.id →
        undelivered (.recycled i) x = undelivered s.consumer x := by
      intro x _ hx
      rw [undelivered_eq (by simp), undelivered_of_ne]
      simpa [hc, RbufConsumer.buffer, ← hid] using hx.symm
    obtain ⟨rest, hbefore, hafter⟩ := perm_setList _ _ h.ids hl hempty.id_eq hothers
    rw [undelivered, if_pos (by rw [hc, hid])] at hbefore
    rw [undelivered_eq (by simp), hempty.content_eq] at hafter
    exact ((hafter.trans hbefore.symm).append_left _).trans h.conserved
  case writing_mem =>
    intro w hw
    obtain ⟨x, hx, hxid, hxmem⟩ := h.writing_mem w hw
    refine ⟨x, (mem_setList hl hempty.id_eq).mpr (.inr ⟨hx, ?_⟩), hxid, hxmem⟩
    intro hxl
    exact countP_eq_zero.mp hcount w hw (by simp [← hxid, hxl])
  case writing_nodup => exact h.writing_nodup
  case counted =>
    refine forall_setList hl hempty.id_eq ?_ fun x hx _ => h.counted x hx
    rw [hempty.completed_eq, hempty.pending_eq, hempty.id_eq, Nat.zero_add]
    exact hcount
  case phase =>
    refine forall_setList hl hempty.id_eq ⟨by simp, by simp, by simp, fun _ => hempty.pending_eq⟩ ?_
    intro x _ hne
    refine ⟨by simp, by simp, by simp, ?_⟩
    intro heq
    exact absurd ((RbufConsumer.recycled.inj heq).symm.trans hid.symm) hne
  case quiet =>
    exact forall_setList hl hempty.id_eq (fun _ _ => hempty.pending_eq) fun x hx _ => h.quiet x hx
  case tiled => exact h.tiled

private lemma putBack (hc : s.consumer = .recycled i) : (s.putBack i).Inv := by
  have hrotation := h.rotation
  rw [hc] at hrotation
  refine { h with
    rotation := ?_, current := ?_, conserved := ?_, phase := ?_, quiet := ?_ }
  · simpa [Rbuf.putBack, RbufConsumer.buffer] using hrotation
  · exact (head?_append_of_ne_nil _ (ne_nil_of_mem h.current_mem)).trans h.current
  · exact h.conserved_of (by simp [hc]) (by simp [Rbuf.putBack])
  · exact fun l _ => ⟨by simp [Rbuf.putBack], by simp [Rbuf.putBack], by simp [Rbuf.putBack],
      by simp [Rbuf.putBack]⟩
  · intro x hx hfree hne
    rcases mem_append.mp hfree with hfree | hfree
    · exact h.quiet x hx hfree hne
    · exact (h.phase x hx).empty (mem_singleton.mp hfree ▸ hc)

private lemma consume (decay : Decay) : (s.consume decay).Inv := by
  unfold Rbuf.consume
  split
  next hc => exact h.getBuffer hc
  next i hc => exact h.markWaiting hc
  next i hc => exact h.waitForWriters hc
  next => exact h
  next i hc => exact h.recycleList decay hc
  next i hc => exact h.putBack hc

private lemma step (decay : Decay) (e : RbufEvent) : (Rbuf.step decay e s).Inv := by
  cases e with
  | reserve bytes memory => exact h.reserveWriteArea bytes memory
  | complete id => exact h.writeComplete id
  | notify i => exact h.notifyWaiter i
  | consumer => exact h.consume decay
  | spurious => exact h.wakeUp

private lemma run (decay : Decay) (es : List RbufEvent) : (runAll (Rbuf.step decay) es s).Inv :=
  runAll_always _ Inv (fun e _ hs => hs.step decay e) es h

end Inv

private lemma shaped_init (id mem : Nat) : (Rlist.init id mem).Shaped where
  used_eq := rfl
  total_eq := rfl
  tiled := by
    intro v hv
    rw [mem_singleton.mp hv]
    exact Rvec.tiled_nil mem

private lemma bufferCount_pos (bufcount : Int) : 0 < bufferCount bufcount := by
  unfold bufferCount
  split
  · decide
  · omega

private lemma init_inv (bufcount : Int) : (init bufcount).Inv := by
  have hpos := bufferCount_pos bufcount
  unfold init
  generalize bufferCount bufcount = n at hpos ⊢
  have hids : ((List.range n).map fun j => Rlist.init j j).map Rlist.id = List.range n := by
    simp [Function.comp_def, Rlist.init]
  have hmems : ((List.range n).map fun j => Rlist.init j j).flatMap Rlist.mems = List.range n := by
    simp [flatMap_map, Rlist.mems, Rlist.veclist, Rlist.init]
  have hinit {l : Rlist} (hl : l ∈ (List.range n).map fun j => Rlist.init j j) :
      ∃ j, l = Rlist.init j j := by
    obtain ⟨j, -, rfl⟩ := mem_map.mp hl
    exact ⟨j, rfl⟩
  constructor
  case toStored =>
    refine ⟨?_, ?_, ?_, ?_, ?_⟩
    · rw [hids]
      exact nodup_range
    · intro l hl
      obtain ⟨j, rfl⟩ := hinit hl
      exact shaped_init j j
    · intro l hl
      obtain ⟨j, rfl⟩ := hinit hl
      rfl
    · rw [hmems]
      exact nodup_range
    · intro m hm
      rw [hmems] at hm
      exact mem_range.mp hm
  case rotation => rw [hids, RbufConsumer.buffer, Option.toList_none, append_nil]
  case current =>
    rw [head?_range, if_neg (Nat.ne_of_gt hpos)]
  case numbered => rfl
  case conserved =>
    have hheld : ((List.range n).map fun j => Rlist.init j j).flatMap (undelivered .idle) = [] := by
      rw [flatMap_eq_nil_iff]
      intro l hl
      obtain ⟨j, rfl⟩ := hinit hl
      rfl
    exact hheld ▸ .nil
  case writing_mem => simp
  case writing_nodup => exact .nil
  case counted =>
    intro l hl
    obtain ⟨j, rfl⟩ := hinit hl
    rfl
  case phase => exact fun l _ => ⟨by simp, by simp, by simp, by simp⟩
  case quiet =>
    intro l hl _ _
    obtain ⟨j, rfl⟩ := hinit hl
    rfl
  case tiled => simp

/-! ### Progress -/

/-- Only the buffer the consumer has is not empty. -/
def Quiet (s : Rbuf) : Prop := ∀ l ∈ s.lists, s.consumer.buffer ≠ some l.id → l.pending = 0

/-- Without further reservations the consumer can finish what it has begun. -/
def Settles (decay : Decay) (s : Rbuf) : Prop :=
  ∃ es, (runAll (step decay) es s).consumer = .idle ∧ (runAll (step decay) es s).writing = [] ∧
    (runAll (step decay) es s).reserved = s.reserved ∧
    (s.Quiet → (runAll (step decay) es s).Quiet)

/-- A step to a state of which this is known. -/
lemma Inv.settles_step (h : s.Inv) {decay : Decay} {e : RbufEvent} {t : Rbuf}
    (hstep : Rbuf.step decay e s = t) (ht : t.Inv → t.Settles decay)
    (hreserved : t.reserved = s.reserved)
    (hquiet : s.Quiet → t.Quiet) : s.Settles decay := by
  obtain ⟨es, hidle, hwriting, heq, hq⟩ := ht (hstep ▸ h.step decay e)
  refine ⟨e :: es, ?_⟩
  rw [runAll_cons, hstep]
  exact ⟨hidle, hwriting, heq.trans hreserved, hq ∘ hquiet⟩

namespace Inv

variable (h : s.Inv) (decay : Decay)
include h

private lemma exists_list (hc : s.consumer.buffer = some i) :
    ∃ l ∈ s.lists, l.id = i ∧ s.list? i = some l := by
  have hi : i ∈ s.lists.map Rlist.id := by
    refine h.rotation.subset (mem_append_right _ ?_)
    rw [hc]
    exact mem_singleton_self i
  obtain ⟨l, hl, hid⟩ := mem_map.mp hi
  exact ⟨l, hl, hid, hid ▸ h.list?_of_mem hl⟩

section

variable (hwriting : s.writing = [])
include hwriting

private lemma completed_eq (hl : l ∈ s.lists) : l.completed = l.pending := by
  have hcounted := h.counted l hl
  rw [hwriting] at hcounted
  exact hcounted

private lemma settles_recycled (hc : s.consumer = .recycled i) : s.Settles decay := by
  have hstep : Rbuf.step decay .consumer s = s.putBack i := by
    simp [Rbuf.step, Rbuf.consume, hc]
  refine ⟨[.consumer], ?_⟩
  rw [runAll_cons, hstep]
  refine ⟨rfl, hwriting, rfl, ?_⟩
  intro hq l hl _
  by_cases hid : l.id = i
  · exact (h.phase l hl).empty (hid ▸ hc)
  · exact hq l hl (by simpa [hc, RbufConsumer.buffer] using Ne.symm hid)

private lemma settles_dispatched (hc : s.consumer = .dispatched i) : s.Settles decay := by
  obtain ⟨l, hl, hid, hlist⟩ := h.exists_list (by rw [hc]; rfl)
  have hstep : Rbuf.step decay .consumer s =
      { s.setList (l.recycle decay) with consumer := .recycled i } := by
    simp [Rbuf.step, Rbuf.consume, hc, Rbuf.recycleList, hlist]
  have hempty := Rlist.recycle_spec decay (h.shaped l hl)
  refine h.settles_step hstep (·.settles_recycled decay hwriting rfl) rfl ?_
  intro hq
  exact forall_setList hl hempty.id_eq (fun _ => hempty.pending_eq) fun x hx _ hne =>
    hq x hx (by rw [hc]; exact hne)

private lemma settles_marked (hc : s.consumer = .marked i) : s.Settles decay := by
  obtain ⟨l, hl, hid, hlist⟩ := h.exists_list (by rw [hc]; rfl)
  have hdone := h.completed_eq hwriting hl
  have hstep : Rbuf.step decay .consumer s =
      { s with consumer := .dispatched i, dispatches := s.dispatches ++ [l.usedVecs] } := by
    simp [Rbuf.step, Rbuf.consume, hc, Rbuf.waitForWriters, hlist, hdone, not_true_eq_false]
  refine h.settles_step hstep (·.settles_dispatched decay hwriting rfl) rfl ?_
  intro hq x hx hne
  exact hq x hx (by rw [hc]; exact hne)

/-- A consumer that sleeps although its writers are done is about to be woken up. -/
lemma settles_asleep (hc : s.consumer = .asleep i) : s.Settles decay := by
  obtain ⟨l, hl, hid, hlist⟩ := h.exists_list (by rw [hc]; rfl)
  have hsignal : i ∈ s.notifying :=
    hid ▸ (h.phase l hl).signal (hid ▸ hc) (h.completed_eq hwriting hl)
  have hstep : Rbuf.step decay (.notify i) s =
      { s with notifying := s.notifying.erase i, consumer := .marked i } := by
    simp only [Rbuf.step, Rbuf.notifyWaiter, hc, hsignal]
    simp
  refine h.settles_step hstep (·.settles_marked decay hwriting rfl) rfl ?_
  intro hq x hx hne
  exact hq x hx (by rw [hc]; exact hne)

private lemma settles_taken (hc : s.consumer = .taken i) : s.Settles decay := by
  obtain ⟨l, hl, hid, hlist⟩ := h.exists_list (by rw [hc]; rfl)
  have hstep : Rbuf.step decay .consumer s =
      { s.setList { l with awaiting := true } with consumer := .marked i } := by
    simp [Rbuf.step, Rbuf.consume, hc, Rbuf.markWaiting, hlist]
  refine h.settles_step hstep (·.settles_marked decay hwriting rfl) rfl ?_
  intro hq
  have hkeep (x : Rlist) (hx : x ∈ s.lists) (hne : some i ≠ some x.id) : x.pending = 0 :=
    hq x hx (by rw [hc]; exact hne)
  exact forall_setList hl rfl (hkeep l hl) fun x hx _ => hkeep x hx

private lemma settles : s.Settles decay := by
  cases hc : s.consumer with
  | idle => exact ⟨[], hc, hwriting, rfl, id⟩
  | taken i => exact h.settles_taken decay hwriting hc
  | marked i => exact h.settles_marked decay hwriting hc
  | asleep i => exact h.settles_asleep decay hwriting hc
  | dispatched i => exact h.settles_dispatched decay hwriting hc
  | recycled i => exact h.settles_recycled decay hwriting hc

end

private lemma writers_finish : ∃ es, (runAll (Rbuf.step decay) es s).writing = [] ∧
    (runAll (Rbuf.step decay) es s).reserved = s.reserved := by
  induction hw : s.writing generalizing s with
  | nil => exact ⟨[], hw, rfl⟩
  | cons w ws ih =>
    obtain ⟨l, hl, hid, -⟩ := h.writing_mem w (by rw [hw]; exact mem_cons_self)
    have hlist : s.list? w.1 = some l := hid ▸ h.list?_of_mem hl
    have hfind : s.writing.find? (·.2.id = w.2.id) = some w := by
      rw [hw, find?_cons_of_pos (by simp)]
    have hstep : (Rbuf.step decay (.complete w.2.id) s).writing = ws ∧
        (Rbuf.step decay (.complete w.2.id) s).reserved = s.reserved := by
      simp only [Rbuf.step, Rbuf.writeComplete, hfind, hlist]
      exact ⟨by rw [hw, erase_cons_head], rfl⟩
    obtain ⟨es, hdone, hreserved⟩ := ih (h.step decay (.complete w.2.id)) hstep.1
    exact ⟨.complete w.2.id :: es, hdone, hreserved.trans hstep.2⟩

/-- In a quiet state without a buffer at the consumer nothing waits. -/
lemma delivered_all (hc : s.consumer = .idle) (hq : s.Quiet) : s.delivered.Perm s.reserved := by
  have hheld : s.held = [] := by
    rw [held, undelivered_eq (by simp [hc]), flatMap_eq_nil_iff]
    intro l hl
    have hpending := hq l hl (by simp [hc, RbufConsumer.buffer])
    rw [h.pending l hl] at hpending
    exact length_eq_zero_iff.mp hpending
  have hconserved := h.conserved
  rwa [hheld, append_nil] at hconserved

/-- From an idle state the consumer can get everything, if there is a buffer to go on with. -/
lemma idle_delivers (hc : s.consumer = .idle) (hwriting : s.writing = [])
    (hlength : 2 ≤ s.lists.length) : ∃ es,
      (runAll (Rbuf.step decay) es s).delivered.Perm (runAll (Rbuf.step decay) es s).reserved ∧
        (runAll (Rbuf.step decay) es s).reserved = s.reserved := by
  have hrotation := h.rotation
  rw [hc, RbufConsumer.buffer, toList_none, append_nil] at hrotation
  have hfree : s.freelist.length = s.lists.length := by rw [hrotation.length_eq, length_map]
  obtain ⟨l, hl, hid⟩ := mem_map.mp (hrotation.subset h.current_mem)
  have hlist : s.list? s.current = some l := hid ▸ h.list?_of_mem hl
  by_cases hpending : l.pending = 0
  · refine ⟨[], h.delivered_all hc ?_, rfl⟩
    intro x hx _
    by_cases hx' : x.id = s.current
    · rw [h.eq_of_id hl hx (hx'.trans hid.symm)]
      exact hpending
    · exact h.quiet x hx (hrotation.mem_iff.mpr (mem_map_of_mem hx)) hx'
  · have hstep : Rbuf.step decay .consumer s = { s with
        freelist := s.freelist.erase s.current
        current := (s.freelist.erase s.current).headD s.current
        consumer := .taken s.current } := by
      have hne : s.freelist.length ≠ 1 := by omega
      simp [Rbuf.step, Rbuf.consume, hc, Rbuf.getBuffer, hlist, hpending, hne]
    have hinv := h.step decay .consumer
    rw [hstep] at hinv
    obtain ⟨es, hidle, -, hreserved, hquiet⟩ := hinv.settles decay hwriting
    refine ⟨.consumer :: es, ?_⟩
    rw [runAll_cons, hstep]
    refine ⟨(hinv.run decay es).delivered_all hidle (hquiet ?_), hreserved⟩
    intro x hx hne
    refine h.quiet x hx (hrotation.mem_iff.mpr (mem_map_of_mem hx)) ?_
    intro heq
    exact hne (congrArg some heq.symm)

end Inv

private lemma ids_step (decay : Decay) (e : RbufEvent) (s : Rbuf) :
    (step decay e s).lists.map Rlist.id = s.lists.map Rlist.id := by
  cases e with
  | reserve bytes memory =>
    dsimp only [step, reserveWriteArea]
    split
    · rfl
    split
    · rfl
    split
    · rfl
    · exact ids_setList _ s
  | complete id =>
    dsimp only [step, writeComplete]
    split
    · rfl
    split
    · rfl
    · exact ids_setList _ s
  | notify i =>
    dsimp only [step, notifyWaiter]
    split <;> rfl
  | consumer =>
    dsimp only [step, consume]
    split
    · unfold getBuffer
      split
      · rfl
      split
      · rfl
      split <;> rfl
    · unfold markWaiting
      split
      · rfl
      · exact ids_setList _ s
    · unfold waitForWriters
      split
      · rfl
      split <;> rfl
    · rfl
    · unfold recycleList
      split
      · rfl
      · exact ids_setList _ s
    · rfl
  | spurious =>
    dsimp only [step, wakeUp]
    split <;> rfl

private lemma length_run (decay : Decay) (es : List RbufEvent) (s : Rbuf) :
    (runAll (step decay) es s).lists.length = s.lists.length := by
  have hids := runAll_always (step decay) (fun t => t.lists.map Rlist.id = s.lists.map Rlist.id)
    (fun e t ht => (ids_step decay e t).trans ht) es rfl
  rw [← length_map, hids, length_map]

/-! ### Whole runs -/

section

variable (h : s.Inv)
include h

private lemma Inv.apart : (s.writing.map Prod.snd).Pairwise WriteArea.Apart := by
  refine h.writing_nodup.pairwise_of_forall_ne ?_
  have hvec {a : WriteArea} (ha : a ∈ s.writing.map Prod.snd) :
      ∃ v ∈ s.lists.flatMap Rlist.veclist, v.Tiled ∧ a ∈ v.areas := by
    obtain ⟨w, hw, rfl⟩ := mem_map.mp ha
    obtain ⟨l, hl, -, hmem⟩ := h.writing_mem w hw
    obtain ⟨v, hv, hav⟩ := mem_flatMap.mp hmem
    refine ⟨v, mem_flatMap.mpr ⟨l, hl, mem_of_mem_take hv⟩, ?_, hav⟩
    rw [(h.shaped l hl).usedVecs_eq] at hv
    exact (h.shaped l hl).tiled v hv
  have hmems : ((s.lists.flatMap Rlist.veclist).map Rvec.mem).Nodup := by
    rw [map_flatMap]
    exact h.mems
  intro a ha b hb hne
  obtain ⟨v, hv, htiled, hav⟩ := hvec ha
  obtain ⟨v', hv', htiled', hbv⟩ := hvec hb
  by_cases hmem : a.mem = b.mem
  · -- one allocation is one vector, and there the areas follow each other
    have hvv : v = v' := by
      refine inj_on_of_nodup_map hmems hv hv' ?_
      rw [← htiled.mem_eq a hav, ← htiled'.mem_eq b hbv, hmem]
    have hpair := htiled.tiles.pairwise.imp (S := WriteArea.Apart) (fun hle => .inr (.inl hle))
    exact hpair.forall hav (hvv ▸ hbv) hne
  · exact .inl hmem

/-- An area being written is in a vector that was not freed. -/
lemma Inv.inside (ha : a ∈ s.writing.map Prod.snd) :
    ∃ l ∈ s.lists, ∃ v ∈ l.veclist, v.mem = a.mem ∧ a.off + a.len ≤ rotBuffAllocSize := by
  obtain ⟨w, hw, rfl⟩ := mem_map.mp ha
  obtain ⟨l, hl, -, hmem⟩ := h.writing_mem w hw
  obtain ⟨v, hv, hav⟩ := mem_flatMap.mp hmem
  have htiled : v.Tiled := by
    rw [(h.shaped l hl).usedVecs_eq] at hv
    exact (h.shaped l hl).tiled v hv
  refine ⟨l, hl, v, mem_of_mem_take hv, (htiled.mem_eq _ hav).symm, ?_⟩
  exact Nat.le_trans (htiled.tiles.inside hav).2 htiled.fits

lemma Inv.completed (ha : a ∈ s.delivered) : a ∈ s.reserved ∧ a ∉ s.writing.map Prod.snd := by
  refine ⟨h.conserved.subset (mem_append_left _ ha), ?_⟩
  intro hmem
  obtain ⟨w, hw, rfl⟩ := mem_map.mp hmem
  have hnodup := h.conserved.nodup_iff.mpr h.reserved_nodup
  exact (nodup_append.mp hnodup).2.2 _ ha _ (h.held_of_writing hw) rfl

private lemma Inv.count_eq_one (ha : a ∈ s.reserved) : (s.delivered ++ s.held).count a = 1 := by
  rw [h.conserved.count_eq]
  exact count_eq_one_of_mem h.reserved_nodup ha

private lemma Inv.delivers (decay : Decay) (hlength : 2 ≤ s.lists.length) :
    ∃ es, (runAll (Rbuf.step decay) es s).delivered.Perm (runAll (Rbuf.step decay) es s).reserved ∧
      (runAll (Rbuf.step decay) es s).reserved = s.reserved := by
  obtain ⟨es₁, hwriting₁, hreserved₁⟩ := h.writers_finish decay
  have h₁ := h.run decay es₁
  obtain ⟨es₂, hidle, hwriting₂, hreserved₂, -⟩ := h₁.settles decay hwriting₁
  have h₂ := h₁.run decay es₂
  rw [← runAll_append] at hidle hwriting₂ hreserved₂ h₂
  have hlength₂ : 2 ≤ (runAll (Rbuf.step decay) (es₁ ++ es₂) s).lists.length := by
    rw [length_run]
    exact hlength
  obtain ⟨es₃, hdelivered, hreserved₃⟩ := h₂.idle_delivers decay hidle hwriting₂ hlength₂
  refine ⟨es₁ ++ es₂ ++ es₃, ?_⟩
  rw [runAll_append]
  exact ⟨hdelivered, hreserved₃.trans (hreserved₂.trans hreserved₁)⟩

end

/-- In every run, areas that are reserved and not completed do not overlap and are in memory that is
allocated. Each reserved area was dispatched or waits in a buffer, and that once; it is dispatched
after its writer completed it. What is dispatched is filled by areas from the start to the end.
With more than one buffer the writers and the consumer can always go on so that all areas are
dispatched. The buffer for new areas is not with the consumer. -/
theorem areas_arrive_once (decay : Decay) (bufcount : Int) (es : List RbufEvent) :
    let s := runAll (step decay) es (init bufcount)
    (s.writing.map Prod.snd).Pairwise WriteArea.Apart ∧
    (∀ a ∈ s.writing.map Prod.snd, ∃ l ∈ s.lists, ∃ v ∈ l.veclist,
      v.mem = a.mem ∧ a.off + a.len ≤ rotBuffAllocSize) ∧
    (∀ a ∈ s.reserved, (s.delivered ++ s.held).count a = 1) ∧
    (∀ a ∈ s.delivered, a ∈ s.reserved ∧ a ∉ s.writing.map Prod.snd) ∧
    (∀ vs ∈ s.dispatches, ∀ v ∈ vs, v.Tiled) ∧
    (bufcount ≠ 1 → ∃ es',
      (runAll (step decay) es' s).delivered.Perm (runAll (step decay) es' s).reserved ∧
        (runAll (step decay) es' s).reserved = s.reserved) ∧
    s.consumer.buffer ≠ some s.current := by
  have h : (runAll (step decay) es (init bufcount)).Inv := (init_inv bufcount).run decay es
  refine ⟨h.apart, fun a ha => h.inside ha, fun a ha => h.count_eq_one ha,
    fun a ha => h.completed ha, h.tiled, ?_, h.buffer_ne h.current_mem⟩
  intro hne
  refine h.delivers decay ?_
  rw [length_run, init, length_map, length_range, bufferCount]
  split
  · exact Nat.le_refl 2
  · omega

/-- Two areas of which the second is completed while the consumer sleeps, and a third that goes to
the next buffer meanwhile. -/
theorem areas_arrive_once_two :
    let s := runAll (step ⟨fun n => n / 6, fun n h => Nat.div_lt_self h (by decide)⟩)
      [.reserve 3 true, .reserve 5 true, .complete 0, .consumer, .consumer, .consumer,
        .reserve 2 true, .complete 1, .notify 0, .consumer] (init 2)
    s.delivered = [⟨0, 0, 0, 3⟩, ⟨1, 0, 3, 5⟩] ∧ s.writing = [(1, ⟨2, 1, 0, 2⟩)] ∧
      ∃ es', (runAll (step ⟨fun n => n / 6, fun n h => Nat.div_lt_self h (by decide)⟩) es'
        s).reserved = s.reserved := by
  refine ⟨by decide +kernel, by decide +kernel, ?_⟩
  obtain ⟨es', -, hreserved⟩ := (areas_arrive_once _ 2 _).2.2.2.2.2.1 (by decide)
  exact ⟨es', hreserved⟩

end Rbuf
end TagItGluster.Libglusterfs
