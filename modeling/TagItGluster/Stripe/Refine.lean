import TagItGluster.Base.Machine
import TagItGluster.Base.Parts
import TagItGluster.Stripe.Coalesce

/-!
# Striped files refine flat files

Each byte of the flat file is in its member, no member has bytes behind the end of the flat file,
and the last byte of the flat file is stored. Writes and truncations keep this, the size of the
flat file is the largest one that a member has, and a read puts zeros where members are short.
-/

namespace TagItGluster.Stripe

open Base List Function

/-- The members have the flat file. -/
structure Layout.Holds (c : Layout) (m : Members) (f : File) : Prop where
  byte : ∀ p, (m (c.member p)).byte (c.coalescedOffset p) = f.byte p
  within : ∀ i < c.stripeCount, ∀ j < (m i).size, c.position i j < f.size
  last : 0 < f.size → c.coalescedOffset (f.size - 1) < (m (c.member (f.size - 1))).size

namespace Layout

variable (c : Layout) {m : Members} {f : File} {offset size : Nat} {bytes : List UInt8}

private lemma holds_empty : c.Holds (fun _ => .empty) .empty where
  byte _ := rfl
  within _ _ j hj := absurd hj (Nat.not_lt_zero j)
  last h := absurd h (Nat.lt_irrefl 0)

variable {c}

private lemma Holds.truncate (h : c.Holds m f) (offset : Nat) :
    c.Holds (c.truncate m offset) (f.truncate offset) where
  byte p := by
    have hkeep : c.coalescedOffset p < c.destOffset offset (c.member p) ↔ p < offset := by
      rw [c.lt_destOffset (c.member_lt p), c.position_member]
    rw [Layout.truncate, if_pos (c.member_lt p), File.byte_truncate, File.byte_truncate, h.byte]
    simp [hkeep]
  within i hi j hj := by
    rw [Layout.truncate, if_pos hi] at hj
    exact (c.lt_destOffset hi).mp hj
  last hpos := by
    rw [Layout.truncate, if_pos (c.member_lt _)]
    refine (c.lt_destOffset (c.member_lt _)).mpr ?_
    rw [c.position_member]
    exact Nat.sub_lt hpos one_pos

/-- A chunk is written. -/
lemma Holds.pwrite (h : c.Holds m f) (hne : bytes ≠ [])
    (hchunk : offset % c.stripeSize + bytes.length ≤ c.stripeSize) :
    c.Holds (update m (c.member offset)
      ((m (c.member offset)).pwrite (c.coalescedOffset offset) bytes)) (f.pwrite offset bytes) := by
  have hlen := length_pos_of_ne_nil hne
  have hadd : ∀ k < bytes.length, c.coalescedOffset (offset + k) = c.coalescedOffset offset + k ∧
      c.member (offset + k) = c.member offset := fun k hk => c.coalescedOffset_add (by omega)
  have hplace : ∀ k < bytes.length,
      c.position (c.member offset) (c.coalescedOffset offset + k) = offset + k := by
    intro k hk
    rw [← (hadd k hk).1, ← (hadd k hk).2, c.position_member]
  have hsize := File.size_pwrite (m (c.member offset)) (c.coalescedOffset offset) hne
  refine ⟨fun p => ?_, fun i hi j hj => ?_, fun hpos => ?_⟩
  · by_cases hin : offset ≤ p ∧ p < offset + bytes.length
    · obtain ⟨k, rfl⟩ := Nat.exists_eq_add_of_le hin.1
      have hk : k < bytes.length := by omega
      rw [(hadd k hk).2, (hadd k hk).1, update_self, File.byte_pwrite_add _ _ hk,
        File.byte_pwrite_add _ _ hk]
    rw [File.byte_pwrite_of_not _ hin, ← h.byte p]
    by_cases hmember : c.member p = c.member offset
    · rw [hmember, update_self, File.byte_pwrite_of_not]
      rintro ⟨hle, hlt⟩
      obtain ⟨k, hk⟩ := Nat.exists_eq_add_of_le hle
      have hp := hplace k (by omega)
      rw [← hk, ← hmember, c.position_member] at hp
      omega
    · rw [update_of_ne hmember]
  · rw [File.size_pwrite _ _ hne]
    by_cases hmember : i = c.member offset
    · subst hmember
      rw [update_self] at hj
      by_cases hold : j < (m (c.member offset)).size
      · have := h.within _ hi j hold
        omega
      have hle : ¬ c.position (c.member offset) (c.coalescedOffset offset + (bytes.length - 1)) <
          c.position (c.member offset) j := by
        rw [c.position_lt hi]
        omega
      rw [hplace _ (by omega)] at hle
      omega
    · rw [update_of_ne hmember] at hj
      have := h.within i hi j hj
      omega
  · rw [File.size_pwrite _ _ hne] at hpos ⊢
    by_cases hgrow : f.size < offset + bytes.length
    · have hend : max f.size (offset + bytes.length) - 1 = offset + (bytes.length - 1) := by omega
      obtain ⟨hcoalesced, hmember⟩ := hadd (bytes.length - 1) (by omega)
      rw [hend, hmember, update_self, hsize]
      omega
    rw [max_eq_left (by omega)] at hpos ⊢
    have hlast := h.last hpos
    by_cases hmember : c.member (f.size - 1) = c.member offset
    · rw [hmember] at hlast
      rw [hmember, update_self]
      omega
    · rw [update_of_ne hmember]
      exact hlast

/-- There is a chunk in the range: it has a byte, or does not start where a chunk does. -/
def Spans (c : Layout) (offset size : Nat) : Prop := 0 < size ∨ offset % c.stripeSize ≠ 0

instance (offset size : Nat) : Decidable (c.Spans offset size) :=
  inferInstanceAs (Decidable (_ ∨ _))

private lemma chunks_eq (offset size : Nat) :
    c.chunks offset size = numParts c.stripeSize offset size := by
  rw [chunks, roof, floor, ← Nat.sub_mul, Nat.mul_div_cancel _ c.size_pos, numParts]

/-- The array of replies is long enough, and the bytes are written chunk by chunk. -/
lemma Holds.writeFrom (h : c.Holds m f) (hspans : c.Spans offset bytes.length) :
    ∃ m', c.writeFrom (numParts c.stripeSize offset bytes.length) offset bytes m = some m' ∧
      c.Holds m' (f.pwrite offset bytes) := by
  generalize hlen : bytes.length = len at hspans ⊢
  induction offset, len using numParts_induction c.size_pos generalizing m f bytes with
  | zero offset hnum => exact absurd hnum ((numParts_ne_zero c.size_pos).mpr hspans)
  | one offset len hchunk hnum =>
    rw [hnum, Layout.writeFrom, take_of_length_le (by omega), drop_of_length_le (by omega)]
    refine ⟨_, rfl, ?_⟩
    by_cases hnil : bytes = []
    · subst hnil
      rw [File.pwrite_nil, File.pwrite_nil, update_eq_self]
      exact h
    · exact h.pwrite hnil (by omega)
  | succ offset len hlt hnum ih =>
    have hpos := c.size_pos
    have hmod := Nat.mod_lt offset hpos
    have htake : (bytes.take (c.stripeSize - offset % c.stripeSize)).length =
        c.stripeSize - offset % c.stripeSize := by
      rw [length_take]
      omega
    have hdrop : (bytes.drop (c.stripeSize - offset % c.stripeSize)).length =
        len - (c.stripeSize - offset % c.stripeSize) := by
      rw [length_drop, hlen]
    have hfirst : c.Holds _ (f.pwrite offset
        (bytes.take (c.stripeSize - offset % c.stripeSize))) :=
      h.pwrite (ne_nil_of_length_pos (by omega)) (by omega)
    obtain ⟨m', hm', hrest⟩ := ih hfirst hdrop (.inl (by omega))
    refine ⟨m', ?_, ?_⟩
    · rw [hnum, Layout.writeFrom, min_eq_left (by omega), if_neg]
      · exact hm'
      · rw [← length_eq_zero_iff]
        omega
    · rw [← take_append_drop (c.stripeSize - offset % c.stripeSize) bytes,
        File.pwrite_append, htake]
      exact hrest

/-- A reply to a part of a read within a chunk: the bytes of the flat file, without zeros at the end
that are not stored. It ends where the flat file does. -/
structure Reply (f : File) (offset requested : Nat) (reply : List UInt8) : Prop where
  le : reply.length ≤ requested
  read : f.read offset requested =
    reply ++ List.replicate (min requested (f.size - offset) - reply.length) 0
  exact : f.size < offset + requested → reply = f.read offset requested

private lemma Holds.reply (h : c.Holds m f) {requested : Nat}
    (hchunk : offset % c.stripeSize + requested ≤ c.stripeSize) :
    Reply f offset requested
      ((m (c.member offset)).read (c.coalescedOffset offset) requested) := by
  have hadd : ∀ k < requested, c.coalescedOffset (offset + k) = c.coalescedOffset offset + k ∧
      c.member (offset + k) = c.member offset := fun k hk => c.coalescedOffset_add (by omega)
  have hbyte : ∀ k < requested,
      (m (c.member offset)).byte (c.coalescedOffset offset + k) = f.byte (offset + k) := by
    intro k hk
    rw [← h.byte, (hadd k hk).1, (hadd k hk).2]
  -- What the member stores is in front of the end of the flat file.
  have hstored : ∀ k < requested, c.coalescedOffset offset + k < (m (c.member offset)).size →
      offset + k < f.size := by
    intro k hk hlt
    have := h.within _ (c.member_lt offset) _ hlt
    rwa [← (hadd k hk).1, ← (hadd k hk).2, c.position_member] at this
  have hle : min requested ((m (c.member offset)).size - c.coalescedOffset offset) ≤
      min requested (f.size - offset) := by
    by_contra hgt
    have := hstored (min requested ((m (c.member offset)).size - c.coalescedOffset offset) - 1)
      (by omega) (by omega)
    omega
  refine ⟨by rw [File.length_read]; exact min_le_left .., ?_, fun hend => ?_⟩
  · refine ext_getElem ?_ fun k hk hk' => ?_
    · rw [length_append, length_replicate, File.length_read, File.length_read]
      omega
    rw [File.length_read] at hk
    rw [File.getElem_read, ← hbyte k (by omega)]
    by_cases hin : k < ((m (c.member offset)).read (c.coalescedOffset offset) requested).length
    · rw [getElem_append_left hin, File.getElem_read]
    · rw [getElem_append_right (Nat.not_lt.mp hin), getElem_replicate]
      rw [File.length_read] at hin
      exact File.beyond _ _ (by omega)
  · refine File.read_congr _ ?_ fun k hk => hbyte k (by omega)
    -- The last byte of the flat file is stored.
    by_cases hfar : f.size ≤ offset
    · omega
    · have hlast := h.last (by omega)
      obtain ⟨hcoalesced, hmember⟩ := hadd (f.size - 1 - offset) (by omega)
      rw [Nat.add_sub_cancel' (by omega)] at hcoalesced hmember
      rw [hmember] at hlast
      omega

/-- The replies to a read, from an offset on. -/
def Replies (f : File) : Nat → Nat → List (Nat × List UInt8) → Prop
  | _, size, [] => size = 0
  | offset, size, r :: replies =>
    r.1 ≤ size ∧ Reply f offset r.1 r.2 ∧ Replies f (offset + r.1) (size - r.1) replies

variable {start : Nat} {replies : List (Nat × List UInt8)}

private lemma Holds.readFrom (h : c.Holds m f) {total index : Nat}
    (hend : start + total = offset + size) (hindex : index % c.stripeCount = c.member offset) :
    Replies f offset size
      (c.readFrom m start total (numParts c.stripeSize offset size) index offset) := by
  have hpos := c.size_pos
  have hmod : ∀ offset, offset % c.stripeSize < c.stripeSize := fun _ => Nat.mod_lt _ hpos
  have hframe : ∀ offset size, start + total = offset + size →
      min (roof (offset + 1) c.stripeSize) (start + total) - offset =
        min (c.stripeSize - offset % c.stripeSize) size := by
    intro offset size hend
    have hsplit := Nat.div_add_mod' offset c.stripeSize
    rw [roof, show offset + 1 + c.stripeSize - 1 = offset + c.stripeSize by omega,
      Nat.add_div_right _ hpos, Nat.succ_mul]
    omega
  induction offset, size using numParts_induction hpos generalizing index with
  | zero offset hnum =>
    rw [hnum]
    rfl
  | one offset size hchunk hnum =>
    rw [hnum, Layout.readFrom, hframe _ _ hend, hindex, Nat.min_eq_right (by omega)]
    exact ⟨Nat.le_refl _, h.reply hchunk, Nat.sub_self _⟩
  | succ offset size hlt hnum ih =>
    have hlt' := hmod offset
    rw [hnum, Layout.readFrom, hframe _ _ hend, hindex, Nat.min_eq_left (by omega)]
    refine ⟨by omega, h.reply (by omega), ih (by omega) ?_⟩
    rw [member, next_block hpos, Nat.mul_div_cancel _ hpos, Nat.add_mod, hindex, member,
      ← Nat.add_mod]

section

variable (h : Replies f offset size replies)
include h

/-- Nothing is read behind the end of the file. -/
lemma Replies.fillIn_end {opRet : Nat} (hoffset : f.size ≤ offset)
    (hopRet : f.size ≤ start + opRet) : fillIn f.size start opRet replies = [] := by
  induction replies generalizing offset size opRet with
  | nil => rfl
  | cons r replies ih =>
    obtain ⟨-, hreply, hrest⟩ := h
    have hnil : r.2 = [] := by
      have := congrArg List.length hreply.read
      rw [File.length_read, length_append] at this
      exact eq_nil_of_length_eq_zero (by omega)
    rw [fillIn, hnil]
    rw [if_neg (by omega)]
    exact ih hrest (by omega) hopRet

/-- Short replies are filled up with zeros, up to the end of the file. -/
lemma Replies.fillIn {opRet : Nat} (hopRet : start + opRet = offset) :
    fillIn f.size start opRet replies = f.read offset size := by
  induction replies generalizing offset size opRet with
  | nil =>
    obtain rfl : size = 0 := h
    rfl
  | cons r replies ih =>
    obtain ⟨hle, hreply, hrest⟩ := h
    have hsplit := f.read_add offset r.1 (size - r.1)
    rw [Nat.add_sub_cancel' hle] at hsplit
    rw [hsplit, Layout.fillIn]
    dsimp only
    by_cases hend : f.size < offset + r.1
    · have heq := hreply.exact hend
      have hlen := congrArg List.length heq
      rw [File.length_read] at hlen
      rw [if_neg (by omega), ← heq, hrest.fillIn_end (by omega) (by omega),
        File.read_eq_nil _ (by omega)]
    · have hlen := hreply.le
      have hread := hreply.read
      rw [Nat.min_eq_left (by omega)] at hread
      rw [hread]
      split
      · rw [ih hrest (by omega)]
      · next hfull =>
        obtain heq : r.2.length = r.1 := by omega
        rw [heq, Nat.sub_self, replicate_zero, append_nil, ih hrest (by omega)]

/-- Replies that are not short are put behind one another. -/
lemma Replies.flatMap (hfull : ∀ r ∈ replies, ¬ r.2.length < r.1) :
    replies.flatMap Prod.snd = f.read offset size := by
  induction replies generalizing offset size with
  | nil =>
    obtain rfl : size = 0 := h
    rfl
  | cons r replies ih =>
    obtain ⟨hle, hreply, hrest⟩ := h
    obtain ⟨hr, hfull⟩ := forall_mem_cons.mp hfull
    have hsplit := f.read_add offset r.1 (size - r.1)
    rw [Nat.add_sub_cancel' hle] at hsplit
    have hread : f.read offset r.1 = r.2 := by
      rw [hreply.read, Nat.sub_eq_zero_of_le (by omega), replicate_zero, append_nil]
    rw [flatMap_cons, ih hrest hfull, hsplit, hread]

end

private lemma foldl_max_le {l : List Nat} {a n : Nat} :
    l.foldl max a ≤ n ↔ a ≤ n ∧ ∀ x ∈ l, x ≤ n := by
  induction l generalizing a with
  | nil => simp
  | cons x l ih =>
    rw [foldl_cons, ih, forall_mem_cons, Nat.max_le, and_assoc]

private lemma Holds.fileSize_eq (h : c.Holds m f) : c.fileSize m = f.size := by
  have hall : ∀ n, c.fileSize m ≤ n ↔
      ∀ i < c.stripeCount, c.uncoalescedSize (m i).size i ≤ n := by
    intro n
    rw [fileSize, foldl_max_le]
    simp
  refine Nat.le_antisymm ((hall _).mpr fun i hi => ?_) ?_
  · by_cases hzero : (m i).size = 0
    · rw [hzero]
      exact Nat.zero_le _
    · rw [c.uncoalescedSize_eq hi (Nat.pos_of_ne_zero hzero)]
      exact h.within i hi _ (by omega)
  · by_cases hzero : f.size = 0
    · omega
    have hlast := h.last (Nat.pos_of_ne_zero hzero)
    have hle := (hall _).mp (Nat.le_refl _) _ (c.member_lt (f.size - 1))
    rw [c.uncoalescedSize_eq (c.member_lt _) (Nat.zero_lt_of_lt hlast)] at hle
    have hmono : ¬ c.position (c.member (f.size - 1))
        ((m (c.member (f.size - 1))).size - 1) < c.position (c.member (f.size - 1))
          (c.coalescedOffset (f.size - 1)) := by
      rw [c.position_lt (c.member_lt _)]
      omega
    rw [c.position_member] at hmono
    omega

private lemma Holds.readv (h : c.Holds m f) (hspans : c.Spans offset size) :
    c.readv m offset size = some (f.read offset size) := by
  have hreplies : Replies f offset size (c.readFrom m offset size
      (numParts c.stripeSize offset size) (offset / c.stripeSize % c.stripeCount) offset) :=
    h.readFrom rfl (Nat.mod_mod ..)
  rw [Layout.readv, chunks_eq, if_neg ((numParts_ne_zero c.size_pos).mpr hspans)]
  split
  · rw [h.fileSize_eq, hreplies.fillIn (add_zero offset)]
  · next hfull =>
    rw [hreplies.flatMap]
    simpa using hfull

end Layout

/-- A call on a striped file. -/
def Layout.step (c : Layout) : FileOp → Option Members → Option Members
  | .pwrite offset bytes, m => m.bind fun m => c.writev m offset bytes
  | .truncate offset, m => m.map fun m => c.truncate m offset

/-- A write has a chunk. -/
def Layout.HasChunk (c : Layout) : FileOp → Prop
  | .pwrite offset bytes => c.Spans offset bytes.length
  | .truncate _ => True

instance (c : Layout) : ∀ op, Decidable (c.HasChunk op)
  | .pwrite offset bytes => inferInstanceAs (Decidable (c.Spans offset bytes.length))
  | .truncate _ => .isTrue trivial

private lemma Layout.Holds.run {c : Layout} {m : Members} {f : File} (h : c.Holds m f)
    {ops : List FileOp} (hops : ∀ op ∈ ops, c.HasChunk op) :
    ∃ m', runAll c.step ops (some m) = some m' ∧ c.Holds m' (runAll File.apply ops f) := by
  induction ops generalizing m f with
  | nil => exact ⟨m, rfl, h⟩
  | cons op ops ih =>
    obtain ⟨hop, hrest⟩ := forall_mem_cons.mp hops
    cases op with
    | pwrite offset bytes =>
      obtain ⟨m₁, hm₁, h₁⟩ := h.writeFrom hop
      obtain ⟨m₂, hm₂, h₂⟩ := ih h₁ hrest
      refine ⟨m₂, ?_, h₂⟩
      rw [runAll_cons, Layout.step, Option.bind_some, Layout.writev, chunks_eq, hm₁, hm₂]
    | truncate offset => exact ih (h.truncate offset) hrest

/-- As long as writes and reads have a chunk, a file striped in coalesced mode has the size of the
flat file, and is read as the flat file is. -/
theorem stripe_refines_flat (c : Layout) {ops : List FileOp} (hops : ∀ op ∈ ops, c.HasChunk op) :
    ∃ m, runAll c.step ops (some fun _ => .empty) = some m ∧
      c.fileSize m = (runAll File.apply ops .empty).size ∧
      ∀ offset size, c.Spans offset size →
        c.readv m offset size = some ((runAll File.apply ops .empty).read offset size) := by
  obtain ⟨m, hm, h⟩ := c.holds_empty.run hops
  exact ⟨m, hm, h.fileSize_eq, fun offset size hspans => h.readv hspans⟩

/-- Two members with chunks of 16 KB: a write across the end of a chunk, one behind a hole, and a
file that is cut and extended. -/
theorem stripe_refines_flat_hole :
    ∃ m, runAll (Layout.step ⟨16384, 2, by decide, by decide⟩) [.pwrite 16383 [1, 2, 3],
        .truncate 16385, .pwrite 16380 [4], .truncate 16387] (some fun _ => .empty) = some m ∧
      Layout.readv ⟨16384, 2, by decide, by decide⟩ m 16380 20 = some [4, 0, 0, 1, 2, 0, 0] := by
  have hspans : ∀ op ∈ [.pwrite 16383 [1, 2, 3], .truncate 16385, .pwrite 16380 [4],
      .truncate 16387], Layout.HasChunk ⟨16384, 2, by decide, by decide⟩ op := by decide
  obtain ⟨m, hm, -, hread⟩ := stripe_refines_flat _ hspans
  exact ⟨m, hm, (hread 16380 20 (by decide)).trans (by decide)⟩

/-- A read of nothing where a chunk starts is never answered, and a write of nothing there is
counted behind the end of its array. -/
theorem stripe_no_answer :
    Layout.readv ⟨16384, 2, by decide, by decide⟩ (fun _ => .empty) 32768 0 = none ∧
      Layout.writev ⟨16384, 2, by decide, by decide⟩ (fun _ => .empty) 32768 [] = none :=
  ⟨rfl, rfl⟩

end TagItGluster.Stripe
