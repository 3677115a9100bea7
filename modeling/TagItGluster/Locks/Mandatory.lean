import TagItGluster.Locks.Posix

/-!
# Lock ranges and mandatory locking

A `struct gf_flock` is stored with the last byte of its range, which is computed in 64 bits; the
largest offset stands for the end of the file. With mandatory locking, reads, writes and truncates
look for locks of other owners in the list of the inode. The check for reads and writes does not
tell granted locks from blocked ones, the check for truncates does. Line numbers:
`xlators/features/locks/src/posix.c`.
-/

namespace TagItGluster.Locks

variable {ω : Type}

/-- `posix_lock_to_flock` (common.c:507). -/
def posixLockToFlock (lock : PosixLock ω) : GfFlock ω where
  lType := lock.flType
  lStart := Int64.ofInt lock.flStart
  lLen := if lock.flEnd = llongMax then 0 else Int64.ofInt (lock.flEnd - lock.flStart + 1)
  lPid := lock.clientPid
  lOwner := lock.owner

/-- The byte is in the range of a lock. -/
def PosixLock.Covers (lock : PosixLock ω) (b : Int) : Prop := lock.flStart ≤ b ∧ b ≤ lock.flEnd

/-- The stored range is not empty, has the bytes that are asked for and gives them back. -/
structure StoredRight (flock : GfFlock ω) (lock : PosixLock ω) : Prop where
  ordered : lock.flStart ≤ lock.flEnd
  exact : ∀ b, 0 ≤ b → b ≤ llongMax → (lock.Covers b ↔ flock.Asks b)
  start_eq : (posixLockToFlock lock).lStart = flock.lStart
  len_eq : (posixLockToFlock lock).lLen = flock.lLen

/-- The range of a lock that `pl_lk` admits is stored right exactly if it is that up to the end of
the file, or ends before the largest offset. -/
theorem lock_range_iff (flock : GfFlock ω) (owner : ω) (fdNum : Nat) (clientPid : Int)
    (hs : 0 ≤ flock.lStart.toInt) (hl : 0 ≤ flock.lLen.toInt) :
    StoredRight flock (flock.posixLock owner fdNum clientPid) ↔
      flock.lLen = 0 ∨ flock.lStart.toInt + flock.lLen.toInt < 2 ^ 63 := by
  have hmax := flock.lStart.toInt_lt
  by_cases hzero : flock.lLen = 0
  · refine ⟨fun _ => .inl hzero, fun _ => ?_⟩
    have hend : (flock.posixLock owner fdNum clientPid).flEnd = llongMax := if_pos hzero
    refine ⟨?_, ?_, Int64.ofInt_toInt _, ?_⟩
    · rw [hend]
      exact Int.le_sub_one_of_lt hmax
    · intro b _ hb
      rw [PosixLock.Covers, hend]
      exact ⟨fun h => ⟨h.1, .inl hzero⟩, fun h => ⟨h.1, hb⟩⟩
    · rw [hzero]
      exact if_pos hend
  · have hend : (flock.posixLock owner fdNum clientPid).flEnd =
        (flock.lStart + flock.lLen - 1).toInt := if_neg hzero
    have hpos : 0 < flock.lLen.toInt := by
      have hne : flock.lLen.toInt ≠ 0 := fun heq => hzero (Int64.toInt_inj.mp heq)
      omega
    constructor
    · intro h
      refine .inr (Int.not_le.mp fun hbeyond => ?_)
      rcases Int.le_iff_eq_or_lt.mp hbeyond with heq | hgt
      · -- the largest offset is taken for the end of the file
        have hlen := h.len_eq
        rw [toInt_last hs hl (Int.le_of_eq heq.symm), ← heq] at hend
        rw [posixLockToFlock, hend] at hlen
        exact hzero hlen.symm
      · have hle := h.ordered
        rw [hend] at hle
        exact absurd hle (Int.not_le.mpr (toInt_last_wraps hgt))
    · rintro (h | h)
      · exact absurd h hzero
      rw [toInt_last hs hl (Int.le_of_lt h)] at hend
      refine ⟨?_, ?_, Int64.ofInt_toInt _, ?_⟩
      · rw [hend]
        exact Int.le_sub_one_of_lt (lt_add_of_pos_right _ hpos)
      · intro b _ _
        rw [PosixLock.Covers, hend]
        exact and_congr_right fun _ => ⟨fun hb => .inr (Int.lt_of_le_sub_one hb),
          fun hb => Int.le_sub_one_of_lt (hb.resolve_left hzero)⟩
      · have hne : flock.lStart.toInt + flock.lLen.toInt - 1 ≠ llongMax := by
          rw [llongMax]
          omega
        have hback : flock.lStart.toInt + flock.lLen.toInt - 1 - flock.lStart.toInt + 1 =
            flock.lLen.toInt := by omega
        rw [posixLockToFlock, hend, if_neg hne]
        exact (congrArg Int64.ofInt hback).trans (Int64.ofInt_toInt _)

/-- A range of all bytes but the first is given back as one up to the end of the file, and a range
that starts one later is empty. -/
theorem lock_range_wraps : ¬StoredRight (⟨.wrlck, 1, 9223372036854775807, 0, ()⟩ : GfFlock Unit)
      ((⟨.wrlck, 1, 9223372036854775807, 0, ()⟩ : GfFlock Unit).posixLock () 0 0) ∧
    ¬StoredRight (⟨.wrlck, 2, 9223372036854775807, 0, ()⟩ : GfFlock Unit)
      ((⟨.wrlck, 2, 9223372036854775807, 0, ()⟩ : GfFlock Unit).posixLock () 0 0) :=
  ⟨fun h => absurd h.len_eq (by decide +kernel), fun h => absurd h.ordered (by decide +kernel)⟩

theorem lock_range_iff_first : StoredRight (⟨.rdlck, 0, 10, 0, ()⟩ : GfFlock Unit)
      ((⟨.rdlck, 0, 10, 0, ()⟩ : GfFlock Unit).posixLock () 0 0) :=
  (lock_range_iff _ () 0 0 (by decide) (by decide)).mpr (.inr (by decide))

/-- `GF_FOP_READ` or `GF_FOP_WRITE`. -/
inductive RwOp where
  | read
  | write
deriving DecidableEq

variable [DecidableEq ω]

/-- `__rw_allowable` (1416). -/
def rwAllowable (extList : List (PosixLock ω)) (region : PosixLock ω) (op : RwOp) : Bool :=
  extList.all fun l => !(decide (Overlap l region) && !decide (l.owner = region.owner) &&
    !(op = .read && l.flType ≠ .wrlck))

/-- A region from its first to its last byte; what is not set is zero. -/
def region (owner : ω) (first last : Int) : PosixLock ω := ⟨.rdlck, first, last, owner, 0, 0, false⟩

/-- `truncate_allowed` (396). -/
def truncateAllowed (extList : List (PosixLock ω)) (owner : ω) (offset : Int) : Bool :=
  extList.all fun l => !(!l.blocked && decide (Overlap (region owner offset llongMax) l) &&
    !decide (owner = l.owner))

/-- What `pl_readv` and `pl_writev` do with a request. -/
inductive RwOutcome where
  | wind
  | unwind (opErrno : Int)
  | wait
deriving DecidableEq

/-- `ENOMEM`. -/
def enomem : Int := 12

/-- The last byte of a request, which is an `off_t`. -/
def regionEnd (offset : Int) (size : Nat) : Int := (offset + size - 1).bmod (2 ^ 64)

/-- `pl_readv` (1448) and `pl_writev` (1544), by whether locking is mandatory, the fd is
`O_NONBLOCK`, and there is memory. -/
def plRw (op : RwOp) (mandatory nonblock memory : Bool) (extList : List (PosixLock ω)) (owner : ω)
    (offset : Int) (size : Nat) : RwOutcome :=
  if !mandatory || rwAllowable extList (region owner offset (regionEnd offset size)) op then .wind
  else if nonblock then .unwind 11
  else if memory then .wait
  else .unwind enomem

/-- A lock of another owner, if the region is written or it is locked for writing. -/
def Against (op : RwOp) (owner : ω) (l : PosixLock ω) : Prop :=
  l.owner ≠ owner ∧ (op = .write ∨ l.flType = .wrlck)

/-- The lock has a byte of the request. -/
def Shares (l : PosixLock ω) (first last : Int) : Prop := ∃ b, l.Covers b ∧ first ≤ b ∧ b ≤ last

/-- No granted lock conflicts with the request on a byte. -/
def Free (extList : List (PosixLock ω)) (op : RwOp) (owner : ω) (first last : Int) : Prop :=
  ∀ l ∈ extList, l.blocked = false → Against op owner l → ¬Shares l first last

/-- Where no granted lock conflicts with a request, no blocked one does. -/
def NotBehindBlocked (extList : List (PosixLock ω)) (op : RwOp) (owner : ω) (first last : Int) :
    Prop :=
  Free extList op owner first last →
    ∀ l ∈ extList, l.blocked = true → Against op owner l → ¬Shares l first last

/-- A request that goes beyond the largest offset meets no granted lock, another one is not behind
blocked locks only, and one without bytes lies in no lock. -/
structure Checked (extList : List (PosixLock ω)) (op : RwOp) (owner : ω) (offset : Int)
    (size : Nat) : Prop where
  beyond : 2 ^ 63 < offset + size → Free extList op owner offset (offset + size - 1)
  granted : offset + size ≤ 2 ^ 63 → NotBehindBlocked extList op owner offset (offset + size - 1)
  bytes : size = 0 → ∀ l ∈ extList, Against op owner l → ¬(l.flStart < offset ∧ offset ≤ l.flEnd)

omit [DecidableEq ω] in
/-- A lock overlaps a range with bytes if it has one of them. -/
lemma overlap_iff_shares {l : PosixLock ω} {owner : ω} {first last : Int}
    (hl : l.flStart ≤ l.flEnd) (h : first ≤ last) :
    Overlap l (region owner first last) ↔ Shares l first last := by
  constructor
  · intro ⟨h₁, h₂⟩
    have h₁ : first ≤ l.flEnd := h₁
    have h₂ : l.flStart ≤ last := h₂
    exact ⟨max l.flStart first, ⟨by omega, by omega⟩, by omega, by omega⟩
  · rintro ⟨b, ⟨h₁, h₂⟩, h₃, h₄⟩
    exact ⟨le_trans h₃ h₂, le_trans h₁ h₄⟩

/-- The check of reads and writes looks at all locks. -/
lemma rwAllowable_iff (extList : List (PosixLock ω)) (op : RwOp) (owner : ω) (first last : Int) :
    rwAllowable extList (region owner first last) op ↔
      ∀ l ∈ extList, Against op owner l → ¬Overlap l (region owner first last) := by
  unfold rwAllowable Against
  rw [List.all_eq_true]
  refine forall₂_congr fun l hl => ?_
  have howner : (region owner first last).owner = owner := rfl
  cases op with
  | read | write => grind

section

variable {extList : List (PosixLock ω)} (htable : ∀ l ∈ extList, l.flStart ≤ l.flEnd)
  {op : RwOp} {owner : ω} {first last : Int}

include htable

/-- The check of truncates looks at the granted ones. -/
lemma truncateAllowed_iff {offset : Int} (hoffset : offset ≤ llongMax) :
    truncateAllowed extList owner offset ↔ Free extList .write owner offset llongMax := by
  unfold truncateAllowed Free Against
  rw [List.all_eq_true]
  refine forall₂_congr fun l hl => ?_
  have hoverlap : Overlap (region owner offset llongMax) l ↔ Shares l offset llongMax :=
    and_comm.trans (overlap_iff_shares (htable l hl) hoffset)
  have howner : l.owner ≠ owner ↔ ¬owner = l.owner := ne_comm
  cases l.blocked with
  | true => simp
  | false => grind

/-- A range with bytes is allowed as soon as no granted lock conflicts, exactly if it is not behind
blocked locks only. -/
lemma rwAllowable_iff_free (h : first ≤ last) :
    (rwAllowable extList (region owner first last) op ↔ Free extList op owner first last) ↔
      NotBehindBlocked extList op owner first last := by
  have hall : rwAllowable extList (region owner first last) op ↔
      ∀ l ∈ extList, Against op owner l → ¬Shares l first last := by
    rw [rwAllowable_iff]
    exact forall₂_congr fun l hl => by rw [overlap_iff_shares (htable l hl) h]
  rw [hall]
  constructor
  · intro h hfree l hl _
    exact h.mpr hfree l hl
  · intro h
    refine ⟨fun hall l hl _ => hall l hl, fun hfree l hl => ?_⟩
    cases hb : l.blocked with
    | true => exact h hfree l hl hb
    | false => exact hfree l hl hb

end

variable {extList : List (PosixLock ω)} {op : RwOp} {owner : ω} {offset : Int} {size : Nat}

private lemma regionEnd_eq (h₀ : 0 ≤ offset) (h : offset + size ≤ 2 ^ 63) :
    regionEnd offset size = offset + size - 1 := Int.bmod_eq_of_le (by omega) (by omega)

private lemma regionEnd_neg (hoffset : offset < 2 ^ 63) (hsize : size < 2 ^ 63)
    (h : 2 ^ 63 < offset + size) : regionEnd offset size < 0 := by
  have hbmod : ∀ x : Int, x.bmod (2 ^ 64) = if x % 2 ^ 64 < 2 ^ 63 then x % 2 ^ 64
      else x % 2 ^ 64 - 2 ^ 64 := fun x => rfl
  rw [regionEnd, hbmod]
  split <;> omega

/-- By cases on the range: it wraps around and no lock is found, it is empty, or it has bytes. -/
lemma rwAllowable_iff_checked (htable : ∀ l ∈ extList, 0 ≤ l.flStart ∧ l.flStart ≤ l.flEnd)
    (h₀ : 0 ≤ offset) (hoffset : offset < 2 ^ 63) (hsize : size < 2 ^ 63) :
    (rwAllowable extList (region owner offset (regionEnd offset size)) op ↔
        Free extList op owner offset (offset + size - 1)) ↔
      Checked extList op owner offset size := by
  rcases le_or_gt (offset + size) (2 ^ 63) with hle | hgt
  · rw [regionEnd_eq h₀ hle]
    rcases Nat.eq_zero_or_pos size with rfl | hpos
    · have hshares : ∀ l : PosixLock ω, ¬Shares l offset (offset + (0 : Nat) - 1) := by
        rintro l ⟨b, -, h₁, h₂⟩
        omega
      have hfree : Free extList op owner offset (offset + (0 : Nat) - 1) :=
        fun l _ _ _ => hshares l
      rw [rwAllowable_iff, iff_true_right hfree]
      have hoverlap : ∀ l : PosixLock ω, Overlap l (region owner offset (offset + (0 : Nat) - 1)) ↔
          l.flStart < offset ∧ offset ≤ l.flEnd := by
        intro l
        simp only [Overlap, region]
        omega
      simp only [hoverlap]
      exact ⟨fun h => ⟨fun _ => hfree, fun _ _ l _ _ _ => hshares l, fun _ => h⟩,
        fun h => h.bytes rfl⟩
    · rw [rwAllowable_iff_free (fun l hl => (htable l hl).2) (by omega)]
      exact ⟨fun h => ⟨fun hgt => by omega, fun _ => h, fun h0 => by omega⟩, fun h => h.granted hle⟩
  · have hall : rwAllowable extList (region owner offset (regionEnd offset size)) op := by
      rw [rwAllowable_iff]
      intro l hl _ hov
      have hneg := regionEnd_neg hoffset hsize hgt
      exact absurd (le_trans (htable l hl).1 hov.2) (Int.not_le.mpr hneg)
    rw [iff_true_left hall]
    exact ⟨fun h => ⟨fun _ => h, fun hle => by omega, fun h0 => by omega⟩, fun h => h.beyond hgt⟩

end TagItGluster.Locks
