import Mathlib.Algebra.Group.Prod
import Mathlib.Data.UInt
import Mathlib.Tactic.Abel
import TagItGluster.Base.Machine

/-!
# Versions, sizes and dirty counters of dispersed files

As long as a client has the lock of an inode, it counts the updates of the version, the size and the
dirty counters in the context of the inode, and adds them to the attributes on the bricks when the
file is flushed or the lock is released. What has been added and what is pending is what has been
counted, unless an update of the attributes fails: then the dirty counters, and at a release all
that is pending, are forgotten. A change of the size alone is forgotten at a release as well. Line
numbers: `xlators/cluster/ec/src/ec-common.c`.
-/

namespace TagItGluster.Ec

open Base

/-- Changes of the attributes, for data and for metadata; all counters are of 64 bits. -/
@[ext]
structure Delta where
  version : UInt64 × UInt64
  size : UInt64
  dirty : UInt64 × UInt64
deriving DecidableEq

instance : Zero Delta := ⟨⟨0, 0, 0⟩⟩

instance : Add Delta := ⟨fun a b => ⟨a.version + b.version, a.size + b.size, a.dirty + b.dirty⟩⟩

namespace Delta

@[simp] lemma version_zero : (0 : Delta).version = 0 := rfl

@[simp] lemma size_zero : (0 : Delta).size = 0 := rfl

@[simp] lemma dirty_zero : (0 : Delta).dirty = 0 := rfl

@[simp] lemma version_add (a b : Delta) : (a + b).version = a.version + b.version := rfl

@[simp] lemma size_add (a b : Delta) : (a + b).size = a.size + b.size := rfl

@[simp] lemma dirty_add (a b : Delta) : (a + b).dirty = a.dirty + b.dirty := rfl

end Delta

private lemma delta_add_zero (a : Delta) : a + 0 = a :=
  Delta.ext (add_zero _) (add_zero _) (add_zero _)

private lemma delta_add_assoc (a b c : Delta) : a + b + c = a + (b + c) :=
  Delta.ext (add_assoc ..) (add_assoc ..) (add_assoc ..)

/-- The fields of `ec_inode_t` for the attributes. -/
structure InodeInfo where
  haveInfo : Bool
  haveVersion : Bool
  haveSize : Bool
  preVersion : UInt64 × UInt64
  postVersion : UInt64 × UInt64
  preSize : UInt64
  postSize : UInt64
  dirty : UInt64 × UInt64
deriving DecidableEq

/-- The attributes that a successful call returns. -/
structure XattropAnswer where
  version : UInt64 × UInt64
  size : UInt64
  configOk : Bool

namespace InodeInfo

/-- `ec_clear_inode_info` (1120). -/
def clear : InodeInfo := ⟨false, false, false, 0, 0, 0, 0, 0⟩

/-- What has been counted and not yet been added. -/
def pending (c : InodeInfo) : Delta :=
  ⟨c.postVersion - c.preVersion, c.postSize - c.preSize, c.dirty⟩

/-- `ec_prepare_update_cbk` (879), for a regular file or not. -/
def prepareUpdateCbk (isReg : Bool) (a : XattropAnswer) (c : InodeInfo) : InodeInfo :=
  let c := { c with
    preVersion := a.version
    postVersion := c.postVersion + a.version
    haveVersion := true }
  if isReg then
    let c := { c with preSize := a.size, postSize := a.size, haveSize := true }
    if a.configOk then { c with haveInfo := true } else c
  else { c with haveInfo := true }

/-- `ec_get_size_version` (961). -/
def getSizeVersion (isReg query : Bool) (answer : Option XattropAnswer) (c : InodeInfo) :
    InodeInfo :=
  if c.haveInfo then c
  else if !query && !isReg then c
  else answer.elim c fun a => c.prepareUpdateCbk isReg a

/-- `ec_set_inode_size` (1089). -/
def setInodeSize (size : UInt64) (c : InodeInfo) : InodeInfo :=
  let c := if c.haveSize then c
    else { c with preSize := size, haveSize := true, haveInfo := true }
  { c with postSize := size }

/-- What `ec_lock_reuse` counts for a successful call. -/
def counted (data metadata degraded : Bool) : Delta where
  version := (data.toUInt64, metadata.toUInt64)
  size := 0
  dirty := ((data && degraded).toUInt64, (metadata && degraded).toUInt64)

/-- The updates of the counters in `ec_lock_reuse`. -/
def lockReuse (data metadata degraded : Bool) (c : InodeInfo) : InodeInfo :=
  { c with
    postVersion := c.postVersion + (counted data metadata degraded).version
    dirty := c.dirty + (counted data metadata degraded).dirty }

/-- `ec_update_info` (1606) adds something to the attributes. -/
def Sends (c : InodeInfo) : Prop := c.pending.version ≠ 0 ∨ c.dirty ≠ 0

instance (c : InodeInfo) : Decidable c.Sends := inferInstanceAs (Decidable (_ ∨ _))

/-- `ec_update_size_version` (1512) sends the version. -/
def SendsVersion (c : InodeInfo) (d : Delta) : Prop := c.haveVersion = false ∨ d.version ≠ 0

instance (c : InodeInfo) (d : Delta) : Decidable (c.SendsVersion d) :=
  inferInstanceAs (Decidable (_ ∨ _))

/-- `ec_update_size_version_done` (1462) for a successful call; it finds the attributes that
`ec_update_size_version` has sent. -/
def updateSizeVersionDone (d : Delta) (a : XattropAnswer) (c : InodeInfo) : InodeInfo where
  haveInfo := true
  haveVersion := if c.SendsVersion d then true else c.haveVersion
  haveSize := if d.size ≠ 0 then true else c.haveSize
  preVersion := if c.SendsVersion d then a.version else c.preVersion
  postVersion := if c.SendsVersion d then a.version else c.postVersion
  preSize := if d.size ≠ 0 then a.size else c.preSize
  postSize := if d.size ≠ 0 then a.size else c.postSize
  dirty := c.dirty

/-- `ec_update_info`, up to the answer. -/
def updateInfo (answer : Option XattropAnswer) (c : InodeInfo) : InodeInfo :=
  let d := c.pending
  let reset := { c with dirty := 0 }
  if c.Sends then answer.elim reset fun a => reset.updateSizeVersionDone d a else reset

/-- `ec_unlock_now` (1639) up to `ec_unlock_lock` (1437), which a flush with something to add does
not reach. -/
def unlockNow (isFlush : Bool) (answer : Option XattropAnswer) (c : InodeInfo) : InodeInfo :=
  let info := c.updateInfo answer
  if c.Sends ∧ isFlush then info else clear

end InodeInfo

/-- What happens to the context of an inode: the attributes may be asked for when the lock is
acquired, calls change the size and count updates, and a flush or a release of the lock adds them to
the bricks. -/
inductive InfoEvent where
  | acquired (query : Bool) (answer : Option XattropAnswer)
  | setSize (size : UInt64)
  | reuse (data metadata degraded : Bool)
  | flush (answer : Option XattropAnswer)
  | release (isFlush : Bool) (answer : Option XattropAnswer)

/-- The context of an inode, with the sum of what has been added to the attributes and the sum of
what has been counted. -/
structure Books where
  info : InodeInfo
  sent : Delta
  recorded : Delta
deriving DecidableEq

namespace Books

/-- What a call of `ec_update_info` adds to the attributes. -/
def sends (answer : Option XattropAnswer) (c : InodeInfo) : Delta :=
  if c.Sends ∧ answer.isSome then c.pending else 0

/-- An event. -/
def step (isReg : Bool) : InfoEvent → Books → Books
  | .acquired query answer, b => { b with info := b.info.getSizeVersion isReg query answer }
  | .setSize size, b =>
    { b with
      info := b.info.setInodeSize size
      recorded :=
        if b.info.haveSize then b.recorded + ⟨0, size - b.info.postSize, 0⟩ else b.recorded }
  | .reuse data metadata degraded, b =>
    { b with
      info := b.info.lockReuse data metadata degraded
      recorded := b.recorded + InodeInfo.counted data metadata degraded }
  | .flush answer, b =>
    { b with info := b.info.updateInfo answer, sent := b.sent + sends answer b.info }
  | .release isFlush answer, b =>
    { b with
      info := b.info.unlockNow isFlush answer
      sent := b.sent + sends answer b.info }

end Books

namespace InodeInfo

/-- Values that are not known have not been changed. -/
structure WF (c : InodeInfo) : Prop where
  version : c.haveVersion = false → c.preVersion = 0
  size : c.haveSize = false → c.postSize = c.preSize
  info : c.haveInfo = false → c.haveVersion = false ∧ c.haveSize = false

private lemma clear_wf : clear.WF := ⟨fun _ => rfl, fun _ => rfl, fun _ => ⟨rfl, rfl⟩⟩

private lemma pending_clear : clear.pending = 0 := by decide

variable {c : InodeInfo} {answer : Option XattropAnswer} (h : c.WF)
include h

/-- Attributes that are asked for and come with a valid configuration. -/
lemma WF.getSizeVersion (isReg query : Bool)
    (hconfig : c.haveInfo = false → ∀ a ∈ answer, a.configOk) :
    (c.getSizeVersion isReg query answer).WF ∧
      (c.getSizeVersion isReg query answer).pending = c.pending := by
  unfold InodeInfo.getSizeVersion
  split
  · exact ⟨h, rfl⟩
  next hinfo =>
  split
  · exact ⟨h, rfl⟩
  cases answer with
  | none => exact ⟨h, rfl⟩
  | some a =>
    have hinfo : c.haveInfo = false := by simpa using hinfo
    obtain ⟨hversion, hsize⟩ := h.info hinfo
    have hpre := h.version hversion
    have hpost := h.size hsize
    have hok := hconfig hinfo a rfl
    have hne := Bool.false_ne_true.symm
    dsimp only [Option.elim_some, prepareUpdateCbk]
    split
    · refine ⟨⟨fun h => absurd h hne, fun h => absurd h hne, fun h => absurd h hne⟩, ?_⟩
      simp [pending, hpre, hpost]
    · refine ⟨⟨fun h => absurd h hne, fun _ => hpost, fun h => absurd h hne⟩, ?_⟩
      simp [pending, hpre]

private lemma WF.setInodeSize (size : UInt64) :
    (c.setInodeSize size).WF ∧ (c.setInodeSize size).pending =
      if c.haveSize then c.pending + ⟨0, size - c.postSize, 0⟩ else c.pending := by
  have hne := Bool.false_ne_true.symm
  unfold InodeInfo.setInodeSize
  by_cases hsize : c.haveSize
  · rw [if_pos hsize, if_pos hsize]
    refine ⟨⟨h.version, fun hs => absurd (hsize.symm.trans hs) hne, h.info⟩, ?_⟩
    refine Delta.ext (by simp [pending]) ?_ (by simp [pending])
    simp only [pending, Delta.size_add]
    abel
  · have hpost := h.size (by simpa using hsize)
    rw [if_neg hsize, if_neg hsize]
    refine ⟨⟨h.version, fun hs => absurd hs hne, fun hi => absurd hi hne⟩, ?_⟩
    simp [pending, hpost]

private lemma WF.lockReuse (data metadata degraded : Bool) :
    (c.lockReuse data metadata degraded).WF ∧ (c.lockReuse data metadata degraded).pending =
      c.pending + counted data metadata degraded := by
  refine ⟨⟨h.version, h.size, h.info⟩, ?_⟩
  refine Delta.ext ?_ ?_ rfl
  · simp only [pending, InodeInfo.lockReuse, Delta.version_add]
    abel
  · simp [pending, InodeInfo.lockReuse, counted]

/-- After an update of the attributes nothing is pending. -/
lemma WF.updateSizeVersionDone (a : XattropAnswer) (hdirty : c.dirty = 0) {d : Delta}
    (hversion : d.version = c.pending.version) (hsize : d.size = c.pending.size) :
    (c.updateSizeVersionDone d a).WF ∧
      (c.updateSizeVersionDone d a).pending = 0 := by
  have hne := Bool.false_ne_true.symm
  unfold InodeInfo.updateSizeVersionDone
  refine ⟨⟨fun hv => ?_, fun hs => ?_, fun hi => absurd hi hne⟩, Delta.ext ?_ ?_ hdirty⟩
  · split at hv
    · exact absurd hv hne
    · next hsends => exact absurd (.inl hv) hsends
  · dsimp only at hs ⊢
    split at hs
    · exact absurd hs hne
    · next hzero =>
      rw [if_neg hzero, if_neg hzero]
      exact h.size hs
  · split
    · exact sub_self a.version
    · next hsends =>
      have hzero : d.version = 0 := by
        by_contra hd
        exact hsends (.inr hd)
      exact hversion.symm.trans hzero
  · dsimp only [pending]
    split
    · exact sub_self a.size
    · next hzero => exact hsize.symm.trans (not_not.mp hzero)

/-- An update that succeeds, or one that fails when there are no dirty counters. -/
lemma WF.updateInfo (hok : answer = none → c.dirty = 0) : (c.updateInfo answer).WF ∧
      Books.sends answer c + (c.updateInfo answer).pending = c.pending := by
  have hreset : ({ c with dirty := 0 } : InodeInfo).WF := ⟨h.version, h.size, h.info⟩
  unfold InodeInfo.updateInfo Books.sends
  by_cases hsends : c.Sends
  · rw [if_pos hsends]
    cases answer with
    | none =>
      refine ⟨hreset, Delta.ext ?_ ?_ ?_⟩
      · simp [pending]
      · simp [pending]
      · simp [pending, hok rfl]
    | some a =>
      obtain ⟨hwf, hzero⟩ := hreset.updateSizeVersionDone a rfl (d := c.pending) rfl rfl
      refine ⟨hwf, ?_⟩
      rw [Option.elim_some, hzero, if_pos ⟨hsends, rfl⟩]
      exact Delta.ext (add_zero _) (add_zero _) (add_zero _)
  · have hdirty : c.dirty = 0 := by
      by_contra hd
      exact hsends (.inr hd)
    rw [if_neg hsends, if_neg (fun h => hsends h.1)]
    refine ⟨hreset, Delta.ext (zero_add _) (zero_add _) ?_⟩
    simp [pending, hdirty]

end InodeInfo

namespace Books

/-- Nothing is lost: the attributes come with a valid configuration, an update of them does not fail
at a release or with dirty counters, and the size is not changed alone. -/
def Keeps : InfoEvent → Books → Prop
  | .acquired _ answer, b => b.info.haveInfo = false → ∀ a ∈ answer, a.configOk = true
  | .setSize _, _ => True
  | .reuse _ _ _, _ => True
  | .flush answer, b => answer = none → b.info.dirty = 0
  | .release isFlush answer, b =>
    if b.info.Sends then answer = none → isFlush ∧ b.info.dirty = 0
    else b.info.pending.size = 0

instance : ∀ e b, Decidable (Keeps e b)
  | .acquired _ answer, b =>
    inferInstanceAs (Decidable (b.info.haveInfo = false → ∀ a ∈ answer, a.configOk = true))
  | .setSize _, _ => .isTrue trivial
  | .reuse _ _ _, _ => .isTrue trivial
  | .flush answer, b => inferInstanceAs (Decidable (answer = none → b.info.dirty = 0))
  | .release isFlush answer, b =>
    inferInstanceAs (Decidable (if b.info.Sends then answer = none → isFlush ∧ b.info.dirty = 0
      else b.info.pending.size = 0))

/-- The books are balanced. -/
structure Balanced (b : Books) : Prop where
  wf : b.info.WF
  sum : b.sent + b.info.pending = b.recorded

variable {b : Books} {answer : Option XattropAnswer}

private lemma Balanced.updateInfo (h : b.Balanced) (hok : answer = none → b.info.dirty = 0) :
    Balanced { b with info := b.info.updateInfo answer, sent := b.sent + sends answer b.info } := by
  obtain ⟨hwf, hsum⟩ := h.wf.updateInfo hok
  refine ⟨hwf, ?_⟩
  rw [delta_add_assoc, hsum, h.sum]

/-- What is forgotten at a release has been added to the attributes. -/
lemma Balanced.clear (h : b.Balanced) (hsent : sends answer b.info = b.info.pending) :
    Balanced { b with info := .clear, sent := b.sent + sends answer b.info } := by
  refine ⟨InodeInfo.clear_wf, ?_⟩
  rw [InodeInfo.pending_clear, delta_add_zero, hsent, h.sum]

private lemma Balanced.step (h : b.Balanced) (isReg : Bool) {e : InfoEvent} (hkeeps : Keeps e b) :
    Balanced (step isReg e b) := by
  cases e with
  | acquired query answer =>
    obtain ⟨hwf, hpending⟩ := h.wf.getSizeVersion isReg query hkeeps
    refine ⟨hwf, ?_⟩
    dsimp only [Books.step]
    rw [hpending, h.sum]
  | setSize size =>
    obtain ⟨hwf, hpending⟩ := h.wf.setInodeSize size
    refine ⟨hwf, ?_⟩
    dsimp only [Books.step]
    rw [hpending]
    split
    · rw [← delta_add_assoc, h.sum]
    · exact h.sum
  | reuse data metadata degraded =>
    obtain ⟨hwf, hpending⟩ := h.wf.lockReuse data metadata degraded
    refine ⟨hwf, ?_⟩
    dsimp only [Books.step]
    rw [hpending, ← delta_add_assoc, h.sum]
  | flush answer => exact h.updateInfo hkeeps
  | release isFlush answer =>
    unfold Keeps at hkeeps
    dsimp only [Books.step, InodeInfo.unlockNow] at hkeeps ⊢
    by_cases hsends : b.info.Sends
    · rw [if_pos hsends] at hkeeps
      by_cases hflush : isFlush = true
      · rw [if_pos ⟨hsends, hflush⟩]
        exact h.updateInfo fun hnone => (hkeeps hnone).2
      · rw [if_neg (fun hboth => hflush hboth.2)]
        refine h.clear (if_pos ⟨hsends, ?_⟩)
        cases answer with
        | none => exact absurd (hkeeps rfl).1 hflush
        | some a => rfl
    · rw [if_neg hsends] at hkeeps
      rw [if_neg (fun hboth => hsends hboth.1)]
      have hzero : b.info.pending.version = 0 ∧ b.info.dirty = 0 := by
        simpa [InodeInfo.Sends] using hsends
      exact h.clear ((if_neg fun hboth => hsends hboth.1).trans
        (Delta.ext hzero.1.symm hkeeps.symm hzero.2.symm))

/-- The books before anything has happened. -/
def empty : Books := ⟨.clear, 0, 0⟩

private lemma balanced_empty : empty.Balanced := ⟨InodeInfo.clear_wf, by decide⟩

end Books

/-- What has been added to the attributes and what is pending is what has been counted. -/
theorem counters_balanced (isReg : Bool) {es : List InfoEvent}
    (hkeeps : Throughout (Books.step isReg) Books.Keeps es .empty) :
    let b := runAll (Books.step isReg) es .empty
    b.sent + b.info.pending = b.recorded :=
  (runAll_inv _ Books.Balanced (fun _ _ hb he => hb.step isReg he) Books.balanced_empty hkeeps).sum

/-- A write to a degraded file, a flush that fails and a release that does not. -/
theorem counters_balanced_flush :
    let es : List InfoEvent := [.acquired true (some ⟨(3, 4), 100, true⟩), .setSize 120,
      .reuse true true false, .flush none, .reuse true false true,
      .release false (some ⟨(5, 5), 120, true⟩)]
    let b := runAll (Books.step true) es .empty
    b.sent + b.info.pending = b.recorded ∧ b.sent = ⟨(2, 1), 20, (1, 0)⟩ :=
  ⟨counters_balanced true (by decide), by decide⟩

/-- A failed flush forgets the dirty counters, a failed update at a release forgets all, and a
change of the size alone is forgotten. -/
theorem counters_lost :
    let get : InfoEvent := .acquired true (some ⟨(3, 4), 100, true⟩)
    let flushed := runAll (Books.step true) [get, .reuse true false true, .flush none] .empty
    let released := runAll (Books.step true)
      [get, .setSize 120, .reuse true false false, .release false none] .empty
    let sized := runAll (Books.step true) [get, .setSize 120, .release false none] .empty
    flushed.sent + flushed.info.pending = ⟨(1, 0), 0, 0⟩ ∧ flushed.recorded = ⟨(1, 0), 0, (1, 0)⟩ ∧
    released.sent + released.info.pending = 0 ∧ released.recorded = ⟨(1, 0), 20, 0⟩ ∧
    sized.sent + sized.info.pending = 0 ∧ sized.recorded = ⟨0, 20, 0⟩ := by
  decide

end TagItGluster.Ec
