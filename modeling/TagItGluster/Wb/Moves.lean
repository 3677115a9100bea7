import Mathlib.Tactic.Ring
import TagItGluster.Wb.Queue

/-!
# What steps do to the queue

Every step of a thread is a number of moves, each of which changes one or two requests. The moves
keep track of the references that are not those of the lists `todo` and `temptation`, but in the
hands of the threads and of the server.
-/

namespace TagItGluster.Wb

open Relation Base List Function

/-- References to the requests, those for writes that are being wound and the others; and what has
been taken off requests, but not yet off the window. -/
@[ext]
structure Refs where
  winds : Nat → Nat
  others : Nat → Nat
  due : Int

namespace Refs

/-- More references. -/
def hold (t : Refs) (winds others : List Nat) : Refs :=
  ⟨fun i => t.winds i + winds.count i, fun i => t.others i + others.count i, t.due⟩

/-- More is due. -/
def owe (t : Refs) (size : Int) : Refs := { t with due := t.due + size }

variable {t : Refs}

lemma hold_congr {winds winds' others others' : List Nat}
    (hw : ∀ i, winds.count i = winds'.count i) (ho : ∀ i, others.count i = others'.count i) :
    t.hold winds others = t.hold winds' others' := by
  unfold hold
  simp [hw, ho]

lemma hold_hold (winds winds' others others' : List Nat) :
    (t.hold winds others).hold winds' others' = t.hold (winds ++ winds') (others ++ others') := by
  unfold hold
  simp [add_assoc]

lemma owe_owe (size size' : Int) : (t.owe size).owe size' = t.owe (size + size') := by
  unfold owe
  simp [add_assoc]

lemma owe_eq_self {size : Int} (h : size = 0) : t.owe size = t := by
  rw [h, owe, add_zero]

end Refs

/-- A request that has been fulfilled, with one reference less. -/
def Request.fulfill (r : Request) : Request := { r with fulfilled := true }.unref

lemma Inode.set_req (s : Inode) (i : Nat) (r : Request) :
    (s.set i r).req = update s.req i r := rfl

lemma wbEnqueueCommon_req (r : Request) (s : Inode) :
    (wbEnqueueCommon r s).req = update s.req s.count (r.enqueue s.gen) := rfl

lemma wbFulfillRequest_req (totalSize i : Nat) (s : Inode) :
    (wbFulfillRequest totalSize i s).req = update s.req i (s.req i).fulfill := by
  simp [wbFulfillRequest, wbRequestUnref, Inode.set, Request.fulfill]

/-- A request that has not been enqueued. -/
structure Request.New (r : Request) : Prop where
  wip : r.wip = false
  lied : r.lied = false
  fulfilled : r.fulfilled = false
  tempted : r.tempted = true → r.fop = .write
  range : r.fop = .write → r.off ≤ r.offset ∧ r.off + r.size = r.offset + r.writeSize
  orig : r.origSize = r.writeSize

lemma wbEnqueueRange_new (conf : Conf) (stub : Stub) (s : Inode) :
    (wbEnqueueRange conf stub s).2.New := by
  unfold wbEnqueueRange
  cases hfop : stub.fop with
  | write =>
    dsimp only
    split
    · next h =>
      refine ⟨rfl, rfl, rfl, fun _ => hfop, fun _ => ⟨le_of_lt h, ?_⟩, rfl⟩
      simp only [Request.ofStub, hfop, if_true]
      omega
    · refine ⟨rfl, rfl, rfl, fun _ => hfop, fun _ => ⟨le_refl _, ?_⟩, rfl⟩
      simp [Request.ofStub, hfop]
  | _ =>
    refine ⟨rfl, rfl, rfl, fun h => ?_, fun h => ?_, rfl⟩
    · simp [Request.ofStub, hfop] at h
    · exact absurd (hfop.symm.trans h) (by decide)

/-- Requests that have been taken out of `todo`. -/
def Inode.Picked (s : Inode) (is : List Nat) : Prop :=
  ∀ i ∈ is, i < s.count ∧ (s.req i).todo = false

/-- The application gets the answer to a write, or has got it. -/
def Inode.Promised (s : Inode) (i : Nat) : Prop :=
  i < s.count ∧ ((s.req i).lied = true ∨ (s.req i).fulfilled = true) ∨ s.answered i = true

/-- What happens to the requests. -/
inductive Move (conf : Conf) : Inode × Refs → Inode × Refs → Prop where
  | resize {s : Inode} {t : Refs} (size : Nat) : Move conf (s, t) ({ s with size := size }, t)
  | enqueue {s : Inode} {t : Refs} {r : Request} (hr : r.New) :
    Move conf (s, t) (wbEnqueueCommon r s, t)
  | go {s : Inode} {t : Refs} {i : Nat} (hi : i < s.count) : Move conf (s, t) (s.setGo i, t)
  | collapse {s : Inode} {t : Refs} {holder req : Nat} (hlt : holder < req) (hreq : req < s.count)
      (hholder : (s.req holder).todo = true ∧ (s.req holder).tempted = true)
      (htodo : (s.req req).todo = true ∧ (s.req req).tempted = true)
      (hoffset : (s.req req).offset = (s.req holder).offset + (s.req holder).writeSize) :
    Move conf (s, t) (wbCollapseSmallWrites holder req s,
      (t.hold [req] []).owe (-(s.req req).writeSize))
  | pick {s : Inode} {t : Refs} {i : Nat} (hi : i < s.count) (htodo : (s.req i).todo = true)
      (hliability : wbLiabilityHasConflict conf s i = false)
      (hwip : wbWipHasConflict s i = false) :
    Move conf (s, t) (s.set i (s.req i).pick, if (s.req i).tempted then t.hold [i] []
      else t.hold [] (if (s.req i).fop = .write then [i, i] else [i]))
  | unwind {s : Inode} {t : Refs} {i : Nat} (hi : i < s.count)
      (hlie : (s.req i).lie = some .temptation) :
    Move conf (s, t) (s.unwind i, t.hold [] [i])
  | fulfill {s : Inode} {t : Refs} {i : Nat} (totalSize : Nat)
      (hdue : t.due + ((s.req i).writeSize - totalSize) = 0 ∨ ∃ j, 0 < t.winds j)
      (hsettled : ∀ w, s.carrier w = i → s.answered w = true ∨ s.dropped w = true) :
    Move conf (s, t.hold [i] []) (wbFulfillRequest totalSize i s,
      t.owe ((s.req i).writeSize - totalSize))
  | unref {s : Inode} {t : Refs} {i : Nat} (hdue : t.due = 0) :
    Move conf (s, t.hold [] [i]) (wbRequestUnref i s, t)
  | wind {s : Inode} {t : Refs} {is : List Nat} (transit : Int) (his : s.Picked is) :
    Move conf (s, t) ({ s.wind is with transit := transit }, t)
  | settle {s : Inode} {t : Refs} (answered dropped : Nat → Bool)
      (ha : ∀ w, s.answered w = true → answered w = true)
      (hd : ∀ w, s.dropped w = true → dropped w = true) :
    Move conf (s, t) ({ s with answered := answered, dropped := dropped }, t)
  | unload {s : Inode} {t : Refs} (size : Nat) :
    Move conf (s, t) ({ s with unloaded := s.unloaded + size }, t.owe (-size))
  | ack {s : Inode} {t : Refs} {i : Nat} (h : s.Promised i) :
    Move conf (s, t) ({ s with acked := update s.acked i true }, t)
  | error {s : Inode} {t : Refs} (fd : Option Nat) (opErrno : Int) :
    Move conf (s, t) (wbFulfillErr fd opErrno s, t)

/-- What no move changes back. -/
structure Inode.Before (s s' : Inode) : Prop where
  count : s.count ≤ s'.count
  todo : ∀ i < s.count, (s.req i).todo = false →
    (s'.req i).todo = false ∧ (s'.req i).writeSize = (s.req i).writeSize
  done : ∀ i < s.count, (s.req i).lied = true ∨ (s.req i).fulfilled = true →
    (s'.req i).lied = true ∨ (s'.req i).fulfilled = true
  answered : ∀ w, s.answered w = true → s'.answered w = true

namespace Inode.Before

private lemma refl (s : Inode) : s.Before s :=
  ⟨le_refl _, fun _ _ h => ⟨h, rfl⟩, fun _ _ h => h, fun _ h => h⟩

private lemma trans {s₁ s₂ s₃ : Inode} (h₁ : s₁.Before s₂) (h₂ : s₂.Before s₃) : s₁.Before s₃ where
  count := le_trans h₁.count h₂.count
  todo i hi h := by
    obtain ⟨htodo, hsize⟩ := h₁.todo i hi h
    obtain ⟨htodo', hsize'⟩ := h₂.todo i (lt_of_lt_of_le hi h₁.count) htodo
    exact ⟨htodo', hsize'.trans hsize⟩
  done i hi h := h₂.done i (lt_of_lt_of_le hi h₁.count) (h₁.done i hi h)
  answered w h := h₂.answered w (h₁.answered w h)

/-- One request is changed. -/
lemma of_update {s s' : Inode} {i : Nat} {r : Request} (hcount : s'.count = s.count)
    (hreq : s'.req = update s.req i r)
    (htodo : (s.req i).todo = false → r.todo = false ∧ r.writeSize = (s.req i).writeSize)
    (hdone : (s.req i).lied ∨ (s.req i).fulfilled → r.lied ∨ r.fulfilled)
    (hanswered : s'.answered = s.answered) : s.Before s' := by
  refine ⟨le_of_eq hcount.symm, fun j _ h => ?_, fun j _ h => ?_, fun w h => hanswered ▸ h⟩
  · rw [hreq, update_apply]
    split
    · next heq => exact heq ▸ htodo (heq ▸ h)
    · exact ⟨h, rfl⟩
  · rw [hreq, update_apply]
    split
    · next heq => exact hdone (heq ▸ h)
    · exact h

end Inode.Before

private lemma unref_todo {r : Request} (h : r.todo = false) :
    r.unref.todo = false ∧ r.unref.writeSize = r.writeSize := by
  unfold Request.unref
  split_ifs <;> exact ⟨by simp [h], rfl⟩

lemma unref_flags (r : Request) : r.unref.lied = r.lied ∧ r.unref.fulfilled = r.fulfilled := by
  unfold Request.unref
  split_ifs <;> exact ⟨rfl, rfl⟩

lemma Move.before {conf : Conf} {s s' : Inode} {t t' : Refs} (h : Move conf (s, t) (s', t')) :
    s.Before s' := by
  cases h with
  | resize | wind | unload | ack =>
    exact ⟨Nat.le_refl _, fun _ _ h => ⟨h, rfl⟩, fun _ _ h => h, fun _ h => h⟩
  | enqueue hr =>
    refine ⟨Nat.le_succ _, fun i hi h => ?_, fun i hi h => ?_, fun w h => h⟩
    · rw [wbEnqueueCommon_req, update_of_ne (Nat.ne_of_lt hi)]
      exact ⟨h, rfl⟩
    · rw [wbEnqueueCommon_req, update_of_ne (Nat.ne_of_lt hi)]
      exact h
  | go hi => exact .of_update rfl rfl (fun h => ⟨h, rfl⟩) id rfl
  | @collapse _ _ holder req hlt hreq hholder htodo hoffset =>
    have hne : req ≠ holder := Nat.ne_of_gt hlt
    have hholding : s.Before (s.set holder ((s.req holder).collapse (s.req req).writeSize)) :=
      .of_update rfl rfl (fun h => absurd (hholder.1.symm.trans h) (by decide)) id rfl
    refine hholding.trans (.of_update rfl rfl ?_ ?_ rfl)
    · rw [Inode.set_req, update_of_ne hne]
      exact fun _ => ⟨rfl, rfl⟩
    · rw [Inode.set_req, update_of_ne hne]
      exact id
  | pick hi htodo hliability hwip => exact .of_update rfl rfl (fun _ => ⟨rfl, rfl⟩) id rfl
  | unwind hi hlie =>
    refine .of_update rfl rfl (fun h => ?_) (fun h => ?_) rfl
    · unfold Request.unwind
      split <;> exact ⟨h, rfl⟩
    · unfold Request.unwind
      split
      · exact h
      · exact .inl rfl
  | fulfill totalSize hdue hsettled =>
    refine .of_update rfl (wbFulfillRequest_req ..) (fun h => unref_todo h) (fun h => ?_) rfl
    exact .inr (unref_flags _).2
  | unref hdue =>
    refine .of_update rfl rfl (fun h => unref_todo h) (fun h => ?_) rfl
    rw [(unref_flags _).1, (unref_flags _).2]
    exact h
  | settle answered dropped ha hd =>
    exact ⟨Nat.le_refl _, fun _ _ h => ⟨h, rfl⟩, fun _ _ h => h, ha⟩
  | error fd opErrno =>
    refine ⟨Nat.le_refl _, fun i _ h => ?_, fun i _ h => ?_, fun _ h => h⟩
    · unfold wbFulfillErr
      dsimp only
      split <;> exact ⟨h, rfl⟩
    · unfold wbFulfillErr
      dsimp only
      split <;> exact h

lemma before_of_moves {conf : Conf} {x y : Inode × Refs} (h : ReflTransGen (Move conf) x y) :
    x.1.Before y.1 := by
  induction h with
  | refl => exact .refl _
  | tail _ hm ih => exact ih.trans hm.before

section

variable {s s' : Inode} (h : s.Before s')
include h

lemma Inode.Picked.mono {is : List Nat} (his : s.Picked is) : s'.Picked is := fun i hi =>
  ⟨lt_of_lt_of_le (his i hi).1 h.count, (h.todo i (his i hi).1 (his i hi).2).1⟩

lemma Inode.Promised.mono {i : Nat} (hi : s.Promised i) : s'.Promised i :=
  hi.imp (fun hi => ⟨lt_of_lt_of_le hi.1 h.count, h.done i hi.1 hi.2⟩) (h.answered i)

lemma sizes_eq_of_before {is : List Nat} (his : s.Picked is) :
    sizes s'.req is = sizes s.req is := by
  unfold sizes
  congr 1
  exact map_congr_left fun i hi => (h.todo i (his i hi).1 (his i hi).2).2

end

variable {conf : Conf} {s : Inode} {t : Refs}

private lemma setGo_flags (s : Inode) (h i : Nat) : ((s.setGo h).req i).todo = (s.req i).todo ∧
    ((s.setGo h).req i).tempted = (s.req i).tempted := by
  rw [Inode.setGo, Inode.set_req, update_apply]
  split
  · next heq => rw [heq]; exact ⟨rfl, rfl⟩
  · exact ⟨rfl, rfl⟩

/-- A write is collapsed into the holder, and is as good as wound. -/
lemma collapse_moves {holder req : Nat} (hdue : t.due = 0) (hlt : holder < req)
    (hreq : req < s.count)
    (hholder : (s.req holder).todo ∧ (s.req holder).tempted)
    (htodo : (s.req req).todo ∧ (s.req req).tempted)
    (hoffset : (s.req req).offset = (s.req holder).offset + (s.req holder).writeSize) :
    ReflTransGen (Move conf) (s, t)
      (wbFulfillRequest 0 req (wbCollapseSmallWrites holder req s), t) := by
  have hsize : ((wbCollapseSmallWrites holder req s).req req).writeSize =
      (s.req req).writeSize := by
    rw [wbCollapseSmallWrites, Inode.set_req, update_self]
  have hfulfill := @Move.fulfill conf (wbCollapseSmallWrites holder req s)
    (t.owe (-(s.req req).writeSize)) req 0
    (.inl (by show t.due + _ + _ = 0; omega)) fun w hw => by
      -- All that it carried is carried by the holder.
      have hw : (if s.carrier w = req then holder else s.carrier w) = req := hw
      split at hw
      · exact absurd hw (Nat.ne_of_lt hlt)
      · next hne => exact absurd hw hne
  have howe : (t.owe (-(s.req req).writeSize)).owe ((s.req req).writeSize - (0 : Nat)) = t :=
    (Refs.owe_owe ..).trans (Refs.owe_eq_self (by omega))
  rw [hsize, howe] at hfulfill
  exact .tail (.single (.collapse hlt hreq hholder htodo hoffset)) hfulfill

/-- The loop keeps a holder that can be collapsed into. -/
lemma preprocessWind_moves (noBuffer : Nat → Bool) (hdue : t.due = 0) {i : Nat}
    (hi : i < s.count) {p : Inode × Option Nat}
    (h : ReflTransGen (Move conf) (s, t) (p.1, t) ∧ p.1.count = s.count ∧
      ∀ h, p.2 = some h → h < i ∧ (p.1.req h).todo ∧ (p.1.req h).tempted) :
    let p' := preprocessWind conf noBuffer i p
    ReflTransGen (Move conf) (s, t) (p'.1, t) ∧ p'.1.count = s.count ∧
      ∀ h, p'.2 = some h → h < i + 1 ∧ (p'.1.req h).todo = true ∧ (p'.1.req h).tempted = true := by
  obtain ⟨s₁, holder⟩ := p
  obtain ⟨hmoves, hcount, hholder⟩ := h
  unfold preprocessWind
  dsimp only
  split
  · exact ⟨hmoves, hcount, fun h hh => ⟨Nat.lt_succ_of_lt (hholder h hh).1, (hholder h hh).2⟩⟩
  next htodo =>
  have htodo : (s₁.req i).todo := by simpa using htodo
  cases holder with
  | none =>
    refine ⟨hmoves, hcount, fun h hh => ?_⟩
    dsimp only at hh ⊢
    split at hh
    · next htempted =>
      obtain rfl := Option.some.inj hh
      exact ⟨Nat.lt_succ_self _, htodo, htempted⟩
    · cases hh
  | some holder =>
    obtain ⟨hlt, hholder⟩ := hholder holder rfl
    have hgo := ReflTransGen.tail hmoves (.go (i := holder) (by omega))
    have hkeep : ∀ h, some holder = some h →
        h < i + 1 ∧ (s₁.req h).todo = true ∧ (s₁.req h).tempted = true := by
      rintro h ⟨⟩
      exact ⟨Nat.lt_succ_of_lt hlt, hholder⟩
    dsimp only
    split_ifs with htempted hconflict hnext hbuffer
    · refine ⟨hgo, hcount, fun h hh => ?_⟩
      rw [(setGo_flags ..).1, (setGo_flags ..).2]
      exact hkeep h hh
    · exact ⟨hmoves, hcount, hkeep⟩
    · refine ⟨hgo, hcount, fun h hh => ?_⟩
      obtain rfl := Option.some.inj hh
      rw [(setGo_flags ..).1, (setGo_flags ..).2]
      exact ⟨Nat.lt_succ_self _, htodo, by simpa using htempted⟩
    · exact ⟨hmoves, hcount, hkeep⟩
    · have hoffset : (s₁.req i).offset = (s₁.req holder).offset + (s₁.req holder).writeSize := by
        simp only [not_or, not_not] at hnext
        exact hnext.1
      refine ⟨hmoves.trans (collapse_moves hdue hlt (hcount ▸ hi) hholder
        ⟨htodo, by simpa using htempted⟩ hoffset), hcount, fun h hh => ?_⟩
      obtain rfl := Option.some.inj hh
      have hne : holder ≠ i := Nat.ne_of_lt hlt
      rw [wbFulfillRequest_req, update_of_ne hne, wbCollapseSmallWrites, Inode.set_req,
        update_of_ne hne, Inode.set_req, update_self]
      exact ⟨Nat.lt_succ_of_lt hlt, hholder⟩

private lemma wbPreprocessWinds_moves (conf : Conf) (noBuffer : Nat → Bool) (s : Inode)
    (hdue : t.due = 0) : ReflTransGen (Move conf) (s, t) (wbPreprocessWinds conf noBuffer s, t) ∧
      (wbPreprocessWinds conf noBuffer s).count = s.count := by
  have hloop := runAll_range (preprocessWind conf noBuffer)
    (fun i p => ReflTransGen (Move conf) (s, t) (p.1, t) ∧ p.1.count = s.count ∧
      ∀ h, p.2 = some h → h < i ∧ (p.1.req h).todo = true ∧ (p.1.req h).tempted = true)
    (s := (s, none)) ⟨.refl, rfl, nofun⟩
    fun i hi p hp => preprocessWind_moves noBuffer hdue hi hp
  unfold wbPreprocessWinds
  generalize runAll (preprocessWind conf noBuffer) (List.range s.count) (s, none) = p at hloop
  obtain ⟨s₁, holder⟩ := p
  cases holder with
  | none => exact ⟨hloop.1, hloop.2.1⟩
  | some holder =>
    dsimp only
    split
    · have hholder := (hloop.2.2 holder rfl).1
      exact ⟨hloop.1.tail (.go (by omega)), hloop.2.1⟩
    · exact ⟨hloop.1, hloop.2.1⟩

/-- The references that the lists hold, apart from `liabilities`. -/
def Pass.others (p : Pass) : List Nat :=
  p.tasks.flatMap (fun i => if i.2 then [i.1, i.1] else [i.1]) ++ p.lies

/-- How the lists come about. -/
structure Pass.From (conf : Conf) (s : Inode) (t : Refs) (p : Pass) : Prop where
  moves : ReflTransGen (Move conf) (s, t) (p.inode, t.hold p.liabilities p.others)
  count : p.inode.count = s.count
  tasks : p.inode.Picked (p.tasks.map Prod.fst)
  liabilities : p.inode.Picked p.liabilities
  lies : ∀ i ∈ p.lies, p.inode.Promised i

private lemma Inode.Picked.append {is : List Nat} {i : Nat} (his : s.Picked is) (hi : i < s.count)
    (htodo : (s.req i).todo = false) : s.Picked (is ++ [i]) := by
  intro j hj
  rcases mem_append.mp hj with hj | hj
  · exact his j hj
  · obtain rfl := mem_singleton.mp hj
    exact ⟨hi, htodo⟩

private lemma pickWind_from {i : Nat} (hi : i < s.count) {p : Pass} (h : p.From conf s t) :
    (pickWind conf i p).From conf s t := by
  unfold pickWind
  dsimp only
  split
  · exact h
  next hpick =>
  simp only [Bool.or_eq_true, Bool.not_eq_true', not_or, Bool.not_eq_true,
    Bool.not_eq_false] at hpick
  obtain ⟨⟨⟨htodo, hliability⟩, -⟩, hwip⟩ := hpick
  have hi : i < p.inode.count := h.count ▸ hi
  have hmove := Move.pick (t := t.hold p.liabilities p.others) hi htodo hliability hwip
  have hbefore := hmove.before
  have hpicked : ((p.inode.set i (p.inode.req i).pick).req i).todo = false := by
    rw [Inode.set_req, update_self]
    rfl
  split
  · next htempted =>
    rw [if_pos htempted, Refs.hold_hold, append_nil] at hmove
    exact ⟨h.moves.tail hmove, h.count, h.tasks.mono hbefore,
      (h.liabilities.mono hbefore).append hi hpicked, fun j hj => (h.lies j hj).mono hbefore⟩
  next htempted =>
  refine ⟨?_, h.count, ?_, h.liabilities.mono hbefore, fun j hj => (h.lies j hj).mono hbefore⟩
  · rw [if_neg htempted, Refs.hold_hold, append_nil] at hmove
    rw [Refs.hold_congr (fun _ => rfl) fun j => ?_]
    · exact h.moves.tail hmove
    · simp only [Pass.others, flatMap_append, count_append, flatMap_cons,
        flatMap_nil, decide_eq_true_eq, append_nil]
      omega
  · rw [map_append]
    exact (h.tasks.mono hbefore).append hi hpicked

private lemma pickUnwind_from {i : Nat} (hi : i < s.count) {p : Pass} (h : p.From conf s t) :
    (pickUnwind i p).From conf s t := by
  unfold pickUnwind
  dsimp only
  split
  · exact h
  next hpick =>
  simp only [not_or, not_not] at hpick
  have hi : i < p.inode.count := h.count ▸ hi
  have hmove := @Move.unwind conf p.inode (t.hold p.liabilities p.others) i hi hpick.1
  have hbefore := hmove.before
  rw [Refs.hold_hold] at hmove
  refine ⟨h.moves.tail ?_, h.count, h.tasks.mono hbefore, h.liabilities.mono hbefore,
    fun j hj => ?_⟩
  · simpa [Pass.others] using hmove
  rcases mem_append.mp hj with hj | hj
  · exact (h.lies j hj).mono hbefore
  obtain rfl := mem_singleton.mp hj
  refine .inl ⟨hi, ?_⟩
  rw [Inode.unwind, Inode.set_req, update_self, Request.unwind]
  split
  · next hfulfilled => exact .inr hfulfilled
  · exact .inl rfl

lemma wbProcessQueue_from (conf : Conf) (noBuffer : Nat → Bool) (s : Inode) (hdue : t.due = 0) :
    (wbProcessQueue conf noBuffer s).From conf s t := by
  obtain ⟨hmoves, hcount⟩ := wbPreprocessWinds_moves conf noBuffer s hdue
  have hstart : Pass.From conf s t ⟨wbPreprocessWinds conf noBuffer s, [], [], []⟩ :=
    ⟨hmoves, hcount, nofun, nofun, nofun⟩
  have hwinds : (wbPickWinds conf ⟨wbPreprocessWinds conf noBuffer s, [], [], []⟩).From conf s t :=
    runAll_range _ (fun _ => Pass.From conf s t) hstart fun i hi p hp =>
      pickWind_from (lt_of_lt_of_eq hi hcount) hp
  exact runAll_range _ (fun _ => Pass.From conf s t) hwinds fun i hi p hp =>
    pickUnwind_from (lt_of_lt_of_eq hi hwinds.count) hp

end TagItGluster.Wb
