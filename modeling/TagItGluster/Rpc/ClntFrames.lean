import Mathlib.Algebra.GroupWithZero.Nat
import Mathlib.Data.List.Count
import TagItGluster.Base.Machine

/-!
# The saved frames of an RPC client

A request that the transport has taken is saved until a reply, the bail-out timer or the cleanup of
the connection takes it. Each of them takes frames under the lock of the connection and runs their
callbacks after it has released the lock, so that other threads may run in between; what has been
taken and not been called back yet is in hand. Line numbers: `rpc/rpc-lib/src/rpc-clnt.c`.
-/

namespace TagItGluster.Rpc

open Base List Option

/-- `struct saved_frame`, with the request that it belongs to. -/
structure SavedFrame where
  req : Nat
  xid : Nat
  savedAt : Nat
deriving DecidableEq

/-- `struct saved_frames`. -/
structure SavedFrames where
  sf : List SavedFrame
  lkSf : List SavedFrame
deriving DecidableEq

/-- `rpc_clnt_connection_t`; the table of frames may be missing. -/
structure ClntState where
  savedFrames : Option SavedFrames
  /-- The frames that each pass has taken and not called back yet. -/
  inHand : List (List SavedFrame)
  /-- The requests whose callbacks have run. -/
  called : List Nat
  /-- `clnt->xid`. -/
  xid : Nat
  /-- The number of request records that have been allocated. -/
  reqs : Nat
  /-- A table that is missing has been read. -/
  fault : Bool
deriving DecidableEq

/-- How a submission ends. -/
inductive SubmitEnd where
  | noRequest
  | noIobref
  | noRecord
  | sent (ret : Int) (room : Bool)
deriving DecidableEq

namespace ClntState

/-- `__saved_frames_put` (82). -/
def framesPut (lock : Bool) (frame : SavedFrame) (frames : SavedFrames) : SavedFrames :=
  if lock then { frames with lkSf := frames.lkSf ++ [frame] }
  else { frames with sf := frames.sf ++ [frame] }

/-- The callback of a request. -/
def callback (req : Nat) (s : ClntState) : ClntState := { s with called := req :: s.called }

/-- `rpc_clnt_submit` (1476). The result of `__save_frame` (219) is not looked at. -/
def submit (lock : Bool) (now : Nat) (how : SubmitEnd) (s : ClntState) : ClntState :=
  match how with
  | .noRequest => s
  | .noIobref => { s with reqs := s.reqs + 1 }.callback s.reqs
  | .noRecord => { s with reqs := s.reqs + 1, xid := s.xid + 1 }.callback s.reqs
  | .sent ret room =>
    let s' := { s with reqs := s.reqs + 1, xid := s.xid + 1 }
    if 0 ≤ ret then
      match s.savedFrames with
      | none => { s' with fault := true }
      | some frames =>
        let frame : SavedFrame := ⟨s.reqs, (s.xid + 1) % 2 ^ 32, now⟩
        if room then { s' with savedFrames := some (framesPut lock frame frames) } else s'
    else if ret = -1 then s'.callback s.reqs
    else s'

/-- `__saved_frame_get` (301): the first frame with an id, and the others. -/
def framesGet (xid : Nat) (frames : SavedFrames) : Option (SavedFrame × SavedFrames) :=
  match frames.sf.find? (·.xid = xid) with
  | some frame => some (frame, { frames with sf := frames.sf.erase frame })
  | none =>
    match frames.lkSf.find? (·.xid = xid) with
    | some frame => some (frame, { frames with lkSf := frames.lkSf.erase frame })
    | none => none

/-- `rpc_clnt_handle_reply` (732) up to the end of `lookup_frame` (551). -/
def takeReply (xid : Nat) (s : ClntState) : ClntState :=
  match s.savedFrames with
  | none => { s with fault := true }
  | some frames =>
    match framesGet xid frames with
    | none => s
    | some (frame, frames) =>
      { s with savedFrames := some frames, inHand := s.inHand ++ [[frame]] }

/-- The part of `call_bail` (115) under the lock: frames at the front of the list that are too old.
Locks are not bailed out. -/
def takeTimedOut (timeout now : Nat) (s : ClntState) : ClntState :=
  match s.savedFrames with
  | none => { s with fault := true }
  | some frames =>
    { s with
      savedFrames := some
        { frames with sf := frames.sf.dropWhile fun f => f.savedAt + timeout < now }
      inHand := s.inHand ++ [(frames.sf.takeWhile fun f => f.savedAt + timeout < now).reverse] }

/-- The part of `rpc_clnt_connection_cleanup` (499) under the lock, with the order in which
`saved_frames_unwind` (334) goes through the frames. -/
def takeAll (alloc : Bool) (s : ClntState) : ClntState :=
  { s with
    savedFrames := if alloc then some ⟨[], []⟩ else none
    inHand := s.inHand ++ [(s.savedFrames.map fun frames => frames.lkSf ++ frames.sf).getD []] }

/-- A pass calls back the next frame that it has. -/
def callNext (i : Nat) (s : ClntState) : ClntState :=
  match s.inHand[i]? with
  | some (frame :: rest) => { s with inHand := s.inHand.set i rest }.callback frame.req
  | _ => s

/-- A connection without requests. -/
def init : ClntState := ⟨some ⟨[], []⟩, [], [], 0, 0, false⟩

end ClntState

/-- What happens at a client, with what the allocations and the transport do. -/
inductive ClntEvent where
  | submit (lock : Bool) (now : Nat) (how : SubmitEnd)
  | reply (xid : Nat)
  | timeOut (timeout now : Nat)
  | cleanup (alloc : Bool)
  | callNext (i : Nat)
deriving DecidableEq

/-- One event at a client. -/
def ClntState.step : ClntEvent → ClntState → ClntState
  | .submit lock now how, s => s.submit lock now how
  | .reply xid, s => s.takeReply xid
  | .timeOut timeout now, s => s.takeTimedOut timeout now
  | .cleanup alloc, s => s.takeAll alloc
  | .callNext i, s => s.callNext i

namespace ClntState

/-! ### Where a request is -/

/-- The frames in the table. -/
def frames (s : ClntState) : List SavedFrame :=
  (s.savedFrames.map fun frames => frames.lkSf ++ frames.sf).getD []

/-- How often a request is among some frames. -/
def among (req : Nat) (fs : List SavedFrame) : Nat := fs.countP (·.req = req)

@[simp]
lemma among_nil (req : Nat) : among req [] = 0 := rfl

@[simp]
lemma among_cons (req : Nat) (f : SavedFrame) (fs : List SavedFrame) :
    among req (f :: fs) = among req fs + if f.req = req then 1 else 0 := by
  simp [among, countP_cons]

@[simp]
lemma among_append (req : Nat) (fs gs : List SavedFrame) :
    among req (fs ++ gs) = among req fs + among req gs := by
  simp [among]

@[simp]
lemma among_reverse (req : Nat) (fs : List SavedFrame) :
    among req fs.reverse = among req fs := by
  simp [among]

/-- A request's callbacks, and its frames in the table and in hand. -/
def weight (req : Nat) (s : ClntState) : Nat :=
  s.called.count req + among req s.frames + among req s.inHand.flatten

variable {f : SavedFrame} {fs fs' : SavedFrames} {e : ClntEvent}

/-- Taking a frame out of a list. -/
lemma among_erase (req : Nat) {fs : List SavedFrame} (hf : f ∈ fs) :
    among req fs = among req (fs.erase f) + if f.req = req then 1 else 0 := by
  have hperm : among req fs = among req (f :: fs.erase f) :=
    (perm_cons_erase hf).countP_eq _
  rw [hperm, among_cons]

private lemma framesGet_among {xid : Nat} (h : framesGet xid fs = some (f, fs')) (req : Nat) :
    among req (fs.lkSf ++ fs.sf) =
      among req (fs'.lkSf ++ fs'.sf) + if f.req = req then 1 else 0 := by
  unfold framesGet at h
  split at h
  · next g hg =>
    cases h
    have herase := among_erase req (mem_of_find?_eq_some hg)
    rw [among_append, among_append]
    dsimp only
    omega
  · split at h
    · next g hg =>
      cases h
      have herase := among_erase req (mem_of_find?_eq_some hg)
      rw [among_append, among_append]
      dsimp only
      omega
    · cases h

/-! ### Each event -/

/-- A submission that does not lose its request. -/
def Kept (how : SubmitEnd) (s : ClntState) : Prop :=
  match how with
  | .sent ret room => ret = -1 ∨ 0 ≤ ret ∧ room = true ∧ s.savedFrames.isSome = true
  | _ => True

private lemma weight_callback (req r : Nat) (s : ClntState) :
    (s.callback r).weight req = s.weight req + if r = req then 1 else 0 := by
  simp only [callback, weight, frames, count_cons, beq_iff_eq]
  omega

/-- Saving a frame gives its request a place. -/
lemma among_framesPut (req : Nat) (lock : Bool) (f : SavedFrame) (fs : SavedFrames) :
    among req ((framesPut lock f fs).lkSf ++ (framesPut lock f fs).sf) =
      among req (fs.lkSf ++ fs.sf) + if f.req = req then 1 else 0 := by
  cases lock
  · simp [framesPut]
    omega
  · simp [framesPut]
    omega

/-- A submission without a record changes nothing; any other has a new request, which has a place
afterwards or is lost. -/
lemma submit_cases (lock : Bool) (now : Nat) (how : SubmitEnd) (s : ClntState) :
    s.submit lock now how = s ∨ (s.submit lock now how).reqs = s.reqs + 1 ∧
        ((∀ req, (s.submit lock now how).weight req =
            s.weight req + if s.reqs = req then 1 else 0) ∨
          ¬ Kept how s ∧ ∀ req, (s.submit lock now how).weight req = s.weight req) := by
  cases how with
  | noRequest => exact .inl rfl
  | noIobref | noRecord => exact .inr ⟨rfl, .inl fun req => weight_callback req s.reqs _⟩
  | sent ret room =>
    right
    unfold submit
    dsimp only
    by_cases hret : 0 ≤ ret
    · rw [if_pos hret]
      have hne : ret ≠ -1 := by omega
      cases hframes : s.savedFrames with
      | none =>
        refine ⟨rfl, .inr ⟨?_, fun req => by simp [weight, frames, hframes]⟩⟩
        simp [Kept, hne, hframes]
      | some fs =>
        cases room with
        | false =>
          refine ⟨rfl, .inr ⟨?_, fun req => by simp [weight, frames, hframes]⟩⟩
          simp [Kept, hne]
        | true =>
          refine ⟨rfl, .inl fun req => ?_⟩
          have hput := among_framesPut req lock ⟨s.reqs, (s.xid + 1) % 2 ^ 32, now⟩ fs
          simp only [weight, frames, hframes, map_some, getD_some, if_true]
          rw [hput]
          dsimp only
          omega
    · rw [if_neg hret]
      by_cases hfail : ret = -1
      · rw [if_pos hfail]
        exact ⟨rfl, .inl fun req => weight_callback req s.reqs _⟩
      · rw [if_neg hfail]
        refine ⟨rfl, .inr ⟨?_, fun req => rfl⟩⟩
        simp [Kept, hfail, hret]

private lemma weight_takeReply (req xid : Nat) (s : ClntState) :
    (s.takeReply xid).weight req = s.weight req := by
  unfold takeReply
  cases hframes : s.savedFrames with
  | none => simp [weight, frames, hframes]
  | some fs =>
    dsimp only
    cases hget : framesGet xid fs with
    | none => rfl
    | some r =>
      obtain ⟨f, fs'⟩ := r
      have hmoved := framesGet_among hget req
      simp only [weight, frames, hframes, map_some, getD_some, flatten_append,
        flatten_cons, flatten_nil, among_append, among_cons,
        among_nil] at hmoved ⊢
      omega

private lemma weight_takeTimedOut (req timeout now : Nat) (s : ClntState) :
    (s.takeTimedOut timeout now).weight req = s.weight req := by
  unfold takeTimedOut
  cases hframes : s.savedFrames with
  | none => simp [weight, frames, hframes]
  | some fs =>
    have hsplit := congrArg (among req)
      (takeWhile_append_dropWhile (p := fun f : SavedFrame => f.savedAt + timeout < now)
        (l := fs.sf))
    simp only [weight, frames, hframes, map_some, getD_some, flatten_append,
      flatten_cons, flatten_nil, append_nil, among_append, among_reverse] at hsplit ⊢
    omega

private lemma weight_takeAll (req : Nat) (alloc : Bool) (s : ClntState) :
    (s.takeAll alloc).weight req = s.weight req := by
  have hempty : (s.takeAll alloc).frames = [] := by
    cases alloc <;> rfl
  unfold weight
  rw [hempty]
  simp only [takeAll, flatten_append, flatten_cons, among_append]
  change s.called.count req + 0 + (among req s.inHand.flatten + among req s.frames) = _
  omega

-- A frame goes from the front of one hand to the callbacks.
private lemma among_set (req : Nat) {i : Nat} {hands : List (List SavedFrame)}
    {rest : List SavedFrame} (h : hands[i]? = some (f :: rest)) :
    among req (hands.set i rest).flatten + (if f.req = req then 1 else 0) =
      among req hands.flatten := by
  induction hands generalizing i with
  | nil => simp at h
  | cons hand hands ih =>
    cases i with
    | zero =>
      have heq : hand = f :: rest := by simpa using h
      simp only [heq, set_cons_zero, flatten_cons, among_append, among_cons]
      omega
    | succ i =>
      have hrec := ih (by simpa using h)
      simp only [set_cons_succ, flatten_cons, among_append]
      omega

private lemma weight_callNext (req i : Nat) (s : ClntState) :
    (s.callNext i).weight req = s.weight req := by
  unfold callNext
  split
  · next f rest hhand =>
    have hset := among_set req hhand
    simp only [callback, weight, frames, count_cons, beq_iff_eq] at hset ⊢
    omega
  · rfl

/-- Every other event only moves requests. -/
lemma moves_only (he : ∀ lock now how, e ≠ .submit lock now how) (s : ClntState) :
    (step e s).reqs = s.reqs ∧ ∀ req, (step e s).weight req = s.weight req := by
  cases e with
  | submit lock now how => exact absurd rfl (he lock now how)
  | reply xid =>
    refine ⟨?_, fun req => weight_takeReply req xid s⟩
    simp only [step, takeReply]
    split
    · rfl
    · split <;> rfl
  | timeOut timeout now =>
    refine ⟨?_, fun req => weight_takeTimedOut req timeout now s⟩
    simp only [step, takeTimedOut]
    split <;> rfl
  | cleanup alloc => exact ⟨rfl, fun req => weight_takeAll req alloc s⟩
  | callNext i =>
    refine ⟨?_, fun req => weight_callNext req i s⟩
    simp only [step, callNext]
    split <;> rfl

/-- A request is in at most one place, and in none before its record is allocated. -/
def Once (s : ClntState) : Prop :=
  ∀ req, s.weight req ≤ if req < s.reqs then 1 else 0

/-- Every request is in one place. -/
def Kept.All (s : ClntState) : Prop :=
  ∀ req, s.weight req = if req < s.reqs then 1 else 0

private lemma Once.step (e : ClntEvent) (s : ClntState) (h : s.Once) : (step e s).Once := by
  by_cases hsub : ∃ lock now how, e = .submit lock now how
  · obtain ⟨lock, now, how, rfl⟩ := hsub
    intro req
    have hreq := h req
    change (s.submit lock now how).weight req ≤
      if req < (s.submit lock now how).reqs then 1 else 0
    rcases submit_cases lock now how s with heq | ⟨hreqs, hnew | ⟨-, hlost⟩⟩
    · rw [heq]
      exact hreq
    · rw [hnew]
      split at hreq <;> split <;> split <;> omega
    · rw [hlost]
      split at hreq <;> split <;> omega
  · obtain ⟨hreqs, hweight⟩ := moves_only (fun lock now how heq => hsub ⟨lock, now, how, heq⟩) s
    intro req
    rw [hreqs, hweight]
    exact h req

/-- Frames and tables can be allocated, and the transport says 0 or more, or -1. -/
def Proper : ClntEvent → ClntState → Prop
  | .submit _ _ (.sent ret room), _ => ret = -1 ∨ 0 ≤ ret ∧ room = true
  | .cleanup alloc, _ => alloc = true
  | _, _ => True

instance decidableProper : ∀ (e : ClntEvent) (s : ClntState), Decidable (Proper e s)
  | .submit _ _ .noRequest, _ => inferInstanceAs (Decidable True)
  | .submit _ _ .noIobref, _ => inferInstanceAs (Decidable True)
  | .submit _ _ .noRecord, _ => inferInstanceAs (Decidable True)
  | .submit _ _ (.sent ret room), _ =>
    inferInstanceAs (Decidable (ret = -1 ∨ 0 ≤ ret ∧ room = true))
  | .reply _, _ => inferInstanceAs (Decidable True)
  | .timeOut _ _, _ => inferInstanceAs (Decidable True)
  | .cleanup alloc, _ => inferInstanceAs (Decidable (alloc = true))
  | .callNext _, _ => inferInstanceAs (Decidable True)

/-- A table is there, and every request is in one place. -/
def Inv (s : ClntState) : Prop := s.savedFrames.isSome = true ∧ Kept.All s

private lemma table_step {s : ClntState} (h : s.savedFrames.isSome) (hproper : Proper e s) :
    (step e s).savedFrames.isSome = true := by
  obtain ⟨fs, hfs⟩ := isSome_iff_exists.mp h
  cases e with
  | submit lock now how =>
    cases how with
    | sent ret room =>
      simp only [step, submit, hfs]
      split
      · split <;> rfl
      · split <;> rfl
    | noRequest | noIobref | noRecord => exact h
  | reply xid =>
    simp only [step, takeReply, hfs]
    split
    · exact h
    · rfl
  | timeOut timeout now =>
    simp only [step, takeTimedOut, hfs]
    rfl
  | cleanup alloc =>
    have halloc : alloc := hproper
    rw [halloc]
    rfl
  | callNext i =>
    simp only [step, callNext]
    split
    · exact h
    · exact h

private lemma Inv.step (e : ClntEvent) (s : ClntState) (h : s.Inv) (hproper : Proper e s) :
    (step e s).Inv := by
  refine ⟨table_step h.1 hproper, ?_⟩
  by_cases hsub : ∃ lock now how, e = .submit lock now how
  · obtain ⟨lock, now, how, rfl⟩ := hsub
    rcases submit_cases lock now how s with heq | ⟨hreqs, hnew | ⟨hlost, -⟩⟩
    · change Kept.All (s.submit lock now how)
      rw [heq]
      exact h.2
    · intro req
      have hreq := h.2 req
      change (s.submit lock now how).weight req =
        if req < (s.submit lock now how).reqs then 1 else 0
      rw [hnew]
      split at hreq <;> split <;> split <;> omega
    · -- A proper submission keeps its request.
      apply absurd _ hlost
      cases how with
      | sent ret room =>
        rcases hproper with hfail | ⟨hret, hroom⟩
        · exact .inl hfail
        · exact .inr ⟨hret, hroom, h.1⟩
      | noRequest | noIobref | noRecord => trivial
  · obtain ⟨hreqs, hweight⟩ := moves_only (fun lock now how heq => hsub ⟨lock, now, how, heq⟩) s
    intro req
    rw [hreqs, hweight]
    exact h.2 req

private lemma mem_framesGet {xid : Nat} {g : SavedFrame} (h : framesGet xid fs = some (f, fs'))
    (hg : g ∈ fs'.lkSf ++ fs'.sf) : g ∈ fs.lkSf ++ fs.sf := by
  unfold framesGet at h
  split at h
  · cases h
    exact (List.Sublist.append_left erase_sublist _).subset hg
  · split at h
    · cases h
      exact (List.Sublist.append_right erase_sublist _).subset hg
    · cases h

/-- A frame in the table was there before or belongs to the request that is new. -/
lemma mem_frames_step {s : ClntState} (hf : f ∈ (step e s).frames) :
    f ∈ s.frames ∨ f.req = s.reqs := by
  cases e with
  | submit lock now how =>
    cases how with
    | noRequest | noIobref | noRecord => exact .inl hf
    | sent ret room =>
      cases hframes : s.savedFrames with
      | none =>
        simp only [step, submit, hframes] at hf
        split at hf
        · simp [frames] at hf
        · split at hf <;> simp [frames, callback] at hf
      | some fs =>
        have hold : s.frames = fs.lkSf ++ fs.sf := by simp [frames, hframes]
        rw [hold]
        simp only [step, submit, hframes] at hf
        split at hf
        · split at hf
          · cases lock
            · simp only [frames, framesPut, map_some, getD_some, Bool.false_eq_true,
                if_false, mem_append, mem_singleton] at hf ⊢
              rcases hf with hf | hf | rfl
              · exact .inl (.inl hf)
              · exact .inl (.inr hf)
              · exact .inr rfl
            · simp only [frames, framesPut, map_some, getD_some, if_true,
                mem_append, mem_singleton] at hf ⊢
              rcases hf with (hf | rfl) | hf
              · exact .inl (.inl hf)
              · exact .inr rfl
              · exact .inl (.inr hf)
          · exact .inl hf
        · split at hf
          · exact .inl hf
          · exact .inl hf
  | reply xid =>
    left
    simp only [step, takeReply] at hf
    cases hframes : s.savedFrames with
    | none => simp [hframes, frames] at hf
    | some fs =>
      rw [hframes] at hf
      dsimp only at hf
      cases hget : framesGet xid fs with
      | none =>
        rw [hget] at hf
        exact hf
      | some r =>
        rw [hget] at hf
        have hmem := mem_framesGet hget hf
        simpa [frames, hframes] using hmem
  | timeOut timeout now =>
    left
    simp only [step, takeTimedOut] at hf
    cases hframes : s.savedFrames with
    | none => simp [hframes, frames] at hf
    | some fs =>
      rw [hframes] at hf
      have hsub : (fs.lkSf ++ fs.sf.dropWhile fun f => f.savedAt + timeout < now).Sublist
          (fs.lkSf ++ fs.sf) := List.Sublist.append_left (dropWhile_sublist _) _
      have hmem := hsub.subset hf
      simpa [frames, hframes] using hmem
  | cleanup alloc =>
    have hempty : (s.takeAll alloc).frames = [] := by
      cases alloc <;> rfl
    simp only [step] at hf
    rw [hempty] at hf
    cases hf
  | callNext i =>
    left
    simp only [step, callNext] at hf
    split at hf
    · exact hf
    · exact hf

private lemma reqs_step_le (e : ClntEvent) (s : ClntState) : s.reqs ≤ (step e s).reqs := by
  by_cases hsub : ∃ lock now how, e = .submit lock now how
  · obtain ⟨lock, now, how, rfl⟩ := hsub
    rcases submit_cases lock now how s with heq | ⟨hreqs, -⟩
    · exact Nat.le_of_eq (congrArg ClntState.reqs heq).symm
    · change s.reqs ≤ (s.submit lock now how).reqs
      omega
  · exact Nat.le_of_eq (moves_only (fun lock now how heq => hsub ⟨lock, now, how, heq⟩) s).1.symm

/-- The requests below some number are not in the table, and will not be. -/
def Cleared (n : Nat) (s : ClntState) : Prop := n ≤ s.reqs ∧ ∀ f ∈ s.frames, n ≤ f.req

private lemma Cleared.step {n : Nat} (e : ClntEvent) (s : ClntState) (h : Cleared n s) :
    Cleared n (step e s) := by
  refine ⟨Nat.le_trans h.1 (reqs_step_le e s), fun f hf => ?_⟩
  rcases mem_frames_step hf with hold | hnew
  · exact h.2 f hold
  · rw [hnew]
    exact h.1

end ClntState

open ClntState

/-- No callback runs twice. If allocations succeed and the transport fails with -1 only, the
callback of every request that was submitted before a cleanup has run once as soon as no pass has
its frame in hand. -/
theorem callback_once (es₁ es₂ : List ClntEvent) (alloc : Bool) :
    let s := runAll ClntState.step es₁ ClntState.init
    let t := runAll ClntState.step (es₁ ++ .cleanup alloc :: es₂) ClntState.init
    (∀ req, t.called.count req ≤ 1) ∧
      (Throughout ClntState.step Proper (es₁ ++ .cleanup alloc :: es₂) ClntState.init →
        ∀ req < s.reqs, (∀ hand ∈ t.inHand, ∀ f ∈ hand, f.req ≠ req) → t.called.count req = 1) := by
  intro s t
  have hinit : ∀ req, ClntState.init.weight req = 0 := fun _ => rfl
  constructor
  · intro req
    have honce : t.Once := runAll_always ClntState.step ClntState.Once Once.step _ fun req => by
      simp [hinit]
    have hreq := honce req
    have hle : t.called.count req ≤ t.weight req := by
      unfold weight
      omega
    split at hreq <;> omega
  · intro hproper req hreq hhand
    have hinv : t.Inv := runAll_inv ClntState.step ClntState.Inv Inv.step
      ⟨rfl, fun req => rfl⟩ hproper
    have hclear : Cleared s.reqs t := by
      have hrun : t = runAll ClntState.step es₂ (s.takeAll alloc) := by
        change runAll ClntState.step (es₁ ++ .cleanup alloc :: es₂) ClntState.init = _
        rw [runAll_append]
        rfl
      rw [hrun]
      apply runAll_always ClntState.step (Cleared s.reqs) Cleared.step
      refine ⟨Nat.le_refl _, fun f hf => ?_⟩
      have hempty : (s.takeAll alloc).frames = [] := by
        cases alloc <;> rfl
      rw [hempty] at hf
      cases hf
    have hplace := hinv.2 req
    rw [if_pos (Nat.lt_of_lt_of_le hreq hclear.1)] at hplace
    have htable : among req t.frames = 0 := by
      apply countP_eq_zero.mpr
      intro f hf
      have hge := hclear.2 f hf
      simp only [decide_eq_true_eq]
      omega
    have hnone : among req t.inHand.flatten = 0 := by
      apply countP_eq_zero.mpr
      intro f hf
      obtain ⟨hand, hmem, hf⟩ := mem_flatten.mp hf
      simpa using hhand hand hmem f hf
    unfold weight at hplace
    omega

/-- Two requests, one of which is answered; the other one is called back by the cleanup. -/
def twoCalls : List ClntEvent :=
  [.submit false 0 (.sent 0 true), .submit true 0 (.sent 0 true), .reply 2, .callNext 0]

theorem callback_once_two : (runAll ClntState.step (twoCalls ++ .cleanup true :: [.callNext 1])
      ClntState.init).called.count 0 = 1 :=
  (callback_once twoCalls [.callNext 1] true).2 (by decide +kernel) 0 (by decide +kernel)
    (by decide +kernel)

/-- Without memory for its frame a request that has been sent is never called back. A frame that the
bail-out timer has in hand is not called back when the cleanup has ended. -/
theorem callback_never :
    (runAll ClntState.step [.submit false 0 (.sent 0 false), .cleanup true, .callNext 0]
      ClntState.init).called = [] ∧
    (runAll ClntState.step [.submit false 0 (.sent 0 false), .cleanup true, .callNext 0]
      ClntState.init).inHand.flatten = [] ∧
    (runAll ClntState.step [.submit false 0 (.sent 0 true), .timeOut 1 9, .cleanup true,
      .callNext 1] ClntState.init).called = [] := by
  decide +kernel

end TagItGluster.Rpc
