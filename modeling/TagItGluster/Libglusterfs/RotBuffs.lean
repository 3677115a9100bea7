import TagItGluster.Base.Keyed
import TagItGluster.Base.Machine
import TagItGluster.Base.Tiling

/-!
# Rotational buffers

Writers reserve areas in the current buffer and complete them later; the consumer takes the current
buffer out of the rotation, waits until its writers are done, dispatches it and puts it back. A
buffer (`rbuf_list_t`) is a list of vectors of one size. An area that does not fit into the vector
in use is put into the next one, which is allocated if there is none.

A step is what a thread does under one lock. `awaiting` and the two counters decide whether a writer
wakes the consumer, so a wake-up is a step of its own, between the completion and the moment the
signal is sent.

Each vector has beside its length the areas that were reserved in it since it was reset, and the
state has all areas reserved so far, those not completed and what was dispatched. The code has none
of these. Line numbers: `libglusterfs/src/rot-buffs.c`.
-/

namespace TagItGluster.Libglusterfs

open Base

/-- `ROT_BUFF_ALLOC_SIZE`. -/
def rotBuffAllocSize : Nat := 1 * 1024 * 1024

/-- `ROT_BUFF_DEFAULT_COUNT`. -/
def rotBuffDefaultCount : Nat := 2

/-- `RVEC_LOW_WATERMARK_COUNT`. -/
def rvecLowWatermarkCount : Nat := 1

/-- `RVEC_HIGH_WATERMARK_COUNT`. -/
def rvecHighWatermarkCount : Nat := 1 <<< 4

/-- A write area: its number, the allocation it is in, its place there and its length. -/
structure WriteArea where
  id : Nat
  mem : Nat
  off : Nat
  len : Nat
deriving DecidableEq

/-- The memory of one area is not that of the other. -/
def WriteArea.Apart (a b : WriteArea) : Prop :=
  a.mem ≠ b.mem ∨ a.off + a.len ≤ b.off ∨ b.off + b.len ≤ a.off

instance : Std.Symm WriteArea.Apart where
  symm _ _ h := h.imp Ne.symm Or.symm

/-- `rbuf_iovec_t`: an allocation of `ROT_BUFF_ALLOC_SIZE` bytes and how much of it is in use. -/
structure Rvec where
  mem : Nat
  iovLen : Nat
  areas : List WriteArea
deriving DecidableEq

namespace Rvec

/-- `rbuf_reset_rvec` (97). -/
def reset (v : Rvec) : Rvec := { v with iovLen := 0, areas := [] }

/-- The area `rbuf_adjust_write_area` returns. -/
def nextArea (id bytes : Nat) (v : Rvec) : WriteArea := ⟨id, v.mem, v.iovLen, bytes⟩

/-- `rbuf_adjust_write_area` (261). -/
def adjustWriteArea (id bytes : Nat) (v : Rvec) : Rvec :=
  { v with iovLen := v.iovLen + bytes, areas := v.areas ++ [v.nextArea id bytes] }

/-- The areas fill the part in use, and no more than the allocation is in use. -/
structure Tiled (v : Rvec) : Prop where
  tiles : Tiles WriteArea.off WriteArea.len 0 v.areas v.iovLen
  mem_eq : ∀ a ∈ v.areas, a.mem = v.mem
  fits : v.iovLen ≤ rotBuffAllocSize

lemma tiled_nil (mem : Nat) : Tiled ⟨mem, 0, []⟩ := ⟨rfl, by simp, Nat.zero_le _⟩

lemma tiled_reset (v : Rvec) : v.reset.Tiled := tiled_nil v.mem

lemma Tiled.adjust {v : Rvec} (h : v.Tiled) {bytes : Nat}
    (hfits : v.iovLen + bytes ≤ rotBuffAllocSize) (id : Nat) :
    (v.adjustWriteArea id bytes).Tiled where
  tiles := h.tiles.append rfl
  mem_eq a ha := by
    rcases List.mem_append.mp ha with ha | ha
    · exact h.mem_eq a ha
    · rw [List.mem_singleton.mp ha]
      rfl
  fits := hfits

end Rvec

/-- `rbuf_list_t`. The pointer `rvec` cuts the list of vectors into the vectors before it, its own
and those behind it. -/
structure Rlist where
  id : Nat
  awaiting : Bool
  pending : Nat
  completed : Nat
  before : List Rvec
  rvec : Rvec
  after : List Rvec
  used : Nat
  total : Nat
deriving DecidableEq

/-- How many of `n` vectors `n - n * pow (M_E, -0.2)` gives up. The factor is between 0 and 1. -/
structure Decay where
  shrink : Nat → Nat
  shrink_lt : ∀ n, 0 < n → shrink n < n

namespace Rlist

/-- The list `veclist`. -/
def veclist (l : Rlist) : List Rvec := l.before ++ l.rvec :: l.after

/-- The vectors `rvec_for_each_entry` (rot-buffs.h:67) visits. -/
def usedVecs (l : Rlist) : List Rvec := l.veclist.take l.used

/-- The areas reserved since the buffer was put into the rotation. -/
def content (l : Rlist) : List WriteArea := l.usedVecs.flatMap Rvec.areas

/-- The allocations of a buffer. -/
def mems (l : Rlist) : List Nat := l.veclist.map Rvec.mem

/-- A buffer as `rbuf_init` makes it. -/
def init (id mem : Nat) : Rlist where
  id := id
  awaiting := false
  pending := 0
  completed := 0
  before := []
  rvec := ⟨mem, 0, []⟩
  after := []
  used := 1
  total := 1

/-- `rlist_add_new_vec` (105), the allocation being made. -/
def addNewVec (mem : Nat) (l : Rlist) : Rlist :=
  { l with
    before := l.veclist
    rvec := ⟨mem, 0, []⟩
    after := []
    used := l.used + 1
    total := l.total + 1 }

/-- The next vector is taken into use. -/
def advance (v : Rvec) (rest : List Rvec) (l : Rlist) : Rlist :=
  { l with
    before := l.before ++ [l.rvec]
    rvec := v.reset
    after := rest
    used := l.used + 1 }

/-- `rbuf_adjust_write_area` on the vector in use. -/
def adjust (id bytes : Nat) (l : Rlist) : Rlist × WriteArea :=
  ({ l with rvec := l.rvec.adjustWriteArea id bytes }, l.rvec.nextArea id bytes)

/-- `rbuf_alloc_write_area` (271). `mem` is what the allocator answers if it is asked. -/
def allocWriteArea (id bytes : Nat) (mem : Option Nat) (l : Rlist) : Option (Rlist × WriteArea) :=
  if l.rvec.iovLen + bytes ≤ rotBuffAllocSize then some (l.adjust id bytes)
  else
    match l.after with
    | [] => mem.map fun m => (l.addNewVec m).adjust id bytes
    | v :: rest => some ((l.advance v rest).adjust id bytes)

/-- The number of vectors `rlist_shrink_vector` (426) frees. -/
def shrinkCount (decay : Decay) (total : Nat) : Nat :=
  if rvecLowWatermarkCount ≤ total ∧ total ≤ rvecHighWatermarkCount then 0 else decay.shrink total

/-- The counters and the vector in use at the end of `rbuf_wait_for_completion` (451), `v :: rest`
being the vectors that are kept. -/
def restart (v : Rvec) (rest : List Rvec) (total : Nat) (l : Rlist) : Rlist where
  id := l.id
  awaiting := false
  pending := 0
  completed := 0
  before := []
  rvec := v.reset
  after := rest
  used := 1
  total := total

/-- What `rbuf_wait_for_completion` does between the dispatch and the lock. -/
def recycle (decay : Decay) (l : Rlist) : Rlist :=
  match l.veclist.drop (shrinkCount decay l.total) with
  | [] => l
  | v :: rest => l.restart v rest (l.total - shrinkCount decay l.total)

end Rlist

/-- Where the consumer is, and with which buffer. It holds `b_lock` of the buffer while it is
`marked`. -/
inductive RbufConsumer where
  | idle
  | taken (i : Nat)
  | marked (i : Nat)
  | asleep (i : Nat)
  | dispatched (i : Nat)
  | recycled (i : Nat)
deriving DecidableEq

/-- The buffer the consumer has. -/
def RbufConsumer.buffer : RbufConsumer → Option Nat
  | .idle => none
  | .taken i | .marked i | .asleep i | .dispatched i | .recycled i => some i

/-- `rbuf_t` with its buffers, the consumer and the writers. -/
structure Rbuf where
  lists : List Rlist
  freelist : List Nat
  current : Nat
  nextMem : Nat
  consumer : RbufConsumer
  notifying : List Nat
  reserved : List WriteArea
  writing : List (Nat × WriteArea)
  dispatches : List (List Rvec)
deriving DecidableEq

/-- What happens next: a writer reserves an area, completes one or sends a signal it owes; the
consumer takes its next step; or it wakes up without a signal. -/
inductive RbufEvent where
  | reserve (bytes : Nat) (memory : Bool)
  | complete (id : Nat)
  | notify (i : Nat)
  | consumer
  | spurious

namespace Rbuf

/-- The buffer with a number. -/
def list? (i : Nat) (s : Rbuf) : Option Rlist := s.lists.find? (·.id = i)

/-- Change a buffer. -/
def setList (l : Rlist) (s : Rbuf) : Rbuf :=
  { s with lists := updateAt Rlist.id l.id (fun _ => l) s.lists }

/-- The number of buffers `rbuf_init` makes. -/
def bufferCount (bufcount : Int) : Nat :=
  if bufcount ≤ 0 then rotBuffDefaultCount else bufcount.toNat

/-- `rbuf_init` (180), its allocations being made. -/
def init (bufcount : Int) : Rbuf where
  lists := (List.range (bufferCount bufcount)).map fun j => Rlist.init j j
  freelist := List.range (bufferCount bufcount)
  current := 0
  nextMem := bufferCount bufcount
  consumer := .idle
  notifying := []
  reserved := []
  writing := []
  dispatches := []

/-- `rbuf_reserve_write_area` (303). -/
def reserveWriteArea (bytes : Nat) (memory : Bool) (s : Rbuf) : Rbuf :=
  if bytes = 0 ∨ rotBuffAllocSize < bytes then s
  else
    match s.list? s.current with
    | none => s
    | some l =>
      match l.allocWriteArea s.reserved.length bytes (if memory then some s.nextMem else none) with
      | none => s
      | some (l', area) =>
        { s.setList { l' with pending := l'.pending + 1 } with
          nextMem := s.nextMem + 1
          reserved := s.reserved ++ [area]
          writing := (s.current, area) :: s.writing }

/-- `rbuf_write_complete` (338) by the writer of an area. -/
def writeComplete (id : Nat) (s : Rbuf) : Rbuf :=
  match s.writing.find? (·.2.id = id) with
  | none => s
  | some w =>
    match s.list? w.1 with
    | none => s
    | some l =>
      { s.setList { l with completed := l.completed + 1 } with
        notifying :=
          if l.awaiting && l.completed + 1 == l.pending then l.id :: s.notifying else s.notifying
        writing := s.writing.erase w }

/-- `rbuf_notify_waiter` (328), by a writer that owes the signal and gets `b_lock`. -/
def notifyWaiter (i : Nat) (s : Rbuf) : Rbuf :=
  if i ∈ s.notifying ∧ s.consumer ≠ .marked i then
    { s with
      notifying := s.notifying.erase i
      consumer := if s.consumer = .asleep i then .marked i else s.consumer }
  else s

/-- `rbuf_get_buffer` (368). -/
def getBuffer (s : Rbuf) : Rbuf :=
  match s.list? s.current with
  | none => s
  | some l =>
    if l.pending = 0 then s
    else if s.freelist.length = 1 then s
    else
      { s with
        freelist := s.freelist.erase s.current
        current := (s.freelist.erase s.current).headD s.current
        consumer := .taken s.current }

/-- `rlist_mark_waiting` (50), under `b_lock`. -/
def markWaiting (i : Nat) (s : Rbuf) : Rbuf :=
  match s.list? i with
  | none => s
  | some l => { s.setList { l with awaiting := true } with consumer := .marked i }

/-- One round of `__rbuf_wait_for_writers` (415); if the writers are done, the dispatch. -/
def waitForWriters (i : Nat) (s : Rbuf) : Rbuf :=
  match s.list? i with
  | none => s
  | some l =>
    if l.completed ≠ l.pending then { s with consumer := .asleep i }
    else { s with consumer := .dispatched i, dispatches := s.dispatches ++ [l.usedVecs] }

/-- What follows the dispatch, up to the lock. -/
def recycleList (decay : Decay) (i : Nat) (s : Rbuf) : Rbuf :=
  match s.list? i with
  | none => s
  | some l => { s.setList (l.recycle decay) with consumer := .recycled i }

/-- The end of `rbuf_wait_for_completion`. -/
def putBack (i : Nat) (s : Rbuf) : Rbuf :=
  { s with freelist := s.freelist ++ [i], consumer := .idle }

/-- The consumer's next step. -/
def consume (decay : Decay) (s : Rbuf) : Rbuf :=
  match s.consumer with
  | .idle => s.getBuffer
  | .taken i => s.markWaiting i
  | .marked i => s.waitForWriters i
  | .asleep _ => s
  | .dispatched i => s.recycleList decay i
  | .recycled i => s.putBack i

/-- `pthread_cond_wait` may return without a signal. -/
def wakeUp (s : Rbuf) : Rbuf :=
  match s.consumer with
  | .asleep i => { s with consumer := .marked i }
  | _ => s

/-- What an event does. -/
def step (decay : Decay) : RbufEvent → Rbuf → Rbuf
  | .reserve bytes memory, s => s.reserveWriteArea bytes memory
  | .complete id, s => s.writeComplete id
  | .notify i, s => s.notifyWaiter i
  | .consumer, s => s.consume decay
  | .spurious, s => s.wakeUp

/-- The areas that were in a vector the consumer visited. -/
def delivered (s : Rbuf) : List WriteArea := s.dispatches.flatten.flatMap Rvec.areas

end Rbuf

end TagItGluster.Libglusterfs
