import Mathlib.Algebra.GroupWithZero.Nat
import Mathlib.Data.List.Infix
import TagItGluster.Base.Machine

/-!
# The send queue of a connection

A message is framed and written at once if nothing waits, and otherwise put at the end of the queue.
What the kernel does not take stays with the entry, whose vectors are consumed in place. The
kernel's answers are an input: how many bytes it took, or why it took none.

An entry has room for sixteen vectors, the first of which is the fragment header. The assertion that
a message has at most fifteen only writes a line to the log; more of them run over the entry. Line
numbers: `rpc/rpc-transport/socket/src/socket.c`.
-/

namespace TagItGluster.Rpc

open Base List

/-- The contents of an array of `struct iovec`. -/
abbrev Vectors := List (List UInt8)

/-- `rpc_transport_msg_t`. -/
structure Msg where
  rpchdr : Vectors
  proghdr : Vectors
  progpayload : Vectors
deriving DecidableEq

/-- The vectors of a message, in the order in which they are sent. -/
def Msg.vectors (msg : Msg) : Vectors := msg.rpchdr ++ msg.proghdr ++ msg.progpayload

/-- What `writev` answers. -/
inductive WriteResult where
  | wrote (n : Nat)
  | again
  | intr
  | error
deriving DecidableEq

/-- `struct ioq`: the vectors that are still to be written; after an error `pending_count` is -1. -/
structure Ioq where
  pending : Vectors
  failed : Bool
deriving DecidableEq

/-- The connection; `sent` are the framed messages that have been taken, oldest first, and `wire` is
what the kernel has taken. -/
structure SendState where
  connected : Bool
  ioq : List Ioq
  wire : List UInt8
  sent : List (List UInt8)
  /-- A write failed, or the queue was thrown away. -/
  error : Bool
  /-- The vectors of a message ran over its entry. -/
  overrun : Bool
deriving DecidableEq

/-- `MAX_IOVEC`. -/
def maxIovec : Nat := 16

/-- `RPC_MAX_FRAGMENT_SIZE`. -/
def rpcMaxFragmentSize : Nat := 0x7fffffff

/-- `socket_set_last_frag_header_size` (1009): the size with the bit of a last fragment, in network
order. -/
def lastFragHeader (size : Nat) : List UInt8 :=
  let word := size % 2 ^ 31 + 2 ^ 31
  [UInt8.ofNat (word / 2 ^ 24), UInt8.ofNat (word / 2 ^ 16), UInt8.ofNat (word / 2 ^ 8),
    UInt8.ofNat word]

/-- The size of a message, which is kept in 32 bits. -/
def Msg.size (msg : Msg) : Nat := msg.vectors.flatten.length % 2 ^ 32

/-- The vectors of an entry: the fragment header, then the message. -/
def Msg.framed (msg : Msg) : Vectors := lastFragHeader msg.size :: msg.vectors

/-- The inner loop of `__socket_rwv`: vectors that have been written are passed over. -/
def moveVectors : Nat → Vectors → Vectors
  | _, [] => []
  | n, v :: vs =>
    if n = 0 then v :: vs
    else if v.length ≤ n then moveVectors (n - v.length) vs
    else v.drop n :: vs

/-- What one write offers the kernel: all vectors, or the first one over SSL. -/
def offered (ssl : Bool) (vs : Vectors) : List UInt8 :=
  if ssl then vs.headD [] else vs.flatten

/-- What a call of `__socket_rwv` leaves. -/
structure WriteOut where
  written : List UInt8
  pending : Vectors
  failed : Bool
deriving DecidableEq

/-- Vectors of no length in front are passed over. -/
def skipEmpty : Vectors → Vectors
  | [] :: vs => skipEmpty vs
  | vs => vs

/-- `__socket_rwv` (555) for writing. When the list of answers is at its end, the kernel takes no
more. -/
def socketRwv (ssl : Bool) : List WriteResult → Vectors → WriteOut
  | [], vs => ⟨[], skipEmpty vs, false⟩
  | answer :: answers, vs =>
    let vs := skipEmpty vs
    if vs.isEmpty then ⟨[], [], false⟩
    else
      match answer with
      | .again => ⟨[], vs, false⟩
      | .intr => socketRwv ssl answers vs
      | .error => ⟨[], vs, true⟩
      | .wrote n =>
        let bytes := (offered ssl vs).take n
        if bytes.isEmpty then ⟨[], vs, false⟩
        else
          let out := socketRwv ssl answers (moveVectors bytes.length vs)
          { out with written := bytes ++ out.written }

/-- `__socket_ioq_churn_entry` (1121): the entry that is left, if it has not been written to its
end. -/
def churnEntry (ssl : Bool) (answers : List WriteResult) (entry : Ioq) : List UInt8 × Option Ioq :=
  if entry.failed then ([], some entry)
  else
    let out := socketRwv ssl answers entry.pending
    if out.failed then (out.written, some ⟨out.pending, true⟩)
    else if out.pending.isEmpty then (out.written, none)
    else (out.written, some ⟨out.pending, false⟩)

/-- The loop of `__socket_ioq_churn` (1155), with the kernel's answers for each entry. -/
def churn (ssl : Bool) : List (List WriteResult) → List Ioq → List UInt8 × List Ioq
  | _, [] => ([], [])
  | answers, entry :: rest =>
    match churnEntry ssl (answers.headD []) entry with
    | (written, some entry) => (written, entry :: rest)
    | (written, none) =>
      let out := churn ssl answers.tail rest
      (written ++ out.1, out.2)

/-- `__socket_ioq_new` (1016); `none` if there is no memory or the message is too large. -/
def ioqNew (msg : Msg) (alloc : Bool) : Option Ioq :=
  if alloc ∧ msg.size ≤ rpcMaxFragmentSize then some ⟨msg.framed, false⟩ else none

namespace SendState

/-- A write of the head of the queue failed. -/
def headFailed (ioq : List Ioq) : Bool := (ioq.head?.map Ioq.failed).getD false

/-- `socket_submit_request` (3339) and `socket_submit_reply` (3413). -/
def submit (ssl : Bool) (msg : Msg) (alloc : Bool) (answers : List WriteResult) (s : SendState) :
    SendState :=
  if s.connected then
    match ioqNew msg alloc with
    | none => s
    | some entry =>
      if maxIovec < msg.framed.length then { s with overrun := true }
      else
        let s := { s with sent := s.sent ++ [msg.framed.flatten] }
        if s.ioq.isEmpty then
          let out := churnEntry ssl answers entry
          { s with
            wire := s.wire ++ out.1
            ioq := out.2.toList
            error := s.error || headFailed out.2.toList }
        else { s with ioq := s.ioq ++ [entry] }
  else s

/-- `socket_event_poll_out` (1213); an error shuts the connection down. -/
def pollOut (ssl : Bool) (answers : List (List WriteResult)) (s : SendState) : SendState :=
  if s.connected then
    let out := churn ssl answers s.ioq
    { s with
      wire := s.wire ++ out.1
      ioq := out.2
      error := s.error || headFailed out.2
      connected := !headFailed out.2 }
  else s

/-- `socket_event_poll_err` (1188): the queue is thrown away and the connection is reset. -/
def pollErr (s : SendState) : SendState :=
  { s with ioq := [], connected := false, error := true }

/-- A connection on which nothing has been sent. -/
def init : SendState := ⟨true, [], [], [], false, false⟩

end SendState

/-- What happens on a connection. -/
inductive SendEvent where
  | submit (msg : Msg) (alloc : Bool) (answers : List WriteResult)
  | pollOut (answers : List (List WriteResult))
  | pollErr
deriving DecidableEq

/-- One event on a connection. -/
def SendState.step (ssl : Bool) : SendEvent → SendState → SendState
  | .submit msg alloc answers, s => s.submit ssl msg alloc answers
  | .pollOut answers, s => s.pollOut ssl answers
  | .pollErr, s => s.pollErr

/-! ### Bytes -/

private lemma flatten_skipEmpty (vs : Vectors) : (skipEmpty vs).flatten = vs.flatten := by
  induction vs with
  | nil => rfl
  | cons v vs ih =>
    cases v with
    | nil => simpa [skipEmpty] using ih
    | cons b v => rfl

private lemma flatten_moveVectors (n : Nat) (vs : Vectors) :
    (moveVectors n vs).flatten = vs.flatten.drop n := by
  induction vs generalizing n with
  | nil => simp [moveVectors]
  | cons v vs ih =>
    simp only [moveVectors, flatten_cons]
    split
    · next hzero => simp [hzero]
    · split
      · next hle => rw [ih, drop_append, drop_eq_nil_of_le hle, nil_append]
      · next hlt =>
        have hzero : n - v.length = 0 := by omega
        simp [drop_append, hzero]

private lemma offered_front (ssl : Bool) (vs : Vectors) : offered ssl vs <+: vs.flatten := by
  cases ssl with
  | false => simp [offered]
  | true =>
    cases vs with
    | nil => simp [offered]
    | cons v vs => simp [offered]

/-- A write and what it leaves are what was there. -/
lemma take_offered_append (ssl : Bool) (n : Nat) (vs : Vectors) : (offered ssl vs).take n ++
      (moveVectors ((offered ssl vs).take n).length vs).flatten = vs.flatten := by
  have hpre : (offered ssl vs).take n <+: vs.flatten :=
    (List.take_prefix n _).trans (offered_front ssl vs)
  rw [flatten_moveVectors]
  obtain ⟨rest, hrest⟩ := hpre
  rw [← hrest, drop_left]

private lemma socketRwv_bytes (ssl : Bool) (answers : List WriteResult) (vs : Vectors) :
    (socketRwv ssl answers vs).written ++ (socketRwv ssl answers vs).pending.flatten =
      vs.flatten := by
  induction answers generalizing vs with
  | nil => simp [socketRwv, flatten_skipEmpty]
  | cons answer answers ih =>
    rw [← flatten_skipEmpty vs]
    simp only [socketRwv]
    generalize skipEmpty vs = ws
    split
    · next hempty =>
      have hnil : ws = [] := by simpa using hempty
      simp [hnil]
    cases answer with
    | again | error => rfl
    | intr =>
      -- The loop starts again with the same vectors.
      exact ih ws
    | wrote n =>
      dsimp only
      split
      · rfl
      · rw [append_assoc, ih, take_offered_append]

/-- The bytes that wait in a queue. -/
def waiting (ioq : List Ioq) : List UInt8 := (ioq.map fun entry => entry.pending.flatten).flatten

private lemma churnEntry_bytes (ssl : Bool) (answers : List WriteResult) (entry : Ioq) :
    (churnEntry ssl answers entry).1 ++ waiting (churnEntry ssl answers entry).2.toList =
      entry.pending.flatten := by
  have hbytes := socketRwv_bytes ssl answers entry.pending
  unfold churnEntry
  split
  · simp [waiting]
  dsimp only
  split
  · simpa [waiting] using hbytes
  · split
    · next hempty =>
      have hnil : (socketRwv ssl answers entry.pending).pending = [] := by simpa using hempty
      simpa [waiting, hnil] using hbytes
    · simpa [waiting] using hbytes

private lemma churn_bytes (ssl : Bool) (answers : List (List WriteResult)) (ioq : List Ioq) :
    (churn ssl answers ioq).1 ++ waiting (churn ssl answers ioq).2 = waiting ioq := by
  induction ioq generalizing answers with
  | nil => simp [churn]
  | cons entry rest ih =>
    have hentry := churnEntry_bytes ssl (answers.headD []) entry
    have hcons : waiting (entry :: rest) = entry.pending.flatten ++ waiting rest := by
      simp [waiting]
    rw [hcons, ← hentry, churn]
    generalize churnEntry ssl (answers.headD []) entry = r
    obtain ⟨written, left⟩ := r
    cases left with
    | some entry => simp [waiting]
    | none =>
      rw [append_assoc, ih]
      simp [waiting]

/-! ### Runs -/

namespace SendState

/-- What has been taken by the kernel and what waits are what was sent; once the queue has been
thrown away the connection is over. -/
def Inv (s : SendState) : Prop :=
  s.overrun = false ∧ (s.wire ++ waiting s.ioq = s.sent.flatten ∨
    s.connected = false ∧ s.error = true ∧ s.wire <+: s.sent.flatten)

private lemma Inv.submit {s : SendState} (h : s.Inv) (ssl : Bool) {msg : Msg}
    (hroom : msg.vectors.length ≤ 15) (alloc : Bool) (answers : List WriteResult) :
    (s.submit ssl msg alloc answers).Inv := by
  unfold SendState.submit
  split
  · next hconn =>
    have hbytes : s.wire ++ waiting s.ioq = s.sent.flatten := by
      rcases h.2 with hbytes | hover
      · exact hbytes
      · rw [hover.1] at hconn
        exact absurd hconn Bool.false_ne_true
    cases hnew : ioqNew msg alloc with
    | none => exact h
    | some entry =>
      have hentry : entry.pending = msg.framed := by
        unfold ioqNew at hnew
        split at hnew
        · rw [← Option.some.inj hnew]
        · cases hnew
      have hfits : ¬ maxIovec < msg.framed.length := by
        simp only [maxIovec, Msg.framed, length_cons]
        omega
      dsimp only
      rw [if_neg hfits]
      split
      · next hempty =>
        -- Nothing waits, so that the message follows what has been written.
        have hnil : s.ioq = [] := by simpa using hempty
        refine ⟨h.1, .inl ?_⟩
        have hout := churnEntry_bytes ssl answers entry
        rw [hnil] at hbytes
        rw [append_assoc, hout, hentry, flatten_append, ← hbytes]
        simp [waiting]
      · refine ⟨h.1, .inl ?_⟩
        rw [flatten_append, ← hbytes]
        simp [waiting, hentry]
  · exact h

private lemma Inv.pollOut {s : SendState} (h : s.Inv) (ssl : Bool)
    (answers : List (List WriteResult)) : (s.pollOut ssl answers).Inv := by
  unfold SendState.pollOut
  split
  · next hconn =>
    rcases h.2 with hbytes | hover
    · refine ⟨h.1, .inl ?_⟩
      rw [append_assoc, churn_bytes]
      exact hbytes
    · rw [hover.1] at hconn
      exact absurd hconn Bool.false_ne_true
  · exact h

private lemma Inv.pollErr {s : SendState} (h : s.Inv) : s.pollErr.Inv := by
  refine ⟨h.1, .inr ⟨rfl, rfl, ?_⟩⟩
  rcases h.2 with hbytes | hover
  · exact ⟨waiting s.ioq, hbytes⟩
  · exact hover.2.2

/-- Every message has room in its entry. -/
def Roomy : SendEvent → SendState → Prop
  | .submit msg _ _, _ => msg.vectors.length ≤ 15
  | _, _ => True

instance decidableRoomy : ∀ (e : SendEvent) (s : SendState), Decidable (Roomy e s)
  | .submit msg _ _, _ => inferInstanceAs (Decidable (msg.vectors.length ≤ 15))
  | .pollOut _, _ => inferInstanceAs (Decidable True)
  | .pollErr, _ => inferInstanceAs (Decidable True)

private lemma Inv.step (ssl : Bool) (e : SendEvent) (s : SendState) (h : s.Inv) (hroom : Roomy e s)
    : (SendState.step ssl e s).Inv := by
  cases e with
  | submit msg alloc answers => exact h.submit ssl hroom alloc answers
  | pollOut answers => exact h.pollOut ssl answers
  | pollErr => exact h.pollErr

end SendState

open SendState

/-- If every message has at most fifteen vectors, what is on the wire is at any moment a front of
the framed messages in the order in which they were submitted, and all of them once the queue is
empty without an error. -/
theorem send_queue_in_order (ssl : Bool) (es : List SendEvent)
    (hroom : Throughout (SendState.step ssl) Roomy es SendState.init) :
    let s := runAll (SendState.step ssl) es SendState.init
    s.overrun = false ∧ s.wire <+: s.sent.flatten ∧
      (s.ioq = [] → s.error = false → s.wire = s.sent.flatten) := by
  intro s
  have hinit : SendState.init.Inv := ⟨rfl, .inl rfl⟩
  have h : s.Inv := runAll_inv (SendState.step ssl) SendState.Inv (Inv.step ssl) hinit hroom
  refine ⟨h.1, ?_, ?_⟩
  · rcases h.2 with hbytes | hover
    · exact ⟨waiting s.ioq, hbytes⟩
    · exact hover.2.2
  · intro hempty hok
    rcases h.2 with hbytes | hover
    · simpa [hempty, waiting] using hbytes
    · rw [hover.2.1] at hok
      exact absurd hok.symm Bool.false_ne_true

/-- A call with a header, a program header and a payload. -/
def shortMsg : Msg := ⟨[[1, 2]], [[3]], [[], [4, 5]]⟩

/-- The call is written in three parts, with an interruption; another waits behind it. -/
def shortRun : List SendEvent :=
  [.submit shortMsg true [.wrote 3, .intr, .wrote 2, .again],
    .submit shortMsg true [], .pollOut [[.wrote 9], [.wrote 0]], .pollOut [[.wrote 20]]]

theorem send_queue_in_order_short : (runAll (SendState.step false) shortRun SendState.init).wire =
      shortMsg.framed.flatten ++ shortMsg.framed.flatten := by
  have hroom : Throughout (SendState.step false) Roomy shortRun SendState.init := by
    decide +kernel
  refine ((send_queue_in_order false shortRun hroom).2.2 ?_ ?_).trans ?_ <;> decide +kernel

/-- A reply with one header, one program header and fourteen vectors of payload. -/
def longMsg : Msg := ⟨[[1]], [[2]], List.replicate 14 [3]⟩

/-- The vectors of a message with more than fifteen of them run over its entry. -/
theorem send_queue_overrun : (runAll (SendState.step false) [.submit longMsg true [.wrote 100]]
      SendState.init).overrun = true := by
  decide +kernel

end TagItGluster.Rpc
