import TagItGluster.Base.Machine
import TagItGluster.Server.Query

/-!
# The table of query sessions over whole runs

A session is to be in the table exactly as long as its last reply has told the client to
come back. The table follows as long as no request serves the last row of its session: such
a request removes the key of a row in the place of the session.

A reply takes over the texts of the rows it serves and frees them when it has been sent, while
the registered result keeps pointing at them. Serving such a row again, or removing such a
result, is a use of freed memory.
-/

namespace TagItGluster.Server

open Base Libglusterfs

/-- A query request, with what the brick finds when it serves it. -/
structure QueryRequest where
  env : QueryEnv
  xin : Dict

/-- The session a request names. -/
def QueryRequest.session (req : QueryRequest) : Option Text := req.xin.getStr "session".toList

/-- The table of results, the last `comeback` that each session has been sent, and the rows of
registered results, by session and number, that went with a reply and are freed. `undefined`
says that freed memory has been used or a buffer overrun. -/
structure SessionState where
  qrset : Qrset
  last : Text → Int
  freed : List (Text × Nat)
  undefined : Bool

/-- No session is known. -/
def SessionState.init : SessionState := ⟨∅, fun _ => 0, [], false⟩

/-- The reply dictionary with the identity of the brick. -/
def replyFrom (identity : Text) : Dict := (∅ : Dict).setStr "from".toList identity

/-- The rows that a request has been served, by session and number: as many as the reply
counts. -/
def servedRows (req : QueryRequest) (x : Dict) : List (Text × Nat) :=
  match req.session, req.xin.getUint64 "offset".toList, x.getUint64 "count".toList with
  | some session, some offset, some count =>
    (List.range count).map (fun i => (session, offset + i))
  | _, _, _ => []

/-- One query request. An error reply has no `comeback`. -/
def sessionStep (identity : Text) (req : QueryRequest) (s : SessionState) : SessionState :=
  match imsIpcQuery req.env req.xin (replyFrom identity) s.qrset with
  | none => { s with undefined := true }
  | some (qrset, none) => { s with qrset }
  | some (qrset, some x) =>
    let served := servedRows req x
    { qrset
      last := fun t => if req.session = some t then (x.getInt32 "comeback".toList).getD 0
        else s.last t
      freed := s.freed ++ served
      -- a row is read after it was freed, or goes with a result that `dict_del` destroys
      undefined := s.undefined || served.any (fun row => s.freed.contains row) ||
        (s.freed ++ served).any (fun row => (qrset.lookup row.1).isNone) }

/-- Exactly the sessions that have been told to come back are registered. -/
def RegisteredWhileServed (s : SessionState) : Prop :=
  ∀ t, (s.qrset.lookup t).isSome ↔ 0 < s.last t

/-- The request leaves rows of its session to be served, and asks for none that the session has
been served before. Where it is the first of its session, the rows fit their buffers. -/
def LeavesRows (req : QueryRequest) (s : SessionState) : Prop :=
  ∀ session offset count, Asks req.xin session offset count →
    match sessionResult req.env req.xin session s.qrset with
    | .error => True
    | .overrun => False
    | .found _ r => ¬r.Exhausts offset count ∧
        ∀ i, offset ≤ i → i < offset + count → (session, i) ∉ s.freed

section

variable {identity : Text} {req : QueryRequest} {s : SessionState}

lemma replyFrom_hasRows (identity : Text) : (replyFrom identity).HasRows [] :=
  Dict.hasRows_empty.insert_other _ (dec_ne (by decide))

-- The session is registered before its request is served; nothing else changes.
private lemma lookup_sessionResult {env : QueryEnv} {xin : Dict} {session : Text}
    {qrset qrset' : Qrset} {r : Result}
    (h : sessionResult env xin session qrset = .found qrset' r) :
    qrset'.lookup session = some r ∧ ∀ t, t ≠ session → qrset'.lookup t = qrset.lookup t := by
  unfold sessionResult at h
  split at h
  · next r₀ hr =>
    cases h
    exact ⟨hr, fun _ _ => rfl⟩
  · split at h
    · cases h
    · simp only at h
      split at h
      · cases h
        exact ⟨AList.lookup_insert _, fun t ht => AList.lookup_insert_ne ht⟩
      · cases h

private lemma mem_servedRows {x : Dict} {session : Text} {offset count : Nat} {rows : List Text}
    (h : Asks req.xin session offset count) (hx : x.lookup "count".toList = some (.num rows.length))
    (hle : rows.length ≤ count) {row : Text × Nat} (hrow : row ∈ servedRows req x) :
    row.1 = session ∧ offset ≤ row.2 ∧ row.2 < offset + count := by
  have hsession : req.session = some session := h.session
  simp only [servedRows, hsession, h.offset, Dict.getUint64_of_lookup hx, toUint64] at hrow
  obtain ⟨i, hi, rfl⟩ := List.mem_map.mp hrow
  rw [List.mem_range] at hi
  refine ⟨rfl, Nat.le_add_right _ _, ?_⟩
  simp only
  omega

-- What one request does, where the condition holds: the session is registered and told to come
-- back, and of all others the table and the `comeback` stay as they are.
private lemma sessionStep_cases (identity : Text) (hok : LeavesRows req s) :
    sessionStep identity req s = s ∨ ∃ session qrset served, req.session = some session ∧
      (qrset.lookup session).isSome ∧ (∀ t, t ≠ session → qrset.lookup t = s.qrset.lookup t) ∧
      (∀ row ∈ served, row.1 = session ∧ row ∉ s.freed) ∧
      sessionStep identity req s = ⟨qrset, fun t => if t = session then 1 else s.last t,
        s.freed ++ served, s.undefined || served.any (fun row => s.freed.contains row) ||
          (s.freed ++ served).any (fun row => (qrset.lookup row.1).isNone)⟩ := by
  rcases imsIpcQuery_cases req.env req.xin (replyFrom identity) s.qrset with
    hnone | ⟨session, offset, count, hasks, ⟨-, hover⟩ | ⟨qrset, r, hres, -⟩⟩
  · left
    rw [sessionStep, hnone]
  · have hleaves := hok session offset count hasks
    rw [hover] at hleaves
    exact hleaves.elim
  have hleaves := hok session offset count hasks
  rw [hres] at hleaves
  obtain ⟨hleft, hnew⟩ := hleaves
  have hkey : KeyFits offset count := by
    have hlt := r.rows_lt
    rw [Result.Exhausts] at hleft
    exact .inr (by omega)
  obtain ⟨x, hq, hserves, -⟩ := imsIpcQuery_eq hasks hres hkey (replyFrom_hasRows identity)
  obtain ⟨hreg, hother⟩ := lookup_sessionResult hres
  have hsession : req.session = some session := hasks.session
  have hback : x.getInt32 "comeback".toList = some 1 := by
    have hc := hserves.comeback
    rw [if_neg hleft] at hc
    exact Dict.getInt32_of_lookup hc (by decide) (by decide)
  have hafter : afterServing r offset count qrset = qrset := if_neg hleft
  refine .inr ⟨session, qrset, servedRows req x, hsession, by simp [hreg], hother, ?_, ?_⟩
  · intro row hrow
    obtain ⟨rfl, hlo, hhi⟩ := mem_servedRows hasks hserves.count (List.length_take_le _ _) hrow
    exact ⟨rfl, hnew _ hlo hhi⟩
  · simp only [sessionStep, hq, hafter, hback, hsession, Option.getD_some, Option.some_inj, eq_comm]

/-- The table follows the replies, every freed row belongs to a registered result, and no
freed memory has been used. -/
structure SessionState.Sound (s : SessionState) : Prop where
  registered : RegisteredWhileServed s
  freed : ∀ row ∈ s.freed, (s.qrset.lookup row.1).isSome
  defined : s.undefined = false

private lemma SessionState.Sound.step (h : s.Sound) (hok : LeavesRows req s) :
    (sessionStep identity req s).Sound := by
  rcases sessionStep_cases identity hok with
    hself | ⟨session, qrset, served, -, hown, hothers, hserved, hstep⟩
  · rw [hself]
    exact h
  have hkept : ∀ row ∈ s.freed ++ served, (qrset.lookup row.1).isSome := by
    intro row hrow
    by_cases hs : row.1 = session
    · rw [hs]
      exact hown
    rcases List.mem_append.mp hrow with hold | hnew
    · rw [hothers _ hs]
      exact h.freed row hold
    · exact absurd (hserved row hnew).1 hs
  rw [hstep]
  constructor
  · intro t
    by_cases ht : t = session
    · subst ht
      simpa using hown
    · simp only [hothers t ht, if_neg ht]
      exact h.registered t
  · exact hkept
  · simp only [h.defined, Bool.false_or, Bool.or_eq_false_iff, List.any_eq_false]
    constructor
    · intro row hrow
      simpa using (hserved row hrow).2
    · intro row hrow
      simpa using Option.isSome_iff_ne_none.mp (hkept row hrow)

end

/-- A request of session `h:1:0` for `count` rows from `offset` on, of a query that has the
rows `a` and `b`. -/
def sampleRequest (offset count : Nat) : QueryRequest where
  env := ⟨fun _ => some ⟨[['a'], ['b']], by decide⟩, 3, 4⟩
  xin := ((((∅ : Dict).setStr "session".toList "h:1:0".toList).setStr "sql".toList
    "select path from xfile".toList).setUint64 "offset".toList offset).setUint64
      "count".toList count

-- The second request for a row reads what went with the first reply.
example : (runAll (sessionStep ['b']) [sampleRequest 0 1, sampleRequest 0 1] .init).undefined :=
  by decide

end TagItGluster.Server
