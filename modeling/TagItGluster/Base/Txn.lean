import TagItGluster.Base.Prog

/-!
# One connection with flat transactions

A connection shows one database content and remembers, while a transaction is open, the
content to return to. A nested `begin` is refused, `commit` and `rollback` need an open
transaction, and a statement that fails has no effect. Programs that bracket their
statements between `begin` and `commit`/`rollback` are singled out by `Bracketed`; the
isolation rule at the end is about any number of them on one connection.
-/

namespace TagItGluster.Base

open List Option

/-- Statements over a connection; `data q` is a query or an update of the content. -/
inductive Stmt (Q : Type) where
  | begin
  | commit
  | rollback
  | prepare
  | data (q : Q)
  deriving DecidableEq, Repr

/-- Outcome of a statement: finished, one result row, or an error. -/
inductive Res (V : Type) where
  | done
  | row (v : V)
  | err
  deriving DecidableEq, Repr

/-- The content a connection shows, and the content it returns to on `rollback`. -/
structure Conn (D : Type) where
  db : D
  saved : Option D
  deriving DecidableEq, Repr

namespace Conn

variable {D : Type}

/-- A connection without an open transaction. -/
def idle (d : D) : Conn D := ⟨d, none⟩

/-- The content that survives when the open transaction, if any, is abandoned. -/
def committed (c : Conn D) : D := c.saved.getD c.db

@[simp] lemma committed_idle (d : D) : (idle d).committed = d := rfl

@[simp] lemma committed_none (d : D) : (⟨d, none⟩ : Conn D).committed = d := rfl

@[simp] lemma committed_some (d b : D) : (⟨d, some b⟩ : Conn D).committed = b := rfl

end Conn

section

variable {Q V D A : Type} (apply : Q → D → Option (Option V × D))

/-- Execute one statement without interference. -/
def execOk : Stmt Q → Conn D → Res V × Conn D
  | .begin, ⟨d, none⟩ => (.done, ⟨d, some d⟩)
  | .begin, ⟨d, some b⟩ => (.err, ⟨d, some b⟩)
  | .commit, ⟨d, some _⟩ => (.done, ⟨d, none⟩)
  | .commit, ⟨d, none⟩ => (.err, ⟨d, none⟩)
  | .rollback, ⟨_, some b⟩ => (.done, ⟨b, none⟩)
  | .rollback, ⟨d, none⟩ => (.err, ⟨d, none⟩)
  | .prepare, c => (.done, c)
  | .data q, ⟨d, s⟩ =>
    match apply q d with
    | some (some v, d') => (.row v, ⟨d', s⟩)
    | some (none, d') => (.done, ⟨d', s⟩)
    | none => (.err, ⟨d, s⟩)

/-- Execute one statement; with `fails` set it reports an error and has no effect. -/
def exec (fails : Bool) (s : Stmt Q) (c : Conn D) : Res V × Conn D :=
  if fails then (.err, c) else execOk apply s c

/-- The `n`-th statement of a run fails; beyond the end of the list none does. -/
def faultAt : List Bool → Nat → Bool
  | fs, 0 => fs.headD false
  | fs, n + 1 => faultAt fs.tail n

/-- Execute the next statement of a run; the list tells, statement by statement, which
of the coming ones fail. -/
def execNext (s : Stmt Q) (c : Conn D × List Bool) : Res V × (Conn D × List Bool) :=
  ((exec apply (c.2.headD false) s c.1).1, (exec apply (c.2.headD false) s c.1).2, c.2.tail)

/-- Run a program alone on a connection, with the listed faults. -/
def runAlone (p : Prog (Stmt Q) (Res V) A) (c : Conn D) (faults : List Bool) : A × Conn D :=
  ((p.run (execNext apply) (c, faults)).1, (p.run (execNext apply) (c, faults)).2.1)

/-- The content after a list of statements that all succeed. -/
def applyAll : List Q → D → Option D
  | [], d => some d
  | q :: qs, d => (apply q d).bind (fun r => applyAll qs r.2)

@[simp] lemma exec_true (s : Stmt Q) (c : Conn D) :
    exec apply true s c = (.err, c) := rfl

@[simp] lemma exec_false (s : Stmt Q) (c : Conn D) :
    exec apply false s c = execOk apply s c := rfl

private lemma applyAll_append (ps qs : List Q) (d : D) :
    applyAll apply (ps ++ qs) d = (applyAll apply ps d).bind (applyAll apply qs) := by
  induction ps generalizing d with
  | nil => rfl
  | cons p ps ih =>
    simp only [cons_append, applyAll]
    cases apply p d with
    | none => rfl
    | some r => exact ih r.2

/-- A data statement either fails without effect or moves the shown content only. -/
lemma exec_data_cases (fails : Bool) (q : Q) (c : Conn D) :
    exec apply fails (.data q) c = (.err, c) ∨
      ∃ v d', apply q c.db = some (v, d') ∧ (exec apply fails (.data q) c).1 ≠ .err ∧
        (exec apply fails (.data q) c).2 = ⟨d', c.saved⟩ := by
  cases fails with
  | true => exact .inl rfl
  | false =>
    rcases c with ⟨d, s⟩
    simp only [exec_false, execOk]
    cases ha : apply q d with
    | none => exact .inl rfl
    | some r =>
      rcases r with ⟨v, d'⟩
      right
      refine ⟨v, d', rfl, ?_⟩
      cases v <;> simp

/-- A program that only queries and updates the content. -/
inductive DataOnly : Prog (Stmt Q) (Res V) A → Prop where
  | done (a : A) : DataOnly (.done a)
  | data (q : Q) (k : Res V → Prog (Stmt Q) (Res V) A) (hk : ∀ r, DataOnly (k r)) :
      DataOnly (.ask (.data q) k)

variable {p : Prog (Stmt Q) (Res V) A}

lemma DataOnly.bind {B : Type} {f : A → Prog (Stmt Q) (Res V) B} (hp : DataOnly p)
    (hf : ∀ a, DataOnly (f a)) : DataOnly (p >>= f) := by
  induction hp with
  | done a => exact hf a
  | data q k _ ih => exact .data q _ ih

/-- An open transaction is not visible to data statements: they run as they would without
one, and leave its saved content alone. -/
lemma run_dataOnly (hp : DataOnly p) (d : D) (s : Option D) (fs : List Bool) :
    p.run (execNext apply) (⟨d, s⟩, fs) = ((p.run (execNext apply) (.idle d, fs)).1,
        ⟨(p.run (execNext apply) (.idle d, fs)).2.1.db, s⟩,
        (p.run (execNext apply) (.idle d, fs)).2.2) := by
  induction hp generalizing d fs with
  | done a => rfl
  | data q k _ ih =>
    simp only [Prog.run_ask, execNext, Conn.idle]
    cases fs.headD false with
    | true => exact ih _ d fs.tail
    | false =>
      simp only [exec_false, execOk]
      cases apply q d with
      | none => exact ih _ d fs.tail
      | some r =>
        rcases r with ⟨_ | v, d'⟩
        · exact ih _ d' fs.tail
        · exact ih _ d' fs.tail

end

section

variable {Q V A : Type} (ok : A → Prop) (isRead : Q → Bool)

/-- What may follow `begin`: data statements, an error answered at once by `rollback` and
a failure, and at the end `commit` with success or `rollback` with failure. -/
inductive Body : Prog (Stmt Q) (Res V) A → Prop where
  | commit (a : A) (ha : ok a) : Body (.ask .commit fun _ => .done a)
  | rollback (a : A) (ha : ¬ok a) : Body (.ask .rollback fun _ => .done a)
  | data (q : Q) (k : Res V → Prog (Stmt Q) (Res V) A)
      (hk : ∀ r, r ≠ .err → Body (k r))
      (he : ∃ a, ¬ok a ∧ k .err = .ask .rollback fun _ => .done a) : Body (.ask (.data q) k)

/-- A program that reads, then opens a transaction without looking at the outcome, then
runs a `Body`; it may also give up before opening the transaction. -/
inductive Bracketed : Prog (Stmt Q) (Res V) A → Prop where
  | fail (a : A) (ha : ¬ok a) : Bracketed (.done a)
  | prepare (k : Res V → Prog (Stmt Q) (Res V) A) (hk : ∀ r, Bracketed (k r)) :
      Bracketed (.ask .prepare k)
  | read (q : Q) (hq : isRead q = true) (k : Res V → Prog (Stmt Q) (Res V) A)
      (hk : ∀ r, Bracketed (k r)) : Bracketed (.ask (.data q) k)
  | begin (p : Prog (Stmt Q) (Res V) A) (hp : Body ok p) : Bracketed (.ask .begin fun _ => p)

variable {D : Type} {ok isRead} (apply : Q → D → Option (Option V × D))

-- Without faults, a data statement keeps the transaction open or closed.
private lemma exec_data_saved (q : Q) (c : Conn D) :
    (exec apply false (.data q) c).2.saved = c.saved := by
  rcases exec_data_cases apply false q c with h | ⟨_, _, _, _, h⟩
  · rw [h]
  · rw [h]

variable {p : Prog (Stmt Q) (Res V) A}

private lemma run_body_idle (hp : Body ok p) (c : Conn D) (hc : c.saved ≠ none) :
    (p.run (execNext apply) (c, [])).2.1.saved = none := by
  induction hp generalizing c with
  | commit | rollback =>
    rcases c with ⟨d, _ | b⟩
    · exact absurd rfl hc
    · rfl
  | data q k _ he ih =>
    have hs : (exec apply false (.data q) c).2.saved ≠ none := by rwa [exec_data_saved]
    by_cases hr : (exec apply false (.data q) c).1 = .err
    · obtain ⟨a, _, hk⟩ := he
      change ((k (exec apply false (.data q) c).1).run (execNext apply)
        ((exec apply false (.data q) c).2, [])).2.1.saved = none
      rw [hr, hk]
      generalize (exec apply false (.data q) c).2 = c' at hs
      rcases c' with ⟨d, _ | b⟩
      · exact absurd rfl hs
      · rfl
    · exact ih _ hr _ hs

/-- Without faults, a bracketed program leaves an idle connection idle. -/
lemma run_bracketed_idle (hp : Bracketed ok isRead p) (c : Conn D) (hc : c.saved = none) :
    (p.run (execNext apply) (c, [])).2.1.saved = none := by
  induction hp generalizing c with
  | fail a ha => exact hc
  | prepare k _ ih => exact ih _ c hc
  | read q _ k _ ih =>
    refine ih _ _ ?_
    change (exec apply false (.data q) c).2.saved = none
    rw [exec_data_saved, hc]
  | begin p hb =>
    rcases c with ⟨d, _ | b⟩
    · exact run_body_idle apply hb _ (by simp [execOk])
    · cases hc

end

variable {Q V D A : Type} (apply : Q → D → Option (Option V × D))
  (ok : A → Prop) (isRead : Q → Bool)

/-- The update a log entry stands for: a data statement of program `i` that did not fail
and is not a query. -/
def writeOf (i : Nat) (e : Event (Stmt Q) (Res V)) : Option Q :=
  match e.asked, e.told with
  | .data _, .err => none
  | .data q, _ => if e.who = i ∧ isRead q = false then some q else none
  | _, _ => none

/-- The updates that program `i` has made, in order. -/
def writesOf (log : List (Event (Stmt Q) (Res V))) (i : Nat) : List Q :=
  log.filterMap (writeOf isRead i)

/-- Transactions do not overlap and are closed as asked: `begin` is issued while no
transaction is open and takes effect, and `commit` takes effect. -/
def Serialized (c : Pool (Stmt Q) (Res V) A (Conn D)) (m : Nat × Bool) : Prop :=
  match c.progs[m.1]? with
  | some (.ask .begin _) => m.2 = false ∧ c.state.saved = none
  | some (.ask .commit _) => m.2 = false
  | _ => True

instance (c : Pool (Stmt Q) (Res V) A (Conn D)) (m : Nat × Bool) : Decidable (Serialized c m) :=
  match h : c.progs[m.1]? with
  | some (.ask .begin _) =>
    decidable_of_iff (m.2 = false ∧ c.state.saved = none) (by simp only [Serialized, h])
  | some (.ask .commit _) => decidable_of_iff (m.2 = false) (by simp only [Serialized, h])
  | some (.ask .rollback _) => .isTrue (by simp only [Serialized, h])
  | some (.ask .prepare _) => .isTrue (by simp only [Serialized, h])
  | some (.ask (.data _) _) => .isTrue (by simp only [Serialized, h])
  | some (.done _) => .isTrue (by simp only [Serialized, h])
  | none => .isTrue (by simp only [Serialized, h])

/-- The update in one request and its answer. -/
def writeIn : Stmt Q × Res V → Option Q
  | (.data _, .err) => none
  | (.data q, _) => if isRead q = false then some q else none
  | _ => none

/-- The committed content is the complete work of the programs that reported success, one
after the other, and contains nothing of the others. -/
def Isolated (d₀ : D) (c : Pool (Stmt Q) (Res V) A (Conn D)) : Prop :=
  ∃ order : List Nat, order.Nodup ∧ (∀ i, i ∈ order ↔ ∃ a, c.progs[i]? = some (.done a) ∧ ok a) ∧
    applyAll apply (order.flatMap (writesOf isRead c.log)) d₀ = some c.state.committed

/-- The updates of a program are those in its own part of the log. -/
lemma writesOf_eq (log : List (Event (Stmt Q) (Res V))) (i : Nat) :
    writesOf isRead log i = (Pool.eventsOf log i).filterMap (writeIn isRead) := by
  induction log with
  | nil => rfl
  | cons e log ih =>
    rcases e with ⟨who, asked, told⟩
    simp only [writesOf, Pool.eventsOf, filterMap_cons, filter_cons] at ih ⊢
    by_cases hw : who = i
    · simp only [hw, beq_self_eq_true, if_true, map_cons, filterMap_cons, ← ih]
      cases asked <;> cases told <;> simp [writeOf, writeIn]
    · have hn : writeOf isRead i ⟨who, asked, told⟩ = none := by
        unfold writeOf
        split <;> simp [hw]
      simp only [hn, beq_eq_false_iff_ne.mpr hw, ih]
      rfl

/-- The invariant behind `Isolated`: at most one program (`active`) is between its `begin`
and its last statement, and only that program has updates that are not committed. -/
private structure IsolInv (d₀ : D) (c : Pool (Stmt Q) (Res V) A (Conn D))
    (order : List Nat) (active : Option Nat) : Prop where
  nodup : order.Nodup
  mem : ∀ i, i ∈ order ↔ ∃ a, c.progs[i]? = some (.done a) ∧ ok a
  base : applyAll apply (order.flatMap (writesOf isRead c.log)) d₀ = some c.state.committed
  rest : ∀ i p, active ≠ some i → c.progs[i]? = some p →
    (∃ a, p = .done a) ∨ (Bracketed ok isRead p ∧ writesOf isRead c.log i = [])
  body : ∀ i, active = some i → ∃ p b, c.progs[i]? = some p ∧ Body ok p ∧
    c.state.saved = some b ∧ applyAll apply (writesOf isRead c.log i) b = some c.state.db

section

variable (log : List (Event (Stmt Q) (Res V)))
include log

variable (e : Event (Stmt Q) (Res V))
include e

private lemma writesOf_snoc_other (i : Nat) (h : e.who ≠ i) :
    writesOf isRead (log ++ [e]) i = writesOf isRead log i := by
  have hn : writeOf isRead i e = none := by
    unfold writeOf
    split <;> simp [h]
  simp [writesOf, hn]

private lemma writesOf_snoc_none (i : Nat) (h : ∀ j, writeOf isRead j e = none) :
    writesOf isRead (log ++ [e]) i = writesOf isRead log i := by
  simp [writesOf, h i]

private lemma writesOf_order (order : List Nat) (h : e.who ∉ order) :
    order.flatMap (writesOf isRead (log ++ [e])) = order.flatMap (writesOf isRead log) := by
  induction order with
  | nil => rfl
  | cons i rest ih =>
    have hi : e.who ≠ i := fun he => h (by simp [he])
    have hr : e.who ∉ rest := fun hm => h (by simp [hm])
    simp [writesOf_snoc_other isRead log e i hi, ih hr]

end

variable {apply ok isRead} {d₀ b d : D} {c : Pool (Stmt Q) (Res V) A (Conn D)} {st : Conn D}
  {order order' : List Nat} {active active' : Option Nat} {i j : Nat} {a : A} {q : Q} {r : Res V}
  {p p' : Prog (Stmt Q) (Res V) A} {k : Res V → Prog (Stmt Q) (Res V) A}

private lemma get_set_self (h : c.progs[i]? = some p) : (c.progs.set i p')[i]? = some p' := by
  obtain ⟨hi, _⟩ := List.getElem?_eq_some_iff.mp h
  simp [hi]

section

variable (hi : IsolInv apply ok isRead d₀ c order active)

include hi

variable {s : Stmt Q}

private lemma IsolInv.not_mem (hp : c.progs[i]? = some (.ask s k)) : i ∉ order := by
  intro hmem
  obtain ⟨a, ha, _⟩ := (hi.mem i).mp hmem
  rw [hp] at ha
  cases ha

-- The programs that succeeded are those of before but for the one that moved.
private lemma IsolInv.mem_set (hp : c.progs[i]? = some p)
    (hothers : ∀ j, j ≠ i → (j ∈ order' ↔ j ∈ order))
    (hown : i ∈ order' ↔ ∃ a, p' = .done a ∧ ok a) (j : Nat) :
    j ∈ order' ↔ ∃ a, (c.progs.set i p')[j]? = some (.done a) ∧ ok a := by
  by_cases hj : j = i
  · rw [hj, get_set_self hp, hown]
    simp [Option.some.injEq]
  · rw [getElem?_set_ne (Ne.symm hj), hothers j hj, hi.mem j]

-- Programs other than the one that moved keep their status.
private lemma IsolInv.rest_set {e : Event (Stmt Q) (Res V)} (hj : e.who ≠ j)
    (hactive : active ≠ some j) (hp : (c.progs.set e.who p')[j]? = some p) :
    (∃ a, p = .done a) ∨ (Bracketed ok isRead p ∧ writesOf isRead (c.log ++ [e]) j = []) := by
  rw [getElem?_set_ne hj] at hp
  rw [writesOf_snoc_other isRead c.log e j hj]
  exact hi.rest j p hactive hp

-- No program but `i` is inside a transaction before or after its move.
private lemma IsolInv.move (hp : c.progs[i]? = some (.ask s k))
    (hactive : ∀ j, j ≠ i → active ≠ some j ∧ active' ≠ some j) (hnodup : order'.Nodup)
    (hothers : ∀ j, j ≠ i → (j ∈ order' ↔ j ∈ order)) (hown : i ∈ order' ↔ ∃ a, p' = .done a ∧ ok a)
    (hbase : applyAll apply (order'.flatMap (writesOf isRead (c.log ++ [⟨i, s, r⟩]))) d₀ =
      some st.committed) (hdone : active' ≠ some i → ∃ a, p' = .done a)
    (hbody : active' = some i → ∃ b, Body ok p' ∧ st.saved = some b ∧
      applyAll apply (writesOf isRead (c.log ++ [⟨i, s, r⟩]) i) b = some st.db) :
    IsolInv apply ok isRead d₀ ⟨c.progs.set i p', st, c.log ++ [⟨i, s, r⟩]⟩ order' active' := by
  refine ⟨hnodup, hi.mem_set hp hothers hown, hbase, ?_, ?_⟩
  · intro j p hne hj
    by_cases he : j = i
    · rw [he, get_set_self hp] at hj
      exact .inl (Option.some.inj hj ▸ hdone (he ▸ hne))
    · exact hi.rest_set (Ne.symm he) (hactive j he).1 hj
  · intro j hj
    by_cases he : j = i
    · obtain ⟨b, hp', hs, hw⟩ := hbody (he ▸ hj)
      rw [he]
      exact ⟨p', b, get_set_self hp, hp', hs, hw⟩
    · exact absurd hj (hactive j he).2

-- A step that leaves the connection alone and keeps its program before `begin`.
private lemma IsolInv.quiet (hne : active ≠ some i) (hp : c.progs[i]? = some (.ask s k))
    (hk : Bracketed ok isRead (k r)) (hq : ∀ j, writeOf isRead j ⟨i, s, r⟩ = none) :
    IsolInv apply ok isRead d₀
      ⟨c.progs.set i (k r), c.state, c.log ++ [⟨i, s, r⟩]⟩ order active := by
  have hlog : writesOf isRead (c.log ++ [⟨i, s, r⟩]) = writesOf isRead c.log :=
    funext fun _ => writesOf_snoc_none isRead _ _ _ hq
  refine ⟨hi.nodup, hi.mem_set hp (fun _ _ => .rfl) ?_, ?_, ?_, ?_⟩
  · refine iff_of_false (hi.not_mem hp) ?_
    rintro ⟨a, ha, hok⟩
    rw [ha] at hk
    cases hk with
    | fail _ hn => exact hn hok
  · rw [hlog]
    exact hi.base
  · intro j p hn hj
    by_cases he : i = j
    · subst he
      rw [get_set_self hp] at hj
      cases Option.some.inj hj
      rcases hi.rest i _ hne hp with ⟨a, ha⟩ | ⟨_, hw⟩
      · cases ha
      · right
        rw [hlog]
        exact ⟨hk, hw⟩
    · exact hi.rest_set he hn hj
  · intro j hj
    obtain ⟨p, b, hpj, hb, hs, hw⟩ := hi.body j hj
    have he : i ≠ j := fun hx => hne (hx ▸ hj)
    refine ⟨p, b, ?_, hb, hs, ?_⟩
    · rw [getElem?_set_ne he]
      exact hpj
    · rw [hlog]
      exact hw

end

section

variable (hi : IsolInv apply ok isRead d₀ c order (some i))
include hi

private lemma isolInv_commit (hp : c.progs[i]? = some (.ask .commit fun _ => .done a)) (ha : ok a)
    (hb : c.state.saved = some b)
    (hw : applyAll apply (writesOf isRead c.log i) b = some c.state.db) :
    IsolInv apply ok isRead d₀
      ⟨c.progs.set i (.done a), ⟨c.state.db, none⟩, c.log ++ [⟨i, .commit, r⟩]⟩
      (order ++ [i]) none := by
  have hni := hi.not_mem hp
  refine hi.move hp (fun j hj => ⟨by simpa using Ne.symm hj, nofun⟩) ?_ ?_ ?_ ?_
    (fun _ => ⟨a, rfl⟩) nofun
  · refine nodup_append.mpr ⟨hi.nodup, by simp, ?_⟩
    intro x hx y hy he
    rw [mem_singleton.mp hy] at he
    exact hni (he ▸ hx)
  · intro j hj
    simp [hj]
  · simp [ha]
  · have hbase := hi.base
    have hlog : writesOf isRead (c.log ++ [⟨i, .commit, r⟩]) = writesOf isRead c.log :=
      funext fun _ => writesOf_snoc_none isRead _ _ _ (fun _ => rfl)
    rw [Conn.committed, hb] at hbase
    rw [hlog, flatMap_append, applyAll_append, hbase]
    simpa using hw

private lemma isolInv_rollback {s : Option D}
    (hp : c.progs[i]? = some (.ask .rollback fun _ => .done a)) (ha : ¬ok a)
    (hb : c.state.saved = some b) (hd : (⟨d, s⟩ : Conn D).committed = b) :
    IsolInv apply ok isRead d₀
      ⟨c.progs.set i (.done a), ⟨d, s⟩, c.log ++ [⟨i, .rollback, r⟩]⟩ order none := by
  refine hi.move hp (fun j hj => ⟨by simpa using Ne.symm hj, nofun⟩) hi.nodup (fun _ _ => .rfl)
    (iff_of_false (hi.not_mem hp) ?_) ?_ (fun _ => ⟨a, rfl⟩) nofun
  · rintro ⟨a', h', hok⟩
    cases h'
    exact ha hok
  · have hbase := hi.base
    have hlog : writesOf isRead (c.log ++ [⟨i, .rollback, r⟩]) = writesOf isRead c.log :=
      funext fun _ => writesOf_snoc_none isRead _ _ _ (fun _ => rfl)
    rw [Conn.committed, hb, getD_some] at hbase
    rw [hlog, hbase, hd]

-- The active program issues a data statement: its own updates grow by exactly what the
-- statement did, the committed content stays.
private lemma isolInv_data (hp : c.progs[i]? = some (.ask (.data q) k)) (hk : Body ok (k r))
    (hb : c.state.saved = some b)
    (hw : applyAll apply (writesOf isRead (c.log ++ [⟨i, .data q, r⟩]) i) b = some d) :
    IsolInv apply ok isRead d₀
      ⟨c.progs.set i (k r), ⟨d, c.state.saved⟩, c.log ++ [⟨i, .data q, r⟩]⟩ order (some i) := by
  have hni := hi.not_mem hp
  refine hi.move hp (fun j hj => ⟨by simpa using Ne.symm hj, by simpa using Ne.symm hj⟩) hi.nodup
    (fun _ _ => .rfl) (iff_of_false hni ?_) ?_ (fun hne => absurd rfl hne) fun _ => ⟨b, hk, hb, hw⟩
  · rintro ⟨a', h', -⟩
    rw [h'] at hk
    cases hk
  · have hbase := hi.base
    rw [writesOf_order isRead c.log _ order hni, hbase, Conn.committed, hb]
    rfl

end

private lemma isolInv_begin (hi : IsolInv apply ok isRead d₀ c order none)
    (hp : c.progs[i]? = some (.ask .begin fun _ => p)) (hb : Body ok p)
    (hs : c.state.saved = none) :
    IsolInv apply ok isRead d₀
      ⟨c.progs.set i p, ⟨c.state.db, some c.state.db⟩, c.log ++ [⟨i, .begin, r⟩]⟩
      order (some i) := by
  have hlog : writesOf isRead (c.log ++ [⟨i, .begin, r⟩]) = writesOf isRead c.log :=
    funext fun _ => writesOf_snoc_none isRead _ _ _ (fun _ => rfl)
  refine hi.move hp (fun j hj => ⟨nofun, by simpa using Ne.symm hj⟩) hi.nodup (fun _ _ => .rfl)
    (iff_of_false (hi.not_mem hp) ?_) ?_ (fun hne => absurd rfl hne)
    fun _ => ⟨c.state.db, hb, rfl, ?_⟩
  · rintro ⟨a', h', -⟩
    rw [h'] at hb
    cases hb
  · have hbase := hi.base
    rw [Conn.committed, hs] at hbase
    rw [hlog, hbase]
    rfl
  · rcases hi.rest i _ (by simp) hp with ⟨a, ha⟩ | ⟨_, hw⟩
    · cases ha
    · rw [hlog, hw]
      rfl

-- Without an open transaction no program is inside one.
private lemma IsolInv.inactive (hi : IsolInv apply ok isRead d₀ c order active)
    (hnone : c.state.saved = none) : active = none := by
  cases hx : active with
  | none => rfl
  | some j =>
    obtain ⟨_, b, _, _, hs, _⟩ := hi.body j hx
    rw [hnone] at hs
    cases hs

private lemma writeOf_read (hq : isRead q) (i j : Nat) (r : Res V) :
    writeOf isRead j ⟨i, .data q, r⟩ = none := by
  cases r <;> simp [writeOf, hq]

private lemma writesOf_snoc_update (hq : isRead q = false)
    (log : List (Event (Stmt Q) (Res V))) (i : Nat) (hr : r ≠ .err) :
    writesOf isRead (log ++ [⟨i, .data q, r⟩]) i = writesOf isRead log i ++ [q] := by
  have hn : writeOf isRead i ⟨i, .data q, r⟩ = some q := by
    cases r with
    | err => exact absurd rfl hr
    | done | row => simp [writeOf, hq]
  simp [writesOf, hn]

variable (hread : ∀ q, isRead q → ∀ d v d', apply q d = some (v, d') → d' = d)
include hread

-- The active program issues a data statement, which fails, reads or updates.
private lemma isolInv_exec (f : Bool) (hi : IsolInv apply ok isRead d₀ c order (some i))
    (hp : c.progs[i]? = some (.ask (.data q) k)) (hk : ∀ r, r ≠ .err → Body ok (k r))
    (he : Body ok (k .err)) (hb : c.state.saved = some b)
    (hw : applyAll apply (writesOf isRead c.log i) b = some c.state.db) :
    IsolInv apply ok isRead d₀
      ⟨c.progs.set i (k (exec apply f (.data q) c.state).1), (exec apply f (.data q) c.state).2,
        c.log ++ [⟨i, .data q, (exec apply f (.data q) c.state).1⟩]⟩ order (some i) := by
  rcases exec_data_cases apply f q c.state with herr | ⟨v, d', hap, hne, hst⟩
  · rw [herr]
    refine isolInv_data hi hp he hb ?_
    rw [writesOf_snoc_none isRead _ _ _ (fun _ => rfl)]
    exact hw
  rw [hst]
  refine isolInv_data hi hp (hk _ hne) hb ?_
  cases hq : isRead q with
  | true =>
    rw [writesOf_snoc_none isRead _ _ _ (fun j => writeOf_read hq i j _), hread q hq _ _ _ hap]
    exact hw
  | false =>
    rw [writesOf_snoc_update hq c.log i hne, applyAll_append, hw]
    simp [applyAll, hap]

-- One serialized step keeps the invariant, whatever fails in it.
private lemma isolInv_step {c' : Pool (Stmt Q) (Res V) A (Conn D)} {m : Nat × Bool}
    (hi : IsolInv apply ok isRead d₀ c order active) (hser : Serialized c m)
    (hs : c.step (exec apply) m = some c') :
    ∃ order' active', IsolInv apply ok isRead d₀ c' order' active' := by
  obtain ⟨q, k, hp, rfl⟩ := Pool.step_eq_some hs
  rcases m with ⟨i, f⟩
  unfold Serialized at hser
  simp only [hp] at hser
  by_cases ha : active = some i
  · subst ha
    obtain ⟨p, b, hp', hbody, hb, hw⟩ := hi.body i rfl
    rw [hp] at hp'
    cases Option.some.inj hp'
    have hc : c.state = ⟨c.state.db, some b⟩ := by
      rw [← hb]
    cases hbody with
    | commit a ha =>
      subst hser
      rw [hc]
      exact ⟨order ++ [i], none, isolInv_commit hi hp ha hb hw⟩
    | rollback a ha =>
      rw [hc]
      cases f
      · exact ⟨order, none, isolInv_rollback hi hp ha hb rfl⟩
      · exact ⟨order, none, isolInv_rollback hi hp ha hb rfl⟩
    | data q k hk he =>
      obtain ⟨a, hna, hka⟩ := he
      have hbk : Body ok (k .err) := by
        rw [hka]
        exact .rollback a hna
      exact ⟨order, some i, isolInv_exec hread f hi hp hk hbk hb hw⟩
  · rcases hi.rest i _ ha hp with ⟨a, h⟩ | ⟨hbr, hw⟩
    · cases h
    cases hbr with
    | prepare k hk =>
      refine ⟨order, active, ?_⟩
      cases f
      · exact hi.quiet ha hp (hk _) (fun _ => rfl)
      · exact hi.quiet ha hp (hk _) (fun _ => rfl)
    | read q hq k hk =>
      refine ⟨order, active, ?_⟩
      have hsame : (exec apply f (.data q) c.state).2 = c.state := by
        rcases exec_data_cases apply f q c.state with he | ⟨v, d', hap, _, hst⟩
        · rw [he]
        · rw [hst, hread q hq _ _ _ hap]
      rw [hsame]
      exact hi.quiet ha hp (hk _) (fun j => writeOf_read hq i j _)
    | begin p hb =>
      obtain ⟨rfl, hnone⟩ := hser
      have hact := hi.inactive hnone
      subst hact
      have hc : c.state = ⟨c.state.db, none⟩ := by
        rw [← hnone]
      refine ⟨order, some i, ?_⟩
      rw [hc]
      exact isolInv_begin hi hp hb hnone

/-- Isolation rule: bracketed programs on one connection whose transactions do not overlap
are all-or-nothing in every state of every run, whichever statements fail. -/
lemma isolated_of_serialized {progs : List (Prog (Stmt Q) (Res V) A)}
    (hprogs : ∀ p ∈ progs, Bracketed ok isRead p) {ms : List (Nat × Bool)}
    (hser : Pool.Along (exec apply) Serialized ⟨progs, .idle d₀, []⟩ ms)
    (hrun : Pool.run (exec apply) ⟨progs, .idle d₀, []⟩ ms = some c) :
    Isolated apply ok isRead d₀ c := by
  have hinit : IsolInv apply ok isRead d₀ ⟨progs, .idle d₀, []⟩ [] none := by
    constructor
    · exact nodup_nil
    · intro i
      constructor
      · intro h
        cases h
      · rintro ⟨a, ha, hok⟩
        cases hprogs _ (mem_of_getElem? ha) with
        | fail _ hn => exact absurd hok hn
    · rfl
    · intro i p _ hp
      exact .inr ⟨hprogs p (mem_of_getElem? hp), rfl⟩
    · intro i h
      cases h
  obtain ⟨order, active, hi⟩ := Pool.run_inv
    (fun c => ∃ order active, IsolInv apply ok isRead d₀ c order active)
    (fun c m c' ⟨_, _, hi⟩ hok hs => isolInv_step hread hi hok hs)
    ⟨[], none, hinit⟩ hser hrun
  exact ⟨order, hi.nodup, hi.mem, hi.base⟩

end TagItGluster.Base
