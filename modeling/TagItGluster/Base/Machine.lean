import Mathlib.Data.List.Basic

/-!
# Machines driven by lists of events

A machine is a function that takes an event and a state to the next state. Invariants are
proved for one event and hold after every list of events that are allowed where they
happen. The second half is about doing the work of an event later: events put tasks into a
first-in first-out queue, and a worker takes them out at any time.
-/

namespace TagItGluster.Base

open List

section

variable {E S : Type} (f : E → S → S)

/-- The state after a list of events. -/
def runAll : List E → S → S
  | [], s => s
  | e :: es, s => runAll es (f e s)

/-- Each event of the list is allowed in the state in which it happens. -/
def Throughout (ok : E → S → Prop) : List E → S → Prop
  | [], _ => True
  | e :: es, s => ok e s ∧ Throughout ok es (f e s)

instance decidableThroughout (ok : E → S → Prop) [∀ e s, Decidable (ok e s)] :
    ∀ es s, Decidable (Throughout f ok es s)
  | [], _ => .isTrue trivial
  | e :: es, s =>
    have := decidableThroughout ok es (f e s)
    inferInstanceAs (Decidable (ok e s ∧ Throughout f ok es (f e s)))

@[simp] lemma runAll_nil (s : S) : runAll f [] s = s := rfl

@[simp] lemma runAll_cons (e : E) (es : List E) (s : S) :
    runAll f (e :: es) s = runAll f es (f e s) := rfl

lemma runAll_append (es es' : List E) (s : S) :
    runAll f (es ++ es') s = runAll f es' (runAll f es s) := by
  induction es generalizing s with
  | nil => rfl
  | cons e es ih => exact ih (f e s)

/-- What every allowed event preserves holds after every list of allowed events. -/
lemma runAll_inv {ok : E → S → Prop} (I : S → Prop)
    (hstep : ∀ e s, I s → ok e s → I (f e s)) {es : List E} {s : S} (hi : I s)
    (ha : Throughout f ok es s) : I (runAll f es s) := by
  induction es generalizing s with
  | nil => exact hi
  | cons e es ih => exact ih (hstep e s hi ha.1) ha.2

lemma runAll_always (I : S → Prop) (hstep : ∀ e s, I s → I (f e s)) (es : List E) {s : S}
    (hi : I s) : I (runAll f es s) := by
  induction es generalizing s with
  | nil => exact hi
  | cons e es ih => exact ih (hstep e s hi)

/-- Where the allowed events are those that preserve a property, a list of events is allowed exactly
if the property holds in each state it passes. -/
lemma throughout_iff_always {ok : E → S → Prop} (I : S → Prop)
    (hstep : ∀ e s, I s → (ok e s ↔ I (f e s))) {es : List E} {s : S} (hi : I s) :
    Throughout f ok es s ↔ ∀ es', es' <+: es → I (runAll f es' s) := by
  induction es generalizing s with
  | nil =>
    refine ⟨?_, fun _ => trivial⟩
    intro _ es' hpre
    rw [prefix_nil.mp hpre]
    exact hi
  | cons e es ih =>
    constructor
    · rintro ⟨hok, hrest⟩ es' hpre
      have hi' := (hstep e s hi).mp hok
      rcases prefix_cons_iff.mp hpre with rfl | ⟨es'', rfl, hpre'⟩
      · exact hi
      · exact (ih hi').mp hrest es'' hpre'
    · intro h
      have hi' : I (f e s) := h [e] (prefix_cons_iff.mpr (.inr ⟨[], rfl, nil_prefix⟩))
      refine ⟨(hstep e s hi).mpr hi', (ih hi').mpr ?_⟩
      intro es' hpre
      exact h (e :: es') (prefix_cons_iff.mpr (.inr ⟨es', rfl, hpre⟩))

/-- The invariant of a counted loop. -/
lemma runAll_range' (f : ℕ → S → S) (I : ℕ → S → Prop) {m n : ℕ} {s : S} (hi : I m s)
    (hstep : ∀ i, m ≤ i → i < m + n → ∀ s, I i s → I (i + 1) (f i s)) :
    I (m + n) (runAll f (List.range' m n) s) := by
  induction n generalizing m s with
  | zero => exact hi
  | succ n ih =>
    rw [show m + (n + 1) = m + 1 + n by omega]
    exact ih (hstep m (Nat.le_refl m) (by omega) s hi)
      fun i hle hlt => hstep i (by omega) (by omega)

/-- The invariant of a loop that counts from zero. -/
lemma runAll_range (f : ℕ → S → S) (I : ℕ → S → Prop) {n : ℕ} {s : S} (hi : I 0 s)
    (hstep : ∀ i < n, ∀ s, I i s → I (i + 1) (f i s)) : I n (runAll f (List.range n) s) := by
  have h := runAll_range' f I (n := n) hi fun i _ hlt => hstep i (by omega)
  rwa [Nat.zero_add, ← range_eq_range'] at h

/-- The invariant of a loop that counts down to one. -/
lemma runAll_downTo (f : ℕ → S → S) (I : ℕ → S → Prop) {n : ℕ} {s : S} (hi : I n s)
    (hstep : ∀ i < n, ∀ s, I (i + 1) s → I i (f (i + 1) s)) :
    I 0 (runAll f (List.range' 1 n).reverse s) := by
  induction n generalizing s with
  | zero => exact hi
  | succ n ih =>
    rw [range'_concat, reverse_append, Nat.one_mul, Nat.add_comm 1 n]
    exact ih (hstep n (Nat.lt_succ_self n) s hi) fun i hlt => hstep i (Nat.lt_succ_of_lt hlt)

/-- Allowed lists of events compose. -/
lemma throughout_append (ok : E → S → Prop) {es es' : List E} {s : S} :
    Throughout f ok (es ++ es') s ↔
      Throughout f ok es s ∧ Throughout f ok es' (runAll f es s) := by
  induction es generalizing s with
  | nil => exact ⟨fun h => ⟨trivial, h⟩, fun h => h.2⟩
  | cons e es ih =>
    simp [Throughout, ih, and_assoc]

/-- A stronger condition along a run, under an invariant of the run. -/
lemma Throughout.imp {f : E → S → S} {ok ok' : E → S → Prop} (I : S → Prop)
    (hstep : ∀ e s, I s → ok e s → I (f e s)) (h : ∀ e s, I s → ok e s → ok' e s)
    {es : List E} {s : S} (hi : I s) (ha : Throughout f ok es s) : Throughout f ok' es s := by
  induction es generalizing s with
  | nil => trivial
  | cons e es ih => exact ⟨h e s hi ha.1, ih (hstep e s hi ha.1) ha.2⟩

end

variable {E T S : Type} (now : E → S → S) (put : E → Option T) (work : T → S → S)

/-- Tasks that wait, oldest first, and the state they will be done on. -/
structure Deferred (T S : Type) where
  queue : List T
  state : S

/-- An event happens, or the worker takes the oldest task. -/
inductive Move (E : Type) where
  | event (e : E)
  | work

/-- Do a task, if there is one. -/
def doTask : Option T → S → S
  | some t, s => work t s
  | none, s => s

/-- An event only puts its task at the end of the queue; a worker that finds the queue
empty does nothing. -/
def Deferred.move : Move E → Deferred T S → Deferred T S
  | .event e, d => { d with queue := d.queue ++ (put e).toList }
  | .work, ⟨[], s⟩ => ⟨[], s⟩
  | .work, ⟨t :: ts, s⟩ => ⟨ts, work t s⟩

/-- The events of a schedule. -/
def eventsIn (ms : List (Move E)) : List E :=
  ms.filterMap (fun m => match m with
    | .event e => some e
    | .work => none)

/-- The state after all waiting tasks have been done. -/
def Deferred.drained (d : Deferred T S) : S := runAll work d.queue d.state

-- Putting a task and doing it at once after all others is the same as doing the event now.
private lemma drained_event {e : E} {d : Deferred T S}
    (h : doTask work (put e) (d.drained work) = now e (d.drained work)) :
    (d.move put work (.event e)).drained work = now e (d.drained work) := by
  rw [← h]
  unfold Deferred.drained Deferred.move
  rw [runAll_append]
  cases put e <;> rfl

/-- Where each event's task does what the event does at once, a schedule of events and
worker steps leads, when its queue is drained, to the state of the direct run. -/
lemma drained_run {ms : List (Move E)} {d : Deferred T S} {s : S} (hd : d.drained work = s)
    (h : Throughout now (fun e s => doTask work (put e) s = now e s) (eventsIn ms) s) :
    (runAll (fun m d => Deferred.move put work m d) ms d).drained work =
      runAll now (eventsIn ms) s := by
  induction ms generalizing d s with
  | nil => exact hd
  | cons m ms ih =>
    cases m with
    | event e =>
      refine ih ?_ h.2
      rw [drained_event now put work (by rw [hd]; exact h.1), hd]
    | work =>
      refine ih ?_ h
      rw [← hd]
      rcases d with ⟨_ | ⟨t, ts⟩, s⟩ <;> rfl

end TagItGluster.Base
