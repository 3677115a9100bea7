import Mathlib.Data.List.Basic

/-!
# Programs that issue atomic requests

A program either is finished or asks one request and continues on the reply. The same
program is run alone against a handler, or in a pool of programs that share one state
and are interleaved request by request. Nothing here refers to a particular request
language; the index operations and the reply callbacks instantiate it.
-/

namespace TagItGluster.Base

open List

/-- A program over requests `Q`, replies `R` and results `A`. -/
inductive Prog (Q R A : Type) where
  | done (a : A)
  | ask (q : Q) (k : R → Prog Q R A)

namespace Prog

variable {Q R A B S : Type}

/-- Sequential composition: the result of the first program selects the second one. -/
protected def bind : Prog Q R A → (A → Prog Q R B) → Prog Q R B
  | done a, f => f a
  | ask q k, f => ask q (fun r => (k r).bind f)

instance : Monad (Prog Q R) where
  pure := done
  bind := Prog.bind

/-- The program that issues one request and returns its reply. -/
def send (q : Q) : Prog Q R R := ask q done

/-- Run a program alone: the handler answers each request and updates the state. -/
def run (h : Q → S → R × S) : Prog Q R A → S → A × S
  | done a, s => (a, s)
  | ask q k, s => run h (k (h q s).1) (h q s).2

@[simp] lemma pure_eq (a : A) : (pure a : Prog Q R A) = done a := rfl

@[simp] lemma bind_done (a : A) (f : A → Prog Q R B) : (done a >>= f) = f a := rfl

@[simp] lemma bind_ask (q : Q) (k : R → Prog Q R A) (f : A → Prog Q R B) :
    (ask q k >>= f) = ask q (fun r => k r >>= f) := rfl

@[simp] lemma send_bind (q : Q) (f : R → Prog Q R B) : (send q >>= f) = ask q f := rfl

@[simp] lemma run_done (h : Q → S → R × S) (a : A) (s : S) : run h (done a) s = (a, s) := rfl

@[simp] lemma run_ask (h : Q → S → R × S) (q : Q) (k : R → Prog Q R A) (s : S) :
    run h (ask q k) s = run h (k (h q s).1) (h q s).2 := rfl

/-- Composition is associative. -/
lemma bind_assoc {C : Type} (p : Prog Q R A) (f : A → Prog Q R B) (g : B → Prog Q R C) :
    (p >>= f) >>= g = p >>= fun a => f a >>= g := by
  induction p with
  | done a => rfl
  | ask q k ih =>
    simp only [bind_ask]
    congr
    ext r
    exact ih r

/-- A composed program runs its first part and then the selected second part. -/
lemma run_bind (h : Q → S → R × S) (p : Prog Q R A) (f : A → Prog Q R B) (s : S) :
    run h (p >>= f) s = run h (f (run h p s).1) (run h p s).2 := by
  induction p generalizing s with
  | done a => rfl
  | ask q k ih => exact ih (h q s).1 (h q s).2

/-- `Follows p es p'`: asked and answered as `es` says, `p` has become `p'`. -/
inductive Follows : Prog Q R A → List (Q × R) → Prog Q R A → Prop where
  | nil (p : Prog Q R A) : Follows p [] p
  | cons (q : Q) (k : R → Prog Q R A) (r : R) {es : List (Q × R)} {p' : Prog Q R A}
      (h : Follows (k r) es p') : Follows (ask q k) ((q, r) :: es) p'

variable {es : List (Q × R)} {k : R → Prog Q R A}

private lemma Follows.snoc {p : Prog Q R A} {q : Q} (h : Follows p es (ask q k)) (r : R) :
    Follows p (es ++ [(q, r)]) (k r) := by
  generalize hp : ask q k = p' at h
  induction h with
  | nil p =>
    subst hp
    exact .cons q k r (.nil _)
  | cons q' k' r' _ ih => exact .cons q' k' r' (ih hp)

/-- To finish, a program must have been answered its first request. -/
lemma Follows.ask_done {q : Q} {a : A} (h : Follows (ask q k) es (done a)) :
    ∃ r es', es = (q, r) :: es' ∧ Follows (k r) es' (done a) := by
  cases h with
  | cons _ _ r h => exact ⟨r, _, rfl, h⟩

lemma Follows.done_done {a b : A} (h : Follows (done a) es (done b)) : es = [] ∧ a = b := by
  cases h with
  | nil => exact ⟨rfl, rfl⟩

/-- The program finishes after `n` requests, whatever it is told. -/
inductive Takes : Nat → Prog Q R A → Prop where
  | done (a : A) : Takes 0 (.done a)
  | ask {n : Nat} (q : Q) (k : R → Prog Q R A) (h : ∀ r, Takes n (k r)) : Takes (n + 1) (.ask q k)

end Prog

/-- One step of a pool: which program moved, what it asked and what it was told. -/
structure Event (Q R : Type) where
  who : Nat
  asked : Q
  told : R

/-- Programs that share a state, with the log of the steps taken so far. -/
structure Pool (Q R A S : Type) where
  progs : List (Prog Q R A)
  state : S
  log : List (Event Q R)

namespace Pool

variable {Q R A S F : Type}

/-- Program `m.1` issues its next request; `m.2` is what the environment adds to that
request (a fault, for instance). A finished or absent program cannot move. -/
def step (h : F → Q → S → R × S) (c : Pool Q R A S) (m : Nat × F) : Option (Pool Q R A S) :=
  match c.progs[m.1]? with
  | some (.ask q k) =>
    let (r, s) := h m.2 q c.state
    some ⟨c.progs.set m.1 (k r), s, c.log ++ [⟨m.1, q, r⟩]⟩
  | _ => none

/-- Run a schedule; `none` when some scheduled program could not move. -/
def run (h : F → Q → S → R × S) : Pool Q R A S → List (Nat × F) → Option (Pool Q R A S)
  | c, [] => some c
  | c, m :: ms => (c.step h m).bind (fun c' => run h c' ms)

/-- Every step of the schedule is taken in a state where `ok` holds of it. -/
def Along (h : F → Q → S → R × S) (ok : Pool Q R A S → Nat × F → Prop) :
    Pool Q R A S → List (Nat × F) → Prop
  | _, [] => True
  | c, m :: ms => ok c m ∧
    match c.step h m with
    | some c' => Along h ok c' ms
    | none => True

instance decidableAlong (h : F → Q → S → R × S) (ok : Pool Q R A S → Nat × F → Prop)
    [∀ c m, Decidable (ok c m)] : ∀ c ms, Decidable (Along h ok c ms)
  | _, [] => .isTrue trivial
  | c, m :: ms =>
    have : Decidable (match c.step h m with
        | some c' => Along h ok c' ms
        | none => True) :=
      match c.step h m with
      | some c' => decidableAlong h ok c' ms
      | none => .isTrue trivial
    inferInstanceAs (Decidable (ok c m ∧ _))

/-- What program `i` asked and was told so far. -/
def eventsOf (log : List (Event Q R)) (i : Nat) : List (Q × R) :=
  (log.filter (fun e => e.who == i)).map (fun e => (e.asked, e.told))

/-- Every program of the pool has finished. -/
def Finished (c : Pool Q R A S) : Prop := ∀ p ∈ c.progs, ∃ a, p = .done a

instance (p : Prog Q R A) : Decidable (∃ a, p = .done a) :=
  match p with
  | .done a => .isTrue ⟨a, rfl⟩
  | .ask _ _ => .isFalse (fun h => nomatch h)

instance (c : Pool Q R A S) : Decidable c.Finished :=
  inferInstanceAs (Decidable (∀ p ∈ c.progs, ∃ a, p = .done a))

variable {h : F → Q → S → R × S} {c c' : Pool Q R A S} {ms : List (Nat × F)}

/-- A step is an unfinished program's next request, answered by the handler. -/
lemma step_eq_some {m : Nat × F} (hs : c.step h m = some c') :
    ∃ q k, c.progs[m.1]? = some (.ask q k) ∧
      c' = ⟨c.progs.set m.1 (k (h m.2 q c.state).1), (h m.2 q c.state).2,
        c.log ++ [⟨m.1, q, (h m.2 q c.state).1⟩]⟩ := by
  unfold step at hs
  split at hs
  · next q k hp => exact ⟨q, k, hp, (Option.some.inj hs).symm⟩
  · cases hs

/-- What every allowed step preserves holds at the end of every allowed run. -/
lemma run_inv {ok : Pool Q R A S → Nat × F → Prop} (I : Pool Q R A S → Prop)
    (hstep : ∀ c m c', I c → ok c m → c.step h m = some c' → I c') (hi : I c) (ha : Along h ok c ms)
    (hr : run h c ms = some c') : I c' := by
  induction ms generalizing c with
  | nil =>
    cases hr
    exact hi
  | cons m ms ih =>
    obtain ⟨c₁, hs, hr⟩ := Option.bind_eq_some_iff.mp hr
    have ha' := ha.2
    rw [hs] at ha'
    exact ih (hstep c m c₁ hi ha.1 hs) ha' hr

lemma along_true (h : F → Q → S → R × S) (c : Pool Q R A S) (ms : List (Nat × F)) :
    Along h (fun _ _ => True) c ms := by
  induction ms generalizing c with
  | nil => trivial
  | cons m ms ih =>
    refine ⟨trivial, ?_⟩
    split
    · next c' _ => exact ih c'
    · trivial

lemma run_length (hr : run h c ms = some c') : c'.progs.length = c.progs.length := by
  refine run_inv (fun x => x.progs.length = c.progs.length) ?_ rfl (along_true h c ms) hr
  intro c₁ m c₂ hi _ hs
  obtain ⟨q, k, _, rfl⟩ := step_eq_some hs
  rw [length_set]
  exact hi

lemma run_log (hr : run h c ms = some c') :
    c'.log.map Event.who = c.log.map Event.who ++ ms.map Prod.fst := by
  induction ms generalizing c with
  | nil =>
    cases hr
    simp
  | cons m ms ih =>
    obtain ⟨c₁, hs, hr⟩ := Option.bind_eq_some_iff.mp hr
    obtain ⟨q, k, _, rfl⟩ := step_eq_some hs
    rw [ih hr]
    simp

/-- A schedule that gives each program the number of steps it takes runs to the end. -/
lemma run_of_takes (h : F → Q → S → R × S) (hin : ∀ m ∈ ms, m.1 < c.progs.length)
    (ht : ∀ (i : Nat) (p : Prog Q R A), c.progs[i]? = some p →
      p.Takes (ms.countP (fun m => m.1 == i))) : ∃ c', run h c ms = some c' ∧ c'.Finished := by
  induction ms generalizing c with
  | nil =>
    refine ⟨c, rfl, ?_⟩
    intro p hp
    obtain ⟨i, hi⟩ := mem_iff_getElem?.mp hp
    cases ht i p hi with
    | done a => exact ⟨a, rfl⟩
  | cons m ms ih =>
    rw [forall_mem_cons] at hin
    have hget := getElem?_eq_getElem hin.1
    have hm := ht m.1 _ hget
    rw [countP_cons_of_pos (by simp)] at hm
    generalize c.progs[m.1] = p at hget hm
    cases hm with
    | ask q k hk =>
      have hstep : c.step h m = some ⟨c.progs.set m.1 (k (h m.2 q c.state).1), (h m.2 q c.state).2,
          c.log ++ [⟨m.1, q, (h m.2 q c.state).1⟩]⟩ := by
        rw [step, hget]
      rw [run, hstep]
      refine ih (by simpa using hin.2) ?_
      intro i p hp
      by_cases hi : m.1 = i
      · subst hi
        simp only [getElem?_set_self hin.1] at hp
        cases hp
        exact hk _
      · simp only [getElem?_set_ne hi] at hp
        have hold := ht i p hp
        rwa [countP_cons_of_neg (by simpa using hi)] at hold

/-- Each program of a pool has followed its own part of the log. -/
lemma run_follows {progs : List (Prog Q R A)} {s : S} (hr : run h ⟨progs, s, []⟩ ms = some c)
    {i : Nat} {p : Prog Q R A} (hp : progs[i]? = some p) :
    ∃ p', c.progs[i]? = some p' ∧ p.Follows (eventsOf c.log i) p' := by
  refine run_inv (c := ⟨progs, s, []⟩)
    (fun c => ∃ p', c.progs[i]? = some p' ∧ p.Follows (eventsOf c.log i) p') ?_
    ⟨p, hp, .nil p⟩ (along_true h _ ms) hr
  rintro c m c' ⟨p', hp', hf⟩ _ hs
  obtain ⟨q, k, hq, rfl⟩ := step_eq_some hs
  obtain ⟨hlt, _⟩ := List.getElem?_eq_some_iff.mp hp'
  by_cases hm : m.1 = i
  · subst hm
    rw [hp'] at hq
    cases hq
    refine ⟨k (h m.2 q c.state).1, by simp [hlt], ?_⟩
    simpa [eventsOf] using hf.snoc (h m.2 q c.state).1
  · refine ⟨p', by simp [hm, hp'], ?_⟩
    simpa [eventsOf, hm] using hf

end Pool

end TagItGluster.Base
