import Mathlib.Algebra.GroupWithZero.Nat
import Mathlib.Algebra.BigOperators.Group.List.Basic
import TagItGluster.Base.Machine

/-!
# Threads with lists of things to do

Each of a number of threads has a list of things to do, one after the other. Doing one of them
changes what the threads share, and may put more to do in front of the rest. The threads run in any
order; one whose next thing has to wait stays where it is. What all threads have to do is measured
by adding up a weight.
-/

namespace TagItGluster.Base

open List

variable {α : Type} {i : Nat}

/-- Replacing an entry of a list changes a sum over it by what the two entries have. -/
lemma sum_map_set {M : Type} [AddCommMonoid M] (f : α → M) {l : List α} {x : α}
    (hx : l[i]? = some x) (y : α) : ((l.set i y).map f).sum + f x = (l.map f).sum + f y := by
  induction l generalizing i with
  | nil => cases hx
  | cons a l ih =>
    cases i with
    | zero =>
      cases hx
      simp only [set_cons_zero, map_cons, sum_cons]
      rw [add_comm (f y), add_assoc, add_assoc, add_comm (f y), add_left_comm]
    | succ i =>
      simp only [set_cons_succ, map_cons, sum_cons, add_assoc]
      rw [ih hx]

/-- Replacing an entry of a list changes how many have a property by what the two entries have. -/
lemma countP_set_add (p : α → Bool) {l : List α} {x : α} (hx : l[i]? = some x) (y : α) :
    (l.set i y).countP p + (p x).toNat = l.countP p + (p y).toNat := by
  induction l generalizing i with
  | nil => cases hx
  | cons a l ih =>
    cases i with
    | zero =>
      cases hx
      rw [set_cons_zero, countP_cons, countP_cons]
      cases p x <;> cases p y <;> simp
    | succ i =>
      rw [set_cons_succ, countP_cons, countP_cons]
      have := ih hx
      omega

/-- The first item of one list is taken off. -/
lemma flatten_set_perm {l : List (List α)} {x : α} {xs : List α} (h : l[i]? = some (x :: xs)) :
    (x :: (l.set i xs).flatten).Perm l.flatten := by
  induction l generalizing i with
  | nil => cases h
  | cons y l ih =>
    cases i with
    | zero =>
      rw [getElem?_cons_zero, Option.some.injEq] at h
      rw [h]
      rfl
    | succ i =>
      exact perm_middle.symm.trans ((ih h).append_left y)

/-- What each thread has to do, and what the threads share. -/
structure Workers (A S : Type) where
  todo : List (List A)
  state : S

namespace Workers

variable {A S : Type} (exec : A → S → Option (List A × S))

/-- A thread does the next thing it has to do, unless it has nothing to do or has to wait. -/
def step (i : Nat) (w : Workers A S) : Workers A S :=
  match w.todo[i]? with
  | some (a :: rest) =>
    match exec a w.state with
    | some (more, s) => ⟨w.todo.set i (more ++ rest), s⟩
    | none => w
  | _ => w

/-- The weight of all that the threads have to do. -/
def load (f : A → Nat) (w : Workers A S) : Nat := (w.todo.map fun as => (as.map f).sum).sum

/-- No thread has anything to do. -/
def Idle (w : Workers A S) : Prop := ∀ as ∈ w.todo, as = []

variable {w : Workers A S}

lemma load_eq_zero {f : A → Nat} (h : ∀ as ∈ w.todo, ∀ a ∈ as, f a = 0) : w.load f = 0 := by
  refine sum_eq_zero fun n hn => ?_
  obtain ⟨as, has, rfl⟩ := mem_map.mp hn
  refine sum_eq_zero fun n hn => ?_
  obtain ⟨a, ha, rfl⟩ := mem_map.mp hn
  exact h as has a ha

lemma Idle.load_eq_zero (h : w.Idle) (f : A → Nat) : w.load f = 0 :=
  Workers.load_eq_zero fun as has a ha => by
    rw [h as has] at ha
    cases ha

/-- What a step does: nothing, if the thread has nothing to do or has to wait; or one of the things
there are to do, for which there may be more to do. The rest of what the threads have to do
stays. -/
lemma step_cases (i : Nat) (w : Workers A S) :
    ((∀ a rest, w.todo[i]? = some (a :: rest) → exec a w.state = none) ∧ w.step exec i = w) ∨
      ∃ a more s, (∃ as ∈ w.todo, a ∈ as) ∧ exec a w.state = some (more, s) ∧
        (w.step exec i).state = s ∧ ∃ rest : (A → Nat) → Nat, ∀ f, w.load f = rest f + f a ∧
          (w.step exec i).load f = rest f + (more.map f).sum := by
  unfold step
  split
  · next a rest hi =>
    split
    · next more s ha =>
      refine .inr ⟨a, more, s, ⟨_, mem_of_getElem? hi, mem_cons_self⟩, ha, rfl,
        fun f => load f ⟨w.todo.set i rest, s⟩, fun f => ?_⟩
      have hrest := sum_map_set (fun as => (as.map f).sum) hi rest
      have hmore := sum_map_set (fun as => (as.map f).sum) hi (more ++ rest)
      simp only [map_append, sum_append, map_cons, sum_cons] at hrest hmore
      simp only [load]
      omega
    · next ha =>
      refine .inl ⟨fun a' rest' hi' => ?_, rfl⟩
      obtain ⟨rfl, rfl⟩ := List.cons.inj (Option.some.inj (hi.symm.trans hi'))
      exact ha
  · next hi => exact .inl ⟨fun a rest h => absurd h (hi a rest), rfl⟩

private lemma Idle.step_eq (h : w.Idle) (i : Nat) : w.step exec i = w := by
  unfold step
  split
  · next a rest hi => cases h _ (mem_of_getElem? hi)
  · rfl

lemma length_step (i : Nat) (w : Workers A S) : (w.step exec i).todo.length = w.todo.length := by
  unfold step
  split
  · split
    · exact length_set
    · rfl
  · rfl

/-- What holds of the list of each thread, if doing its first thing keeps it. -/
lemma step_each {Q : List A → Prop} {i : Nat} (h : ∀ as ∈ w.todo, Q as)
    (hexec : ∀ a more s rest, exec a w.state = some (more, s) → Q (a :: rest) → Q (more ++ rest)) :
    ∀ as ∈ (w.step exec i).todo, Q as := by
  unfold step
  split
  · next a rest hi =>
    split
    · next more s ha =>
      intro as has
      rcases mem_or_eq_of_mem_set has with hold | rfl
      · exact h as hold
      · exact hexec a more s rest ha (h _ (mem_of_getElem? hi))
    · exact h
  · exact h

/-- What holds of everything that the threads have to do, if doing one thing keeps it for the others
and there is nothing else among what is put in front. -/
lemma step_forall {Q : S → A → Prop} {i : Nat} (h : ∀ as ∈ w.todo, ∀ a ∈ as, Q w.state a)
    (hexec : ∀ a more s, exec a w.state = some (more, s) → Q w.state a →
      (∀ b, Q w.state b → Q s b) ∧ ∀ b ∈ more, Q s b) :
    ∀ as ∈ (w.step exec i).todo, ∀ a ∈ as, Q (w.step exec i).state a := by
  unfold step
  split
  · next a rest hi =>
    split
    · next more s ha =>
      have hthread := h _ (mem_of_getElem? hi)
      obtain ⟨hkeep, hmore⟩ := hexec a more s ha (hthread a mem_cons_self)
      intro as has b hb
      rcases mem_or_eq_of_mem_set has with hold | rfl
      · exact hkeep b (h as hold b hb)
      · rcases mem_append.mp hb with hb | hb
        · exact hmore b hb
        · exact hkeep b (hthread b (mem_cons_of_mem a hb))
    · exact h
  · exact h

/-- A new thread brings the weight of what it has to do. -/
lemma load_push (f : A → Nat) (w : Workers A S) (as : List A) (s : S) :
    load f ⟨w.todo ++ [as], s⟩ = w.load f + (as.map f).sum := by
  simp [load]

/-- A weight that is not zero is that of something a thread has to do. -/
lemma load_pos_iff {f : A → Nat} : 0 < w.load f ↔ ∃ as ∈ w.todo, ∃ a ∈ as, 0 < f a := by
  simp [load, List.sum_pos_iff_exists_pos_nat, mem_map]

/-- Every thread gets its turn, a number of times. -/
def rounds (threads : Nat) : Nat → List Nat
  | 0 => []
  | k + 1 => List.range threads ++ rounds threads k

variable {exec} (I : Workers A S → Prop) (μ : Workers A S → Nat)

/-- Turns that do something bring down the measure. -/
lemma runAll_step_lt (hstep : ∀ i w, I w → I (w.step exec i))
    (hless : ∀ i w, I w → w.step exec i = w ∨ μ (w.step exec i) < μ w) (is : List Nat) (hw : I w) :
    (∀ i ∈ is, w.step exec i = w) ∧ runAll (step exec) is w = w ∨
      μ (runAll (step exec) is w) < μ w := by
  induction is generalizing w with
  | nil => exact .inl ⟨fun _ h => absurd h not_mem_nil, rfl⟩
  | cons i is ih =>
    rw [runAll_cons]
    rcases hless i w hw with hsame | hlt
    · rw [hsame]
      rcases ih hw with ⟨hall, hrun⟩ | hlt
      · exact .inl ⟨forall_mem_cons.mpr ⟨hsame, hall⟩, hrun⟩
      · exact .inr hlt
    · rcases ih (hstep i w hw) with ⟨-, hrun⟩ | hlt'
      · rw [hrun]
        exact .inr hlt
      · exact .inr (Nat.lt_trans hlt' hlt)

/-- If something can be done until there is nothing to do, and whatever is done brings down a
measure, then the threads come to rest. -/
lemma idle_of_rounds (hstep : ∀ i w, I w → I (w.step exec i))
    (hless : ∀ i w, I w → w.step exec i = w ∨ μ (w.step exec i) < μ w)
    (hbusy : ∀ w, I w → ¬w.Idle → ∃ i < w.todo.length, w.step exec i ≠ w) {n k : Nat} (hw : I w)
    (hn : w.todo.length = n) (hk : μ w ≤ k) : (runAll (step exec) (rounds n k) w).Idle := by
  have hidle : ∀ {w}, I w → w.todo.length = n →
      (∀ i ∈ List.range n, w.step exec i = w) → w.Idle := by
    intro w hw hn hall
    by_contra hbusyw
    obtain ⟨i, hi, hne⟩ := hbusy w hw hbusyw
    exact hne (hall i (mem_range.mpr (hn ▸ hi)))
  induction k generalizing w with
  | zero =>
    refine hidle hw hn fun i _ => ?_
    rcases hless i w hw with hsame | hlt
    · exact hsame
    · omega
  | succ k ih =>
    rw [rounds, runAll_append]
    have hlen : (runAll (step exec) (List.range n) w).todo.length = n :=
      runAll_always (step exec) (fun w => w.todo.length = n)
        (fun i w h => (length_step exec i w).trans h) _ hn
    have hw' := runAll_always (step exec) I hstep (List.range n) hw
    rcases runAll_step_lt I μ hstep hless (List.range n) hw with ⟨hall, hrun⟩ | hlt
    · -- Nothing happens in a round, and so nothing will.
      rw [hrun]
      refine runAll_always (step exec) Idle (fun i w h => ?_) _ (hidle hw hn hall)
      rw [h.step_eq exec i]
      exact h
    · exact ih hw' hlen (by omega)

end Workers

end TagItGluster.Base
