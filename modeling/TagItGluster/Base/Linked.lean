import Mathlib.Data.List.Basic

/-!
# Linked lists in memory

Pointers lead from cell to cell. A list is linked if the first pointer leads to its first cell, the
pointer in each cell to the next one, and the last one nowhere. Cells can be put in front and taken
out; what happens to other cells does not matter.
-/

namespace TagItGluster.Base

open List

variable {P : Type}

/-- The cells of the list are linked from `start` on by the pointers `next`, which only cells that
exist have. -/
def Linked (next : P → Option (Option P)) : Option P → List P → Prop
  | start, [] => start = none
  | start, p :: ps => start = some p ∧ ∃ q, next p = some q ∧ Linked next q ps

/-- The cells of the list have pointers `prev` to the cell before, the first one to `before`. -/
def BackLinked (prev : P → Option (Option P)) : Option P → List P → Prop
  | _, [] => True
  | before, p :: ps => prev p = some before ∧ BackLinked prev (some p) ps

variable {next next' : P → Option (Option P)} {start : Option P} {p : P} {ps qs : List P}

lemma Linked.frame (h : Linked next start ps) (heq : ∀ x ∈ ps, next' x = next x) :
    Linked next' start ps := by
  induction ps generalizing start with
  | nil => exact h
  | cons p ps ih =>
    obtain ⟨hstart, q, hq, h⟩ := h
    obtain ⟨hp, hps⟩ := forall_mem_cons.mp heq
    exact ⟨hstart, q, hp.trans hq, ih h hps⟩

lemma Linked.start_eq (h : Linked next start ps) : start = ps.head? := by
  cases ps with
  | nil => exact h
  | cons p ps => exact h.1

variable {as bs : List P}

lemma Linked.next_eq (h : Linked next start (as ++ p :: bs)) : next p = some bs.head? := by
  induction as generalizing start with
  | nil =>
    obtain ⟨-, q, hq, h⟩ := h
    rw [hq, h.start_eq]
  | cons a as ih =>
    obtain ⟨-, q, -, h⟩ := h
    exact ih h

lemma Linked.exists_next (h : Linked next start ps) (hmem : p ∈ ps) : ∃ q, next p = some q := by
  induction ps generalizing start with
  | nil => cases hmem
  | cons a ps ih =>
    obtain ⟨-, q, hq, h⟩ := h
    rcases mem_cons.mp hmem with rfl | hmem
    · exact ⟨q, hq⟩
    · exact ih h hmem

lemma Linked.pointed (h : Linked next start ps) (hmem : p ∈ ps) :
    start = some p ∨ ∃ a ∈ ps, next a = some (some p) := by
  induction ps generalizing start with
  | nil => cases hmem
  | cons a ps ih =>
    obtain ⟨hstart, q, hq, h⟩ := h
    rcases mem_cons.mp hmem with rfl | hmem
    · exact .inl hstart
    · rcases ih h hmem with rfl | ⟨b, hb, hnext⟩
      · exact .inr ⟨a, mem_cons_self, hq⟩
      · exact .inr ⟨b, mem_cons_of_mem a hb, hnext⟩

/-- Cells that follow each other in memory are linked. -/
lemma linked_range' {next : Nat → Option (Option Nat)} {first n : Nat}
    (hnext : ∀ i, first ≤ i → i < first + n → next i = some (some (i + 1)))
    (hlast : next (first + n) = some none) :
    Linked next (some first) (List.range' first (n + 1)) := by
  induction n generalizing first with
  | zero => exact ⟨rfl, none, hlast, rfl⟩
  | succ n ih =>
    refine ⟨rfl, some (first + 1), hnext first (Nat.le_refl first) (by omega), ih ?_ ?_⟩
    · intro i hle hlt
      exact hnext i (by omega) (by omega)
    · rw [Nat.add_right_comm]
      exact hlast

/-- A cell is taken out: the cell before it, or the first pointer, leads to the cell behind it. -/
lemma Linked.remove (h : Linked next start (as ++ p :: bs)) (hnodup : (as ++ p :: bs).Nodup)
    (hlast : ∀ a, as.getLast? = some a → next' a = some bs.head?)
    (hothers : ∀ x ∈ as ++ bs, as.getLast? ≠ some x → next' x = next x) :
    Linked next' (if as = [] then bs.head? else start) (as ++ bs) := by
  induction as generalizing start with
  | nil =>
    obtain ⟨-, q, -, h⟩ := h
    rw [← h.start_eq]
    exact h.frame fun x hx => hothers x hx nofun
  | cons a as ih =>
    obtain ⟨hstart, q, hq, h⟩ := h
    obtain ⟨hnew, hnodup⟩ := nodup_cons.mp hnodup
    by_cases hnil : as = []
    · subst hnil
      obtain ⟨-, r, -, h⟩ := h
      refine ⟨hstart, bs.head?, hlast a rfl, ?_⟩
      rw [← h.start_eq]
      refine h.frame fun x hx => hothers x (mem_cons_of_mem a hx) fun heq => ?_
      obtain rfl : a = x := Option.some.inj heq
      exact hnew (mem_cons_of_mem p hx)
    · rw [getLast?_cons_of_ne_nil hnil] at hlast hothers
      have hrest := ih h hnodup hlast fun x hx => hothers x (mem_cons_of_mem a hx)
      rw [if_neg hnil] at hrest
      refine ⟨hstart, q, ?_, hrest⟩
      rw [hothers a mem_cons_self, hq]
      intro heq
      exact hnew (mem_append_left _ (mem_of_getLast? heq))

/-- The last cell, or what comes before the list. -/
lemma getLast?_cons_or (a : P) (as : List P) (before : Option P) :
    (a :: as).getLast?.or before = as.getLast?.or (some a) := by
  rw [getLast?_cons]
  cases as.getLast? <;> rfl

variable {prev prev' : P → Option (Option P)} {before : Option P}

lemma BackLinked.frame (h : BackLinked prev before ps) (heq : ∀ x ∈ ps, prev' x = prev x) :
    BackLinked prev' before ps := by
  induction ps generalizing before with
  | nil => trivial
  | cons p ps ih =>
    obtain ⟨hp, hps⟩ := forall_mem_cons.mp heq
    exact ⟨hp.trans h.1, ih h.2 hps⟩

lemma BackLinked.prev_eq (h : BackLinked prev before (as ++ p :: bs)) :
    prev p = some (as.getLast?.or before) := by
  induction as generalizing before with
  | nil => exact h.1
  | cons a as ih =>
    rw [ih h.2, getLast?_cons_or]

/-- A cell is put in front. -/
lemma BackLinked.push (h : BackLinked prev none ps) (hp : prev' p = some none)
    (hfirst : ∀ b, ps.head? = some b → prev' b = some (some p))
    (hothers : ∀ x ∈ ps, ps.head? ≠ some x → prev' x = prev x) (hnodup : ps.Nodup) :
    BackLinked prev' none (p :: ps) := by
  refine ⟨hp, ?_⟩
  cases ps with
  | nil => trivial
  | cons b ps =>
    refine ⟨hfirst b rfl, h.2.frame fun x hx => hothers x (mem_cons_of_mem b hx) fun heq => ?_⟩
    obtain rfl : b = x := Option.some.inj heq
    exact (nodup_cons.mp hnodup).1 hx

/-- A cell is taken out: the cell behind it leads back to the cell before it. -/
lemma BackLinked.remove (h : BackLinked prev before (as ++ p :: bs))
    (hnodup : (as ++ p :: bs).Nodup)
    (hfirst : ∀ b, bs.head? = some b → prev' b = some (as.getLast?.or before))
    (hothers : ∀ x ∈ as ++ bs, bs.head? ≠ some x → prev' x = prev x) :
    BackLinked prev' before (as ++ bs) := by
  induction as generalizing before with
  | nil =>
    cases bs with
    | nil => trivial
    | cons b bs =>
      obtain ⟨-, -, h⟩ := h
      refine ⟨hfirst b rfl, h.frame fun x hx => ?_⟩
      refine hothers x (mem_cons_of_mem b hx) fun heq => ?_
      obtain rfl : b = x := Option.some.inj heq
      exact (nodup_cons.mp (nodup_cons.mp hnodup).2).1 hx
  | cons a as ih =>
    obtain ⟨hnew, hnodup⟩ := nodup_cons.mp hnodup
    refine ⟨?_, ih h.2 hnodup ?_ fun x hx => hothers x (mem_cons_of_mem a hx)⟩
    · rw [hothers a mem_cons_self, h.1]
      intro heq
      exact hnew (mem_append_right _ (mem_cons_of_mem p (mem_of_head? heq)))
    · intro b hb
      rw [hfirst b hb, getLast?_cons_or]

end TagItGluster.Base
