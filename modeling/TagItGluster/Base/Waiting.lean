import Mathlib.Data.List.Basic

/-!
# Tables of granted and waiting items

Owners ask for items, some of which conflict. An item is granted unless a granted item of another
owner conflicts with it, or an item that waits does and its owner has nothing in the table yet.
What is not granted waits in a queue, or is refused. A pass over the queue asks for everything
that waits once more, in order.

Granted items of different owners never conflict. Behind a pass, everything that waits does so for
a granted item of another owner, or for an item in front of it.
-/

namespace TagItGluster.Base

open List

/-- Which items conflict, and which have the same owner. -/
structure Policy (L : Type) where
  conflict : L → L → Bool
  same : L → L → Bool
  conflict_comm : ∀ x y, conflict x y = conflict y x
  same_refl : ∀ x, same x x = true
  same_comm : ∀ x y, same x y = same y x

/-- The granted items, with the latest in front, and the queue of those that wait. -/
structure Table (L : Type) where
  granted : List L
  waiting : List L

namespace Table

variable {L : Type} (P : Policy L)

/-- A granted item of another owner is in the way. -/
def inWay (t : Table L) (x : L) : Bool := t.granted.any (fun y => P.conflict x y && !P.same x y)

/-- The owner has an item in the table. -/
def hasOwner (t : Table L) (x : L) : Bool := t.granted.any (P.same x) || t.waiting.any (P.same x)

/-- An item that waits would be overtaken by a newcomer. -/
def overtakes (t : Table L) (x : L) : Bool := t.waiting.any (P.conflict x) && !t.hasOwner P x

/-- Ask for an item, and whether to wait for it. -/
def request (x : L) (wait : Bool) (t : Table L) : Bool × Table L :=
  if t.inWay P x || t.overtakes P x then
    (false, if wait then { t with waiting := t.waiting ++ [x] } else t)
  else (true, { t with granted := x :: t.granted })

/-- Ask for an item that has waited; the granted ones are collected. -/
def retry (r : List L × Table L) (x : L) : List L × Table L :=
  match r.2.request P x true with
  | (true, t) => (x :: r.1, t)
  | (false, t) => (r.1, t)

/-- One pass over the queue. -/
def grantWaiting (t : Table L) : List L × Table L :=
  t.waiting.foldl (retry P) ([], { t with waiting := [] })

/-- The first granted item with a property is given back. -/
def release (p : L → Bool) (t : Table L) : Table L := { t with granted := t.granted.eraseP p }

/-- Everything with a property is taken out of the table. -/
def evict (p : L → Bool) (t : Table L) : Table L where
  granted := t.granted.filter (fun x => !p x)
  waiting := t.waiting.filter (fun x => !p x)

/-- As many passes as are asked for. -/
def passes : Nat → Table L → Table L
  | 0, t => t
  | n + 1, t => passes n (t.grantWaiting P).2

/-- Granted items of different owners do not conflict. -/
def Peaceful (t : Table L) : Prop :=
  ∀ x ∈ t.granted, ∀ y ∈ t.granted, P.same x y = false → P.conflict x y = false

/-- Everything that waits does so for a granted item of another owner, or for an item in front. -/
def Queued (t : Table L) : Prop :=
  ∀ pre x post, t.waiting = pre ++ x :: post →
    (∃ y ∈ t.granted, P.same x y = false ∧ P.conflict x y = true) ∨ ∃ y ∈ pre, P.conflict x y = true

variable {P} {t : Table L} {x : L} {wait : Bool}

/-- What is given back leaves the others in peace. -/
lemma Peaceful.subset {t' : Table L} (h : t.Peaceful P) (hsub : t'.granted ⊆ t.granted) :
    t'.Peaceful P :=
  fun x hx y hy => h x (hsub hx) y (hsub hy)

lemma release_peaceful {p : L → Bool} (h : t.Peaceful P) : (t.release p).Peaceful P :=
  h.subset eraseP_subset

lemma evict_peaceful {p : L → Bool} (h : t.Peaceful P) : (t.evict p).Peaceful P :=
  h.subset filter_sublist.subset

/-- Where nothing is to be evicted, the table stays as it is. -/
lemma evict_eq_self {p : L → Bool} (h : (t.granted ++ t.waiting).countP p = 0) :
    t.evict p = t := by
  have hnone : ∀ x ∈ t.granted ++ t.waiting, ¬p x := countP_eq_zero.mp h
  rw [evict, filter_eq_self.mpr, filter_eq_self.mpr]
  · intro x hx
    simpa using hnone x (mem_append_right _ hx)
  · intro x hx
    simpa using hnone x (mem_append_left _ hx)

private lemma inWay_iff : t.inWay P x ↔
    ∃ y ∈ t.granted, P.same x y = false ∧ P.conflict x y = true := by
  simp [inWay, and_comm]

/-- What a request does: the item is granted, with nothing in the way; or it waits, for something
granted or something in front; or it is refused. -/
lemma request_cases (P : Policy L) (x : L) (wait : Bool) (t : Table L) :
    (t.inWay P x = false ∧ t.request P x wait = (true, { t with granted := x :: t.granted })) ∨
      ((t.inWay P x ∨ ∃ y ∈ t.waiting, P.conflict x y) ∧ t.request P x wait =
          (false, if wait then { t with waiting := t.waiting ++ [x] } else t)) := by
  unfold request
  split
  · next h =>
    refine .inr ⟨?_, rfl⟩
    rw [Bool.or_eq_true, overtakes, Bool.and_eq_true, any_eq_true] at h
    exact h.imp_right And.left
  · next h =>
    rw [Bool.not_eq_true, Bool.or_eq_false_iff] at h
    exact .inl ⟨h.1, rfl⟩

lemma request_peaceful (h : t.Peaceful P) : (t.request P x wait).2.Peaceful P := by
  rcases request_cases P x wait t with ⟨hfree, heq⟩ | ⟨-, heq⟩
  · have hnone : ∀ y ∈ t.granted, P.same x y = false → P.conflict x y = false := by
      intro y hy hsame
      by_contra hc
      rw [Bool.not_eq_false] at hc
      exact absurd (inWay_iff.mpr ⟨y, hy, hsame, hc⟩) (by rw [hfree]; exact Bool.false_ne_true)
    rw [heq]
    intro a ha b hb hsame
    rcases mem_cons.mp ha with rfl | ha'
    · rcases mem_cons.mp hb with rfl | hb'
      · exact absurd (P.same_refl b) (by rw [hsame]; exact Bool.false_ne_true)
      · exact hnone b hb' hsame
    · rcases mem_cons.mp hb with rfl | hb'
      · rw [P.conflict_comm]
        rw [P.same_comm] at hsame
        exact hnone a ha' hsame
      · exact h a ha' b hb' hsame
  · rw [heq]
    cases wait with
    | true | false => exact h

private lemma split_snoc {α : Type} {l pre post : List α} {a b : α}
    (h : l ++ [a] = pre ++ b :: post) :
    (∃ post', l = pre ++ b :: post') ∨ (pre = l ∧ b = a) := by
  rcases eq_nil_or_concat post with rfl | ⟨post', c, rfl⟩
  · obtain ⟨rfl, hb⟩ := append_inj' h rfl
    exact .inr ⟨rfl, (List.cons.inj hb).1.symm⟩
  · left
    refine ⟨post', ?_⟩
    rw [concat_eq_append, ← cons_append, ← append_assoc] at h
    exact (append_inj' h rfl).1

lemma request_queued (h : t.Queued P) : (t.request P x wait).2.Queued P := by
  rcases request_cases P x wait t with ⟨-, heq⟩ | ⟨hblocked, heq⟩
  · rw [heq]
    intro pre y post hsplit
    refine (h pre y post hsplit).imp_left ?_
    rintro ⟨z, hz, hrest⟩
    exact ⟨z, mem_cons_of_mem _ hz, hrest⟩
  · rw [heq]
    cases wait with
    | false => exact h
    | true =>
      intro pre y post hsplit
      rcases split_snoc hsplit with ⟨post', hold⟩ | ⟨rfl, rfl⟩
      · exact h pre y post' hold
      · exact hblocked.imp_left inWay_iff.mp

private lemma retry_cases (P : Policy L) (r : List L × Table L) (x : L) :
    retry P r x = ((if (r.2.request P x true).1 then x :: r.1 else r.1),
      (r.2.request P x true).2) := by
  unfold retry
  rcases r.2.request P x true with ⟨_ | _, t⟩ <;> rfl

-- Induction on the queue, for what a request keeps.
private lemma foldl_inv {I : Table L → Prop}
    (hstep : ∀ t x, I t → I (t.request P x true).2) (xs : List L) (r : List L × Table L)
    (h : I r.2) : I (xs.foldl (retry P) r).2 := by
  induction xs generalizing r with
  | nil => exact h
  | cons x xs ih =>
    refine ih (retry P r x) ?_
    rw [retry_cases]
    exact hstep r.2 x h

lemma grantWaiting_peaceful (h : t.Peaceful P) : (t.grantWaiting P).2.Peaceful P :=
  foldl_inv (fun _ _ => request_peaceful) _ _ h

/-- Whatever the table was, behind a pass nothing waits for no reason. -/
lemma grantWaiting_queued (P : Policy L) (t : Table L) : (t.grantWaiting P).2.Queued P := by
  refine foldl_inv (fun _ _ => request_queued) _ _ ?_
  intro pre x post hsplit
  simp at hsplit

lemma passes_peaceful (h : t.Peaceful P) (n : Nat) : (t.passes P n).Peaceful P := by
  induction n generalizing t with
  | zero => exact h
  | succ n ih => exact ih (grantWaiting_peaceful h)

/-- One pass is enough. -/
lemma passes_queued (P : Policy L) (t : Table L) (n : Nat) : (t.passes P (n + 1)).Queued P := by
  induction n generalizing t with
  | zero => exact grantWaiting_queued P t
  | succ n ih => exact ih (t.grantWaiting P).2

variable [DecidableEq L]

/-- A request puts its item into one of the lists, or refuses it. -/
lemma request_count (P : Policy L) (x : L) (t : Table L) (y : L) :
    ((t.request P x true).2.granted.count y =
        t.granted.count y + if (t.request P x true).1 then [x].count y else 0) ∧
      (t.request P x true).2.waiting.count y =
        t.waiting.count y + if (t.request P x true).1 then 0 else [x].count y := by
  rcases request_cases P x true t with ⟨-, heq⟩ | ⟨-, heq⟩
  · simp [heq, count_cons]
  · simp [heq]

-- Induction on the queue.
private lemma foldl_count (xs : List L) (r : List L × Table L) (y : L) :
    (xs.foldl (retry P) r).2.granted.count y + r.1.count y =
        r.2.granted.count y + (xs.foldl (retry P) r).1.count y ∧
      (xs.foldl (retry P) r).2.waiting.count y + (xs.foldl (retry P) r).1.count y =
        r.2.waiting.count y + r.1.count y + xs.count y := by
  induction xs generalizing r with
  | nil => exact ⟨rfl, rfl⟩
  | cons x xs ih =>
    obtain ⟨hgranted, hwaiting⟩ := ih (retry P r x)
    obtain ⟨hg, hw⟩ := request_count P x r.2 y
    rw [retry_cases] at hgranted hwaiting
    rw [foldl_cons, retry_cases]
    cases hr : (r.2.request P x true).1 with
    | true =>
      simp only [hr, if_true, count_cons, count_nil] at hgranted hwaiting hg hw ⊢
      omega
    | false =>
      simp only [hr, Bool.false_eq_true, if_false, count_cons, count_nil]
        at hgranted hwaiting hg hw ⊢
      omega

/-- A pass moves the items that it grants from one list to the other. -/
lemma grantWaiting_count (P : Policy L) (t : Table L) (y : L) :
    (t.grantWaiting P).2.granted.count y = t.granted.count y + (t.grantWaiting P).1.count y ∧
      (t.grantWaiting P).2.waiting.count y + (t.grantWaiting P).1.count y = t.waiting.count y := by
  obtain ⟨hgranted, hwaiting⟩ := foldl_count t.waiting ([], { t with waiting := [] }) y
  simp only [count_nil, Nat.zero_add] at hgranted hwaiting
  exact ⟨hgranted, hwaiting⟩

/-- What is given back is the first item found. -/
lemma release_count {p : L → Bool} {x : L} (h : t.granted.find? p = some x) (y : L) :
    (t.release p).granted.count y + [x].count y = t.granted.count y := by
  obtain ⟨hp, pre, post, hl, hpre⟩ := find?_eq_some_iff_append.mp h
  have hnot : ∀ z ∈ pre, ¬p z := fun z hz => by simpa using hpre z hz
  simp only [release]
  rw [hl, eraseP_append_right _ hnot, eraseP_cons_of_pos hp, count_append, count_append]
  simp only [count_cons, count_nil]
  omega

end Table

end TagItGluster.Base
