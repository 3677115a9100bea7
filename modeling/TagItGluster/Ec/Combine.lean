import Mathlib.Data.Nat.Bitwise
import TagItGluster.Base.Machine
import TagItGluster.Ec.Answers

/-!
# The list of answers to an operation

`ec_combine` compares a new answer with the latest one of each group. It joins the first group that
it can be combined with, which moves in front of the smaller ones, or becomes a group at the end of
the list. A group is given by its latest answer, the number of its answers and the mask of their
bricks. In a round of an operation every brick is sent the operation once at most. Line numbers:
`xlators/cluster/ec/src/ec-data.c`.
-/

namespace TagItGluster.Ec

open Base List

/-- An `ec_cbk_data_t` in the list of an operation. -/
structure Cbk where
  ans : Answer
  count : Nat
  mask : Nat

/-- `ec_cbk_data_allocate` (17). -/
def newCbk (ans : Answer) : Cbk := ⟨ans, 1, 1 <<< ans.idx⟩

/-- The locked section of `ec_combine`, as far as the list of answers goes. -/
def combineInto (fop : Fop) (newcbk : Cbk) (cbkList : List Cbk) : List Cbk :=
  enter (fun cbk => (ecCombineCheck fop newcbk.ans cbk.ans).map fun ans =>
    ⟨ans, newcbk.count + cbk.count, newcbk.mask ||| cbk.mask⟩) Cbk.count newcbk cbkList

/-- The list after some answers. -/
def answerList (fop : Fop) (answers : List Answer) : List Cbk :=
  answers.foldl (fun cbkList ans => combineInto fop (newCbk ans) cbkList) []

/-- The mask of the bricks of some answers. -/
def maskOf (answers : List Answer) : Nat := answers.foldr (fun a m => 1 <<< a.idx ||| m) 0

private lemma testBit_maskOf (answers : List Answer) (i : Nat) :
    (maskOf answers).testBit i ↔ ∃ a ∈ answers, a.idx = i := by
  induction answers with
  | nil => simp [maskOf]
  | cons a answers ih =>
    have hcons : maskOf (a :: answers) = 1 <<< a.idx ||| maskOf answers := rfl
    rw [hcons, Nat.testBit_or, Bool.or_eq_true, ih, Nat.one_shiftLeft, Nat.testBit_two_pow]
    simp

private lemma maskOf_perm {l l' : List Answer} (h : l.Perm l') : maskOf l = maskOf l' := by
  refine Nat.eq_of_testBit_eq fun i => Bool.eq_iff_iff.mpr ?_
  rw [testBit_maskOf, testBit_maskOf]
  simp [h.mem_iff]

/-- The entry of a group. -/
def toCbk (g : ItemGroup Answer) : Cbk := ⟨g.rep, g.members.length, maskOf g.members⟩

/-- `ec_combine` puts answers into groups of those that match. -/
lemma answerList_eq (fop : Fop) (answers : List Answer) :
    answerList fop answers = (groupAll (matching fop) answers).map toCbk := by
  induction answers using List.reverseRecOn with
  | nil => rfl
  | append_singleton answers a ih =>
    have hlist : answerList fop (answers ++ [a]) =
        combineInto fop (newCbk a) (answerList fop answers) := by
      rw [answerList, foldl_append]
      rfl
    have hsingle : toCbk ⟨a, [a]⟩ = newCbk a := by
      simp [toCbk, newCbk, maskOf]
    rw [hlist, ih, groupAll_concat, ← hsingle]
    refine (map_enter toCbk (fun g _ => ?_) fun _ => rfl).symm
    simp only [ItemGroup.take, Option.map_map]
    refine congrArg (fun f => Option.map f _) (funext fun r => ?_)
    simp [toCbk, maskOf, add_comm]

section

variable {answers : List Answer}

/-- The answers are those of different bricks. -/
def FromBricks (answers : List Answer) : Prop := (answers.map Answer.idx).Nodup

section

variable (h : FromBricks answers)
include h

private lemma FromBricks.nodup : answers.Nodup := List.Nodup.of_map _ h

private lemma FromBricks.idx_inj {a b : Answer} (ha : a ∈ answers) (hb : b ∈ answers)
    (hidx : a.idx = b.idx) : a = b :=
  inj_on_of_nodup_map h ha hb hidx

private lemma FromBricks.perm {l : List Answer} (hl : l.Perm answers) :
    FromBricks l := (hl.map _).nodup_iff.mpr h

end

/-- The number of bricks in a mask. -/
def bricksIn (nodes mask : Nat) : Nat := (List.range nodes).countP mask.testBit

/-- A list of answers as it should be: by size, without common bricks, with their numbers, and with
all answers in it. -/
structure Sound (nodes received : Nat) (cbkList : List Cbk) : Prop where
  sorted : cbkList.Pairwise (fun b c => c.count ≤ b.count)
  disjoint : cbkList.Pairwise (fun b c => b.mask &&& c.mask = 0)
  counted : ∀ c ∈ cbkList, c.count = bricksIn nodes c.mask
  complete : (cbkList.map Cbk.count).sum = received

private lemma length_eq_bricksIn {nodes : Nat} (h : FromBricks answers)
    (hlt : ∀ a ∈ answers, a.idx < nodes) : answers.length = bricksIn nodes (maskOf answers) := by
  have hperm : (answers.map Answer.idx).Perm
      ((List.range nodes).filter (maskOf answers).testBit) := by
    refine (perm_ext_iff_of_nodup h (nodup_range.filter _)).mpr fun i => ?_
    rw [mem_filter, testBit_maskOf, mem_range, mem_map]
    constructor
    · rintro ⟨a, ha, rfl⟩
      exact ⟨hlt a ha, a, ha, rfl⟩
    · rintro ⟨-, a, ha, hidx⟩
      exact ⟨a, ha, hidx⟩
  rw [bricksIn, countP_eq_length_filter, ← hperm.length_eq, length_map]

private lemma maskOf_disjoint {l l' : List Answer} (h : ∀ a ∈ l, ∀ b ∈ l', a.idx ≠ b.idx) :
    maskOf l &&& maskOf l' = 0 := by
  refine Nat.eq_of_testBit_eq fun i => ?_
  rw [Nat.testBit_and, Nat.zero_testBit, Bool.and_eq_false_iff]
  by_contra hboth
  rw [not_or, Bool.not_eq_false, Bool.not_eq_false, testBit_maskOf, testBit_maskOf] at hboth
  obtain ⟨⟨a, ha, rfl⟩, b, hb, hidx⟩ := hboth
  exact h a ha b hb hidx.symm

/-- The list is as it should be, if no brick has answered twice. -/
lemma answerList_sound {nodes : Nat} (fop : Fop) (h : FromBricks answers)
    (hlt : ∀ a ∈ answers, a.idx < nodes) :
    Sound nodes answers.length (answerList fop answers) := by
  have hgs := grouped_groupAll (matching fop) answers
  have hsub : ∀ g ∈ groupAll (matching fop) answers, ∀ a ∈ g.members, a ∈ answers :=
    fun g hg a ha => hgs.mem_iff.mpr ⟨g, hg, ha⟩
  rw [answerList_eq]
  refine ⟨?_, ?_, ?_, ?_⟩
  · exact pairwise_map.mpr (groupAll_ranked (matching fop) answers)
  · refine pairwise_map.mpr ?_
    have hflat := (nodup_flatMap.mp (hgs.perm.nodup_iff.mpr h.nodup)).2
    refine List.Pairwise.imp_of_mem (fun {g g'} hg hg' hdisj => ?_) hflat
    refine maskOf_disjoint fun a ha b hb hidx => ?_
    obtain rfl := h.idx_inj (hsub g hg a ha) (hsub g' hg' b hb) hidx
    exact hdisj ha hb
  · refine forall_mem_map.mpr fun g hg => ?_
    refine length_eq_bricksIn ?_ fun a ha => hlt a (hsub g hg a ha)
    exact (hgs.nodup_members h.nodup hg).map_on fun a ha b hb hidx =>
      h.idx_inj (hsub g hg a ha) (hsub g hg b hb) hidx
  · rw [map_map, ← hgs.perm.length_eq, length_flatMap]
    rfl

end

variable {fop : Fop} {answers l l' : List Answer}

/-- The groups of a list, by their bricks and sizes. -/
def groupsOf (cbkList : List Cbk) : List (Nat × Nat) := cbkList.map fun c => (c.mask, c.count)

/-- The size of the largest group. -/
def largest (cbkList : List Cbk) : Nat := (cbkList.map Cbk.count).foldr max 0

/-- Between answers of different bricks, `ec_combine_check` is symmetric and transitive. -/
structure Comparable (fop : Fop) (answers : List Answer) : Prop where
  symm : ∀ a ∈ answers, ∀ b ∈ answers, a.idx ≠ b.idx →
    (ecCombineCheck fop a b).isSome = true → (ecCombineCheck fop b a).isSome = true
  trans : ∀ a ∈ answers, ∀ b ∈ answers, ∀ c ∈ answers,
    a.idx ≠ b.idx → b.idx ≠ c.idx → a.idx ≠ c.idx → (ecCombineCheck fop a b).isSome = true →
      (ecCombineCheck fop b c).isSome = true → (ecCombineCheck fop a c).isSome = true

instance (answers : List Answer) : Decidable (FromBricks answers) :=
  inferInstanceAs (Decidable (List.Nodup _))

private lemma comparable_iff (h : FromBricks answers) :
    Comparable fop answers ↔ (matching fop).Classes answers := by
  have hne : ∀ {a b}, a ∈ answers → b ∈ answers → a ≠ b → a.idx ≠ b.idx :=
    fun ha hb hab hidx => hab (h.idx_inj ha hb hidx)
  have hne' : ∀ {a b : Answer}, a.idx ≠ b.idx → a ≠ b := fun hidx hab => hidx (congrArg _ hab)
  constructor
  · intro hc
    refine ⟨fun a ha b hb hab => hc.symm a ha b hb (hne ha hb hab), ?_⟩
    exact fun a ha b hb c hc' hab hbc hac =>
      hc.trans a ha b hb c hc' (hne ha hb hab) (hne hb hc' hbc) (hne ha hc' hac)
  · intro hc
    refine ⟨fun a ha b hb hab => hc.symm a ha b hb (hne' hab), ?_⟩
    exact fun a ha b hb c hc' hab hbc hac =>
      hc.trans a ha b hb c hc' (hne' hab) (hne' hbc) (hne' hac)

/-- A brick in the mask of a group has an answer in the group. -/
lemma mem_of_testBit (h : FromBricks l) {gs : List (ItemGroup Answer)}
    (hgs : Grouped (matching fop) gs l) {g : ItemGroup Answer} (hg : g ∈ gs) {a : Answer}
    (ha : a ∈ l) (hbit : (maskOf g.members).testBit a.idx) : a ∈ g.members := by
  obtain ⟨b, hb, hidx⟩ := (testBit_maskOf _ _).mp hbit
  rwa [h.idx_inj ha (hgs.mem_iff.mpr ⟨g, hg, hb⟩) hidx.symm]

private lemma nodup_groupsOf (fop : Fop) (h : FromBricks l) :
    (groupsOf (answerList fop l)).Nodup := by
  have hgs := grouped_groupAll (matching fop) l
  -- A group has an answer, which is in no other group.
  have hdistinct : (groupAll (matching fop) l).Nodup := by
    refine List.Pairwise.imp_of_mem (fun {g g'} hg hg' hdisj heq => ?_)
      (nodup_flatMap.mp (hgs.perm.nodup_iff.mpr h.nodup)).2
    obtain ⟨a, as, hmem, -⟩ := hgs.latest g hg
    have ha : a ∈ g.members := by rw [hmem]; exact mem_cons_self
    exact hdisj ha (heq ▸ ha)
  rw [answerList_eq, groupsOf, map_map]
  refine hdistinct.map_on fun g hg g' hg' heq => ?_
  obtain ⟨a, as, hmem, -⟩ := hgs.latest g hg
  have ha : a ∈ g.members := by rw [hmem]; exact mem_cons_self
  have hmask : maskOf g.members = maskOf g'.members := congrArg Prod.fst heq
  refine hgs.eq_of_mem h.nodup hg hg' ha (mem_of_testBit h hgs hg' (hgs.mem_iff.mpr ⟨g, hg, ha⟩) ?_)
  rw [← hmask, testBit_maskOf]
  exact ⟨a, ha, rfl⟩

private lemma groupsOf_subset
    (h : SameGroups (groupAll (matching fop) l) (groupAll (matching fop) l')) :
    groupsOf (answerList fop l) ⊆ groupsOf (answerList fop l') := by
  intro p hp
  rw [answerList_eq, groupsOf, map_map] at hp ⊢
  obtain ⟨g, hg, rfl⟩ := mem_map.mp hp
  obtain ⟨g', hg', hperm⟩ := h g hg
  refine mem_map.mpr ⟨g', hg', ?_⟩
  simp [toCbk, hperm.length_eq, maskOf_perm hperm]

/-- Answers with the same masks are together in the same way. -/
lemma together_of_groupsOf (h : FromBricks l') (hmem : ∀ a, a ∈ l ↔ a ∈ l')
    (hsub : groupsOf (answerList fop l) ⊆ groupsOf (answerList fop l')) {a b : Answer}
    (htog : Together (groupAll (matching fop) l) a b) :
    Together (groupAll (matching fop) l') a b := by
  obtain ⟨g, hg, ha, hb⟩ := htog
  have hgs := grouped_groupAll (matching fop) l
  have hgs' := grouped_groupAll (matching fop) l'
  have hentry : (maskOf g.members, g.members.length) ∈ groupsOf (answerList fop l') := by
    refine hsub ?_
    rw [answerList_eq, groupsOf, map_map]
    exact mem_map.mpr ⟨g, hg, rfl⟩
  rw [answerList_eq, groupsOf, map_map] at hentry
  obtain ⟨g', hg', heq⟩ := mem_map.mp hentry
  have hmask : maskOf g'.members = maskOf g.members := congrArg Prod.fst heq
  have hin : ∀ c ∈ g.members, c ∈ g'.members := by
    intro c hc
    refine mem_of_testBit h hgs' hg' ((hmem c).mp (hgs.mem_iff.mpr ⟨g, hg, hc⟩)) ?_
    rw [hmask, testBit_maskOf]
    exact ⟨c, hc, rfl⟩
  exact ⟨g', hg', hin a ha, hin b hb⟩

/-- The order in which the answers of different bricks arrive makes no difference to their groups
if and only if `ec_combine_check` is symmetric and transitive between them. -/
theorem order_free_iff (fop : Fop) (answers : List Answer) (h : FromBricks answers) :
    (∀ l l', l.Perm answers → l'.Perm answers →
      (groupsOf (answerList fop l)).Perm (groupsOf (answerList fop l')) ∧
        largest (answerList fop l) = largest (answerList fop l')) ↔ Comparable fop answers := by
  rw [comparable_iff h]
  constructor
  · intro hfree
    refine classes_of_orderFree h.nodup fun l l' hl hl' a b htog => ?_
    exact together_of_groupsOf (h.perm hl') (fun a => hl.mem_iff.trans hl'.mem_iff.symm)
      (hfree l l' hl hl').1.subset htog
  intro hclasses l l' hl hl'
  have hperm : (groupsOf (answerList fop l)).Perm (groupsOf (answerList fop l')) := by
    refine (perm_ext_iff_of_nodup (nodup_groupsOf fop (h.perm hl))
      (nodup_groupsOf fop (h.perm hl'))).mpr fun p => ⟨fun hp => ?_, fun hp => ?_⟩
    · exact groupsOf_subset (sameGroups_of_classes hclasses h.nodup hl hl') hp
    · exact groupsOf_subset (sameGroups_of_classes hclasses h.nodup hl' hl) hp
  refine ⟨hperm, ?_⟩
  have hcounts : ∀ cbkList : List Cbk, cbkList.map Cbk.count = (groupsOf cbkList).map Prod.snd :=
    fun cbkList => by rw [groupsOf, map_map]; rfl
  rw [largest, largest, hcounts, hcounts]
  exact (hperm.map _).foldr_eq 0

/-- A successful answer of a brick with extra data. -/
def sampleAnswer (idx : Nat) (xdata : Option RawDict) : Answer where
  idx := idx
  opRet := 0
  opErrno := 0
  xdata := xdata
  dict := none
  fd := 0
  iatt := fun _ => ⟨0, 0, .ifreg, 0, 0, 0, 0, 0, 0, 0, (0, 0), (0, 0), (0, 0)⟩
  vector := []
  statvfs := ⟨0, 0, 0, 0, 0, 0, 0, 0, 0, 0⟩
  flock := ⟨0, 0, 0, 0, 0, []⟩

/-- Extra data with one key. -/
def oneKey (key : String) (value : List UInt8) : RawDict := AList.singleton key.toList value

/-- Two answers that agree and one that does not. -/
theorem order_free_three_bricks :
    let fop : Fop := ⟨.flush, .flush, []⟩
    let answers := [sampleAnswer 0 (some (oneKey "user.a" [1])),
      sampleAnswer 1 (some (oneKey "user.a" [2])), sampleAnswer 2 (some (oneKey "user.a" [1]))]
    (∀ l l', l.Perm answers → l'.Perm answers →
      (groupsOf (answerList fop l)).Perm (groupsOf (answerList fop l')) ∧
        largest (answerList fop l) = largest (answerList fop l')) ↔ Comparable fop answers :=
  order_free_iff _ _ (by decide)

/-- Of two answers, one has no extra data, and the other one only a key that is not compared. If
that one comes second, they are combined; if it comes first, they are not. -/
theorem absent_xdata_first_or_last :
    let fop : Fop := ⟨.flush, .flush, []⟩
    let absent := sampleAnswer 0 none
    let ignorable := sampleAnswer 1 (some (oneKey "glusterfs.open-fd-count" [0]))
    FromBricks [absent, ignorable] ∧ groupsOf (answerList fop [absent, ignorable]) = [(3, 2)] ∧
      groupsOf (answerList fop [ignorable, absent]) = [(2, 1), (1, 1)] := by
  decide

end TagItGluster.Ec
