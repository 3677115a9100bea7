import Mathlib.Algebra.GroupWithZero.Nat
import Mathlib.Data.List.Nodup
import TagItGluster.Base.Linked
import TagItGluster.Base.Machine

/-!
# The table of file descriptors

The free entries of a table are chained through `next_free`, and `first_free` leads to the first
one. An entry is taken from the front of the chain and put back there; a full table is expanded by a
chain of new entries. `__gf_fd_fdtable_get_all_fds` chains all entries again and forgets
`first_free`, so what is in front of it in the new chain is lost.

Memory is an array or nothing. An access outside of an array gives no state. Line numbers:
`libglusterfs/src/fd.c`.
-/

namespace TagItGluster.Libglusterfs

open Base List Option

/-- The values of `next_free` and `first_free`: `GF_FDTABLE_END`, `GF_FDENTRY_ALLOCATED` or an
index. -/
inductive NextFree where
  | tableEnd
  | allocated
  | entry (i : Nat)
deriving DecidableEq

/-- `fdentry_t`. -/
structure FdEntry where
  fd : Option Nat
  nextFree : NextFree
deriving DecidableEq

/-- An entry from `GF_CALLOC`. -/
def FdEntry.zero : FdEntry := ⟨none, .entry 0⟩

/-- `fdtable_t`. -/
structure FdTable where
  maxFds : Nat
  fdentries : Option (List FdEntry)
  firstFree : NextFree
deriving DecidableEq

/-- The loop of `gf_roundup_next_power_of_two`, which ends after 31 rounds. -/
def roundupLoop (nr : Nat) : Nat → Nat → Nat
  | 0, result => result
  | rounds + 1, result => if result ≤ nr then roundupLoop nr rounds (result * 2) else result

/-- `gf_roundup_next_power_of_two` (common-utils.c:2528). -/
def gfRoundupNextPowerOfTwo (nr : Nat) : Nat := roundupLoop nr 31 1

/-- The entries in a kibibyte. -/
def entriesPerKib : Nat := 64

/-- Set `next_free` of one entry. -/
def setNextFree (i : Nat) (next : NextFree) (entries : List FdEntry) : List FdEntry :=
  entries.modify i fun e => { e with nextFree := next }

/-- `gf_fd_chain_fd_entries` (32). -/
def gfFdChainFdEntries (startidx endcount : Nat) (entries : List FdEntry) :
    Option (List FdEntry) :=
  if startidx < endcount ∧ endcount ≤ entries.length then
    some (setNextFree (endcount - 1) .tableEnd
      (runAll (fun i es => setNextFree i (.entry (i + 1)) es)
        (List.range' startidx (endcount - 1 - startidx)) entries))
  else none

namespace FdTable

/-- The size that a table is expanded to, an unsigned number of 32 bits. -/
def expandedSize (nr : Nat) : Nat :=
  gfRoundupNextPowerOfTwo (nr / entriesPerKib + 1) * entriesPerKib % 2 ^ 32

/-- `memcpy` of the old entries; the number of bytes is one of 32 bits, and an entry has 16. -/
def copyEntries (oldmax nr : Nat) (oldfds : Option (List FdEntry)) : Option (List FdEntry) :=
  let copied := (oldfds.getD []).take (oldmax * 16 % 2 ^ 32 / 16)
  if copied.length ≤ nr then some (copied ++ List.replicate (nr - copied.length) .zero) else none

/-- `gf_fd_fdtable_expand` (57); the second component says whether there was memory. -/
def gfFdFdtableExpand (nr : Nat) (alloc : Bool) (t : FdTable) : Option (FdTable × Bool) :=
  if alloc then
    (copyEntries t.maxFds (expandedSize nr) t.fdentries).bind fun entries =>
      (gfFdChainFdEntries t.maxFds (expandedSize nr) entries).map fun entries =>
        (⟨expandedSize nr, some entries, .entry t.maxFds⟩, true)
  else some ({ t with fdentries := none }, false)

/-- `gf_fd_fdtable_alloc` (106). -/
def gfFdFdtableAlloc (alloc : Bool) : Option FdTable :=
  (gfFdFdtableExpand 0 alloc ⟨0, none, .entry 0⟩).map Prod.fst

/-- `__gf_fd_fdtable_get_all_fds` (127). -/
def gfFdFdtableGetAllFds (alloc : Bool) (t : FdTable) : Option FdTable :=
  if alloc then
    (gfFdChainFdEntries 0 t.maxFds (List.replicate t.maxFds .zero)).map fun entries =>
      { t with fdentries := some entries }
  else some { t with fdentries := none }

/-- The first entry of the chain is taken. -/
def take (i fdptr : Nat) (t : FdTable) : Option (FdTable × Option Nat) :=
  t.fdentries.bind fun entries => entries[i]?.map fun e =>
    ({ t with
      fdentries := some (entries.set i ⟨some fdptr, .allocated⟩)
      firstFree := e.nextFree }, some i)

/-- `gf_fd_unused_get` (253), with the attempts that are left. -/
def gfFdUnusedGet (fdptr : Nat) (alloc : Bool) (attempts : Nat) (t : FdTable) :
    Option (FdTable × Option Nat) :=
  match t.firstFree, attempts with
  | .entry i, _ => t.take i fdptr
  | .tableEnd, attempts + 1 =>
    (t.gfFdFdtableExpand (t.maxFds + 1) alloc).bind fun r =>
      if r.2 then gfFdUnusedGet fdptr alloc attempts r.1 else some (r.1, none)
  | .tableEnd, 0 => some (t, none)
  | .allocated, _ => none

/-- The entry is put in front of the chain. -/
def giveBack (i : Nat) (entries : List FdEntry) (t : FdTable) : FdTable :=
  { t with fdentries := some (entries.set i ⟨none, t.firstFree⟩), firstFree := .entry i }

/-- `gf_fd_put` (313); an entry that is not allocated is left alone. -/
def gfFdPut (fd : Int) (t : FdTable) : Option (FdTable × Option Nat) :=
  if fd < 0 ∨ t.maxFds ≤ fd.toNat then some (t, none)
  else t.fdentries.bind fun entries => entries[fd.toNat]?.map fun e =>
    if e.nextFree = .allocated then (t.giveBack fd.toNat entries, some fd.toNat) else (t, none)

/-- `gf_fdptr_put` (361), for an `fd` that is not null. -/
def gfFdptrPut (fd : Nat) (t : FdTable) : Option (FdTable × Option Nat) :=
  if t.maxFds = 0 then some (t, none)
  else t.fdentries.map fun entries =>
    match entries.findIdx? (fun e => e.fd = some fd) with
    | none => (t, none)
    | some i =>
      if (entries[i]?.map FdEntry.nextFree) = some .allocated then (t.giveBack i entries, some i)
      else (t, none)

end FdTable

/-- A table, and the indices that have been handed out and not been put back. -/
structure FdState where
  table : FdTable
  inUse : List Nat
deriving DecidableEq

/-- An operation on a table, with what `GF_CALLOC` does. -/
inductive FdOp where
  | unusedGet (fdptr : Nat) (alloc : Bool)
  | put (fd : Int)
  | fdptrPut (fd : Nat)
  | expand (alloc : Bool)
  | getAllFds (alloc : Bool)
deriving DecidableEq

namespace FdState

/-- One operation. -/
def apply (s : FdState) : FdOp → Option FdState
  | .unusedGet fdptr alloc =>
    (s.table.gfFdUnusedGet fdptr alloc 2).map fun r => ⟨r.1, r.2.toList ++ s.inUse⟩
  | .put fd => (s.table.gfFdPut fd).map fun r => ⟨r.1, r.2.elim s.inUse s.inUse.erase⟩
  | .fdptrPut fd => (s.table.gfFdptrPut fd).map fun r => ⟨r.1, r.2.elim s.inUse s.inUse.erase⟩
  | .expand alloc =>
    (s.table.gfFdFdtableExpand (s.table.maxFds + 1) alloc).map fun r => ⟨r.1, s.inUse⟩
  | .getAllFds alloc => (s.table.gfFdFdtableGetAllFds alloc).map fun t => ⟨t, []⟩

/-- Operations follow each other until one of them leaves the arrays. -/
def step (op : FdOp) (s : Option FdState) : Option FdState := s.bind (·.apply op)

/-- A new table. -/
def init : Option FdState := (FdTable.gfFdFdtableAlloc true).map fun t => ⟨t, []⟩

end FdState

/-! ### Chains -/

/-- Where a value of `next_free` leads: to the end of the chain or to an entry. -/
def NextFree.target : NextFree → Option (Option Nat)
  | .tableEnd => some none
  | .allocated => none
  | .entry i => some (some i)

/-- The pointers of the chain. -/
def nextIn (entries : List FdEntry) (i : Nat) : Option (Option Nat) :=
  entries[i]?.bind (·.nextFree.target)

private lemma getElem?_setNextFree (i j : Nat) (next : NextFree) (entries : List FdEntry) :
    (setNextFree i next entries)[j]? =
      entries[j]?.map fun e => if i = j then { e with nextFree := next } else e := by
  rw [setNextFree, getElem?_modify]
  split <;> simp

/-- The loop of `gf_fd_chain_fd_entries`. -/
lemma chainLoop_spec (entries : List FdEntry) (first n : Nat) :
    let es := runAll (fun i es => setNextFree i (.entry (i + 1)) es) (List.range' first n) entries
    es.length = entries.length ∧ ∀ j, es[j]? = entries[j]?.map fun e =>
      if first ≤ j ∧ j < first + n then { e with nextFree := .entry (j + 1) } else e := by
  apply runAll_range' (fun i es => setNextFree i (.entry (i + 1)) es) fun k es =>
    es.length = entries.length ∧ ∀ j, es[j]? = entries[j]?.map fun e =>
      if first ≤ j ∧ j < k then { e with nextFree := .entry (j + 1) } else e
  · refine ⟨rfl, fun j => ?_⟩
    have hnot : ¬(first ≤ j ∧ j < first) := by omega
    simp [hnot]
  · intro i hle hlt es ⟨hlen, hes⟩
    refine ⟨(length_modify ..).trans hlen, fun j => ?_⟩
    rw [getElem?_setNextFree, hes, Option.map_map]
    congr 1
    funext e
    dsimp only [Function.comp]
    by_cases hij : i = j
    · subst hij
      rw [if_pos rfl, if_neg (by omega), if_pos (by omega)]
    · rw [if_neg hij]
      by_cases hold : first ≤ j ∧ j < i
      · rw [if_pos hold, if_pos (by omega)]
      · rw [if_neg hold, if_neg (by omega)]

variable {entries : List FdEntry} {nr : Nat}

/-- The entries from `startidx` on are chained, and those in front of it stay. -/
lemma chain_spec {startidx endcount : Nat} (hlt : startidx < endcount)
    (hlen : entries.length = endcount) :
    ∃ es, gfFdChainFdEntries startidx endcount entries = some es ∧ es.length = endcount ∧
      (∀ j < startidx, es[j]? = entries[j]?) ∧
      Linked (nextIn es) (some startidx) (List.range' startidx (endcount - startidx)) := by
  obtain ⟨hlength, hloop⟩ := chainLoop_spec entries startidx (endcount - 1 - startidx)
  refine ⟨_, if_pos ⟨hlt, by omega⟩, ?_, ?_, ?_⟩
  · rw [setNextFree, length_modify, hlength, hlen]
  · intro j hj
    rw [getElem?_setNextFree, hloop, Option.map_map]
    have hid : ((fun e : FdEntry =>
          if endcount - 1 = j then { e with nextFree := .tableEnd } else e) ∘
        fun e => if startidx ≤ j ∧ j < startidx + (endcount - 1 - startidx) then
          { e with nextFree := .entry (j + 1) } else e) = id := by
      funext e
      dsimp only [Function.comp]
      rw [if_neg (by omega), if_neg (by omega)]
      rfl
    rw [hid, Option.map_id_fun, id]
  · have hn : endcount - startidx = endcount - 1 - startidx + 1 := by omega
    rw [hn]
    apply linked_range'
    · intro i hle hlti
      have hin : i < entries.length := by omega
      rw [nextIn, getElem?_setNextFree, hloop, getElem?_eq_getElem hin]
      simp [hle, hlti, NextFree.target, show ¬endcount - 1 = i by omega]
    · have hin : endcount - 1 < entries.length := by omega
      rw [show startidx + (endcount - 1 - startidx) = endcount - 1 by omega, nextIn,
        getElem?_setNextFree, hloop, getElem?_eq_getElem hin]
      simp [NextFree.target]

/-! ### Expansion -/

private lemma roundupLoop_spec {rounds result : Nat} (henough : nr < result * 2 ^ rounds)
    (hle : result ≤ 2 * nr) :
    nr < roundupLoop nr rounds result ∧ roundupLoop nr rounds result ≤ 2 * nr := by
  induction rounds generalizing result with
  | zero => exact ⟨by simpa [roundupLoop] using henough, hle⟩
  | succ rounds ih =>
    rw [roundupLoop]
    split
    · apply ih
      · rwa [mul_assoc, ← pow_succ']
      · omega
    · exact ⟨by omega, hle⟩

/-- A table that is not too large grows, and the size fits into 32 bits. -/
lemma lt_expandedSize (h : nr ≤ 2 ^ 28) : nr < FdTable.expandedSize nr := by
  obtain ⟨hlt, hle⟩ : nr / 64 + 1 < gfRoundupNextPowerOfTwo (nr / 64 + 1) ∧
      gfRoundupNextPowerOfTwo (nr / 64 + 1) ≤ 2 * (nr / 64 + 1) := by
    apply roundupLoop_spec
    · omega
    · omega
  rw [FdTable.expandedSize, entriesPerKib]
  omega

/-- The old entries are copied, and the new ones are chained. -/
lemma expand_spec {t : FdTable} (hentries : t.fdentries.getD [] = entries)
    (hlen : entries.length = t.maxFds) (hle : t.maxFds ≤ nr) (hsmall : nr ≤ 2 ^ 28)
    (hmax : t.maxFds < 2 ^ 28) :
    ∃ n es, t.gfFdFdtableExpand nr true = some (⟨n, some es, .entry t.maxFds⟩, true) ∧
      t.maxFds < n ∧ es.length = n ∧ (∀ j < t.maxFds, es[j]? = entries[j]?) ∧
      Linked (nextIn es) (some t.maxFds) (List.range' t.maxFds (n - t.maxFds)) := by
  have hgrows := lt_expandedSize hsmall
  generalize hn : FdTable.expandedSize nr = n at hgrows
  have hcopy : FdTable.copyEntries t.maxFds n t.fdentries =
      some (entries ++ List.replicate (n - t.maxFds) .zero) := by
    rw [FdTable.copyEntries, hentries, show t.maxFds * 16 % 2 ^ 32 / 16 = entries.length by omega,
      take_length, hlen]
    exact if_pos (by omega)
  have hall : (entries ++ List.replicate (n - t.maxFds) FdEntry.zero).length = n := by
    simp only [length_append, length_replicate]
    omega
  obtain ⟨es, hes, hlength, hold, hlinked⟩ := chain_spec (show t.maxFds < n by omega) hall
  refine ⟨n, es, ?_, by omega, hlength, fun j hj => ?_, hlinked⟩
  · simp [FdTable.gfFdFdtableExpand, hn, hcopy, hes]
  · rw [hold j hj, getElem?_append_left (by omega)]

namespace FdState

/-- The chain from `first_free` reaches the entries that are not in use, each of them once. -/
structure Chained (s : FdState) (entries : List FdEntry) (path : List Nat) : Prop where
  stored : s.table.fdentries = some entries
  length : entries.length = s.table.maxFds
  linked : ∃ start, s.table.firstFree.target = some start ∧ Linked (nextIn entries) start path
  nodup : path.Nodup
  free : ∀ i, i ∈ path ↔ i < s.table.maxFds ∧ i ∉ s.inUse
  once : s.inUse.Nodup
  used : ∀ i ∈ s.inUse, entries[i]?.map FdEntry.nextFree = some .allocated

/-- What the operations have to find: memory where they ask for it, a table that is not too large
and full where it is expanded, and a chain that starts with the first entry where it is replaced. -/
def Proper : FdOp → FdState → Prop
  | .unusedGet _ alloc, s =>
    s.table.firstFree = .tableEnd → alloc = true ∧ s.table.maxFds < 2 ^ 28
  | .put _, _ => True
  | .fdptrPut _, _ => True
  | .expand alloc, s =>
    s.table.firstFree = .tableEnd ∧ alloc = true ∧ s.table.maxFds < 2 ^ 28
  | .getAllFds alloc, s => alloc = true ∧ s.table.firstFree = .entry 0

instance : ∀ op s, Decidable (Proper op s)
  | .unusedGet _ alloc, s => inferInstanceAs (Decidable
    (s.table.firstFree = .tableEnd → alloc = true ∧ s.table.maxFds < 2 ^ 28))
  | .put _, _ => .isTrue trivial
  | .fdptrPut _, _ => .isTrue trivial
  | .expand alloc, s => inferInstanceAs (Decidable
    (s.table.firstFree = .tableEnd ∧ alloc = true ∧ s.table.maxFds < 2 ^ 28))
  | .getAllFds alloc, s =>
    inferInstanceAs (Decidable (alloc = true ∧ s.table.firstFree = .entry 0))

namespace Chained

variable {s : FdState} {path : List Nat} {i : Nat}

section

variable (h : s.Chained entries path)
include h

private lemma lt_of_used (hi : i ∈ s.inUse) : i < s.table.maxFds := by
  have hused := h.used i hi
  rw [← h.length]
  by_contra hnot
  rw [getElem?_eq_none (by omega)] at hused
  cases hused

/-- The entries that are in use are those that are marked. -/
lemma used_iff (i : Nat) : i ∈ s.inUse ↔ entries[i]?.map FdEntry.nextFree = some .allocated := by
  constructor
  · exact h.used i
  intro hmark
  obtain ⟨e, he, hnext⟩ := map_eq_some_iff.mp hmark
  by_contra hnot
  obtain ⟨start, -, hlinked⟩ := h.linked
  have hlt := (List.getElem?_eq_some_iff.mp he).1
  obtain ⟨q, hq⟩ := hlinked.exists_next ((h.free i).mpr ⟨h.length ▸ hlt, hnot⟩)
  simp [nextIn, he, hnext, NextFree.target] at hq

private lemma path_nil (hfull : s.table.firstFree = .tableEnd) : path = [] := by
  obtain ⟨start, hstart, hlinked⟩ := h.linked
  rw [hfull] at hstart
  cases hstart
  cases path with
  | nil => rfl
  | cons i path => cases hlinked.1

/-- The first entry of the chain is handed out. -/
lemma take (hfirst : s.table.firstFree = .entry i) (fdptr : Nat) :
    ∃ t es rest, s.table.take i fdptr = some (t, some i) ∧ i ∉ s.inUse ∧
      Chained ⟨t, i :: s.inUse⟩ es rest := by
  obtain ⟨start, hstart, hlinked⟩ := h.linked
  rw [hfirst] at hstart
  cases hstart
  cases path with
  | nil => cases hlinked
  | cons j rest =>
    obtain ⟨heq, q, hq, hrest⟩ := hlinked
    cases heq
    obtain ⟨hlt, hnot⟩ := (h.free i).mp mem_cons_self
    obtain ⟨hnew, hnodup⟩ := nodup_cons.mp h.nodup
    rw [← h.length] at hlt
    have hentry := getElem?_eq_getElem hlt
    rw [nextIn, hentry] at hq
    refine ⟨⟨s.table.maxFds, some (entries.set i ⟨some fdptr, .allocated⟩), entries[i].nextFree⟩,
      entries.set i ⟨some fdptr, .allocated⟩, rest, ?_, hnot, rfl, ?_, ⟨q, hq, ?_⟩, hnodup, ?_,
      ?_, ?_⟩
    · simp [FdTable.take, h.stored, hentry]
    · rw [length_set, h.length]
    · apply hrest.frame
      intro j hj
      have hne : i ≠ j := by
        rintro rfl
        exact hnew hj
      rw [nextIn, getElem?_set_ne hne, nextIn]
    · intro j
      have hfree := h.free j
      rw [mem_cons] at hfree ⊢
      constructor
      · intro hj
        obtain ⟨hlt, hunused⟩ := hfree.mp (.inr hj)
        refine ⟨hlt, not_or.mpr ⟨?_, hunused⟩⟩
        rintro rfl
        exact hnew hj
      · rintro ⟨hlt, hunused⟩
        obtain ⟨hne, hunused⟩ := not_or.mp hunused
        exact (hfree.mpr ⟨hlt, hunused⟩).resolve_left hne
    · exact nodup_cons.mpr ⟨hnot, h.once⟩
    · intro j hj
      by_cases hij : i = j
      · subst hij
        rw [getElem?_set_self hlt]
        rfl
      · rw [getElem?_set_ne hij]
        exact h.used j ((mem_cons.mp hj).resolve_left (Ne.symm hij))

/-- An entry is put in front of the chain. -/
lemma giveBack (hi : i ∈ s.inUse) : Chained ⟨s.table.giveBack i entries, s.inUse.erase i⟩
      (entries.set i ⟨none, s.table.firstFree⟩) (i :: path) := by
  obtain ⟨start, hstart, hlinked⟩ := h.linked
  have hlt := h.lt_of_used hi
  have hnew : i ∉ path := by
    intro hmem
    exact ((h.free i).mp hmem).2 hi
  refine ⟨rfl, ?_, ⟨some i, rfl, rfl, start, ?_, ?_⟩, nodup_cons.mpr ⟨hnew, h.nodup⟩, ?_,
    h.once.erase i, ?_⟩
  · rw [length_set, h.length]
    rfl
  · rw [nextIn, getElem?_set_self (by rwa [h.length])]
    exact hstart
  · apply hlinked.frame
    intro j hj
    have hne : i ≠ j := by
      rintro rfl
      exact hnew hj
    rw [nextIn, getElem?_set_ne hne, nextIn]
  · intro j
    rw [mem_cons, h.free, h.once.mem_erase_iff]
    constructor
    · rintro (rfl | ⟨hlt, hunused⟩)
      · exact ⟨hlt, fun hused => hused.1 rfl⟩
      · exact ⟨hlt, fun hused => hunused hused.2⟩
    · rintro ⟨hlt, hunused⟩
      by_cases hji : j = i
      · exact .inl hji
      · exact .inr ⟨hlt, fun hused => hunused ⟨hji, hused⟩⟩
  · intro j hj
    obtain ⟨hne, hused⟩ := h.once.mem_erase_iff.mp hj
    rw [getElem?_set_ne (Ne.symm hne)]
    exact h.used j hused

/-- The chain of a full table becomes the one of the new entries. -/
lemma expand (hfull : s.table.firstFree = .tableEnd) (hsmall : s.table.maxFds < 2 ^ 28) :
    ∃ t es p, s.table.gfFdFdtableExpand (s.table.maxFds + 1) true = some (t, true) ∧
      t.firstFree = .entry s.table.maxFds ∧ Chained ⟨t, s.inUse⟩ es p := by
  have hentries : s.table.fdentries.getD [] = entries := by
    rw [h.stored, getD_some]
  obtain ⟨n, es, hexpand, hgrows, hlength, hold, hlinked⟩ :=
    expand_spec hentries h.length (Nat.le_succ _) hsmall hsmall
  have hnil := h.path_nil hfull
  subst hnil
  refine ⟨_, es, _, hexpand, rfl, rfl, hlength, ⟨_, rfl, hlinked⟩, nodup_range' 1, ?_, h.once, ?_⟩
  · intro i
    rw [mem_range'_1]
    dsimp only
    have hfree := h.free i
    simp only [not_mem_nil, false_iff, not_and, not_not] at hfree
    constructor
    · rintro ⟨hle, hlt⟩
      refine ⟨by omega, fun hused => ?_⟩
      have := h.lt_of_used hused
      omega
    · rintro ⟨hlt, hunused⟩
      have hle : s.table.maxFds ≤ i := by
        by_contra hnot
        exact hunused (hfree (by omega))
      omega
  · intro i hi
    rw [hold i (h.lt_of_used hi)]
    exact h.used i hi

/-- All entries are chained again. -/
lemma getAllFds (hfirst : s.table.firstFree = .entry 0) :
    ∃ t es p, s.table.gfFdFdtableGetAllFds true = some t ∧ Chained ⟨t, []⟩ es p := by
  obtain ⟨start, hstart, hlinked⟩ := h.linked
  rw [hfirst] at hstart
  cases hstart
  have hpos : 0 < s.table.maxFds := by
    apply ((h.free 0).mp _).1
    exact mem_of_head? hlinked.start_eq.symm
  obtain ⟨es, hes, hlength, -, hlinked⟩ :=
    chain_spec hpos (length_replicate (a := FdEntry.zero))
  refine ⟨{ s.table with fdentries := some es }, es, _, ?_, rfl, hlength, ⟨some 0, ?_, hlinked⟩,
    nodup_range' 1, ?_, nodup_nil, fun i hi => by cases hi⟩
  · simp [FdTable.gfFdFdtableGetAllFds, hes]
  · rw [hfirst]
    rfl
  · intro i
    simp

/-- `gf_fd_unused_get` hands out an index that is not in use. -/
lemma unusedGet {alloc : Bool} (fdptr : Nat)
    (hproper : s.table.firstFree = .tableEnd → alloc ∧ s.table.maxFds < 2 ^ 28) :
    ∃ t i es p, s.table.gfFdUnusedGet fdptr alloc 2 = some (t, some i) ∧ i ∉ s.inUse ∧
      Chained ⟨t, i :: s.inUse⟩ es p := by
  cases hfirst : s.table.firstFree with
  | entry i =>
    obtain ⟨t, es, rest, htake, hnot, hchained⟩ := h.take hfirst fdptr
    refine ⟨t, i, es, rest, ?_, hnot, hchained⟩
    rw [FdTable.gfFdUnusedGet.eq_def, hfirst]
    exact htake
  | tableEnd =>
    obtain ⟨halloc, hsmall⟩ := hproper hfirst
    obtain ⟨t, es, p, hexpand, hnew, hchained⟩ := h.expand hfirst hsmall
    obtain ⟨t', es', rest, htake, hnot, hchained'⟩ := hchained.take hnew fdptr
    refine ⟨t', _, es', rest, ?_, hnot, hchained'⟩
    rw [FdTable.gfFdUnusedGet.eq_def, hfirst]
    dsimp only
    rw [halloc, hexpand, bind_some, FdTable.gfFdUnusedGet.eq_def, hnew]
    exact htake
  | allocated =>
    obtain ⟨start, hstart, -⟩ := h.linked
    rw [hfirst] at hstart
    cases hstart

private lemma put (fd : Int) : ∃ s' es p, s.apply (.put fd) = some s' ∧ Chained s' es p := by
  rw [FdState.apply, FdTable.gfFdPut]
  split
  · exact ⟨s, entries, path, rfl, h⟩
  next hin =>
  have hlt : fd.toNat < entries.length := by
    rw [h.length]
    omega
  rw [h.stored, bind_some, getElem?_eq_getElem hlt, map_some]
  split
  · next hmark =>
    have hused : fd.toNat ∈ s.inUse := by
      rw [h.used_iff, getElem?_eq_getElem hlt, map_some, hmark]
    exact ⟨_, _, _, rfl, h.giveBack hused⟩
  · exact ⟨s, entries, path, rfl, h⟩

private lemma fdptrPut (fd : Nat) :
    ∃ s' es p, s.apply (.fdptrPut fd) = some s' ∧ Chained s' es p := by
  rw [FdState.apply, FdTable.gfFdptrPut]
  split
  · exact ⟨s, entries, path, rfl, h⟩
  rw [h.stored, map_some]
  split
  · exact ⟨s, entries, path, rfl, h⟩
  · split
    · next hmark => exact ⟨_, _, _, rfl, h.giveBack ((h.used_iff _).mpr hmark)⟩
    · exact ⟨s, entries, path, rfl, h⟩

lemma apply {op : FdOp} (hproper : Proper op s) :
    ∃ s' es p, s.apply op = some s' ∧ Chained s' es p := by
  cases op with
  | unusedGet fdptr alloc =>
    obtain ⟨t, i, es, p, hget, -, hchained⟩ := h.unusedGet fdptr hproper
    refine ⟨_, es, p, ?_, hchained⟩
    rw [FdState.apply, hget]
    rfl
  | put fd => exact h.put fd
  | fdptrPut fd => exact h.fdptrPut fd
  | expand alloc =>
    obtain ⟨hfull, rfl, hsmall⟩ := hproper
    obtain ⟨t, es, p, hexpand, -, hchained⟩ := h.expand hfull hsmall
    refine ⟨_, es, p, ?_, hchained⟩
    rw [FdState.apply, hexpand]
    rfl
  | getAllFds alloc =>
    obtain ⟨rfl, hfirst⟩ := hproper
    obtain ⟨t, es, p, hall, hchained⟩ := h.getAllFds hfirst
    refine ⟨_, es, p, ?_, hchained⟩
    rw [FdState.apply, hall]
    rfl

end

private lemma init : ∃ s es p, FdState.init = some s ∧ Chained s es p := by
  obtain ⟨n, es, hexpand, hgrows, hlength, -, hlinked⟩ :=
    expand_spec (t := ⟨0, none, .entry 0⟩) rfl rfl (Nat.le_refl 0) (by decide) (by decide)
  refine ⟨⟨⟨n, some es, .entry 0⟩, []⟩, es, _, ?_, rfl, hlength, ⟨_, rfl, hlinked⟩,
    nodup_range' 1, ?_, nodup_nil, fun i hi => by cases hi⟩
  · rw [FdState.init, FdTable.gfFdFdtableAlloc, hexpand]
    rfl
  · intro i
    simp

end Chained

end FdState

open FdState

/-- After any operations, the entries that are free are those that the chain from `first_free`
reaches, each of them once, and no index has been handed out twice. -/
theorem fd_chain_exact {ops : List FdOp}
    (hproper : Throughout step (fun op s => ∀ s₀ ∈ s, Proper op s₀) ops init) :
    ∃ s entries path, runAll step ops init = some s ∧ s.Chained entries path := by
  refine runAll_inv step (fun s => ∃ s₀ entries path, s = some s₀ ∧ s₀.Chained entries path) ?_
    Chained.init hproper
  rintro op _ ⟨s, entries, path, rfl, h⟩ hop
  exact h.apply (hop s rfl)

/-- Two indices are handed out and put back, all entries are chained again, and one is handed
out. -/
theorem fd_chain_exact_again :
    let ops : List FdOp := [.unusedGet 7 true, .unusedGet 8 true, .fdptrPut 8, .put 0,
      .getAllFds true, .unusedGet 9 true]
    ∃ s entries path, runAll step ops init = some s ∧ s.Chained entries path :=
  fd_chain_exact (by decide +kernel)

/-- An index is handed out, and all entries are chained again. The chain does not start with the
first entry, and no entry leads to it: it is not in use and will not be found. -/
theorem fd_chain_loses_entry :
    ∃ s, runAll step [.unusedGet 7 true, .getAllFds true] init = some s ∧ s.inUse = [] ∧
      s.table.maxFds = 128 ∧ s.table.firstFree = .entry 1 ∧
      (∀ i < 128, nextIn (s.table.fdentries.getD []) i ≠ some (some 0)) ∧
      ∀ entries path, ¬s.Chained entries path := by
  have hany : (runAll step [.unusedGet 7 true, .getAllFds true] init).any (fun s =>
      s.inUse = [] ∧ s.table.maxFds = 128 ∧ s.table.firstFree = .entry 1 ∧
      ∀ i < 128, nextIn (s.table.fdentries.getD []) i ≠ some (some 0)) = true := by
    decide +kernel
  obtain ⟨s, hrun, hs⟩ := (Option.any_eq_true ..).mp hany
  obtain ⟨hused, hmax, hfirst, hnext⟩ := of_decide_eq_true hs
  refine ⟨s, hrun, hused, hmax, hfirst, hnext, fun entries path h => ?_⟩
  obtain ⟨start, hstart, hlinked⟩ := h.linked
  rw [hfirst] at hstart
  cases hstart
  rw [h.stored] at hnext
  have hfree : 0 ∈ path := by
    rw [h.free, hmax, hused]
    decide
  rcases hlinked.pointed hfree with heq | ⟨i, hi, hpoints⟩
  · cases heq
  · have hlt := ((h.free i).mp hi).1
    rw [hmax] at hlt
    exact hnext i hlt hpoints

end TagItGluster.Libglusterfs
