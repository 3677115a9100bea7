import TagItGluster.Base.Keyed
import TagItGluster.Server.Setxattr

/-!
# What an extractor stores

Each line that an extractor prints is set as an extended attribute and then as a row of the index.
The attribute of a string is one byte shorter, which is meant to leave out the newline, and that of
a real has the digits of `%lf`. The task for the index is put to the worker whether there is one or
not. Line numbers: `xlators/features/imess-server/src/imess-server-ipc.c`.
-/

namespace TagItGluster.Server

open Base Xdb List Function Option

/-- What is read and printed outside of the model: `sscanf` and `sprintf` with `%lf`, and whether
the file system takes an attribute. -/
structure ExtractorEnv where
  lf : Text → Option Dbl
  lfText : Dbl → Text
  takes : Text → Text → Bool

/-- An attribute as it is set on the file, and the record for the index. -/
structure Extracted where
  name : Text
  bytes : Text
  xattr : XAttr

/-- The bytes that `ims_sys_setxattr` (178) sets. One less than the length of an empty string is
more than a file system takes. -/
def imsSysSetxattr (env : ExtractorEnv) (x : XAttr) : Option Text :=
  if x.type = typeInteger then some (ldText x.ival)
  else if x.type = typeReal then some (env.lfText x.rval)
  else x.sval.bind fun s => if s = [] then none else some s.dropLast

/-- `extractor_setxattr` (221), `none` for an error return. -/
def extractLine (env : ExtractorEnv) (line : Text) : Option Extracted :=
  match parseLineToXattr env.lf line blankAttr with
  | some (.ok x) => do
    let name ← x.name
    let bytes ← imsSysSetxattr env x
    if env.takes name bytes then some ⟨name, bytes, x⟩ else none
  | _ => none

/-- The lines of a program up to the first one that fails. -/
def extractLines (env : ExtractorEnv) : List Text → List Extracted
  | [] => []
  | line :: lines =>
    match extractLine env line with
    | some e => e :: extractLines env lines
    | none => []

/-- The attributes of the file afterwards. -/
def setAttrs (attrs : Text → Option Text) (es : List Extracted) : Text → Option Text :=
  es.foldl (fun attrs e => update attrs e.name (some e.bytes)) attrs

/-- The index after the tasks. `extractor_setxattr` puts a task to `async_ctx`, which is null unless
`enable-async-update` is on (`imess-server-ipc.c:261`, `imess-server.c:1060–1063`); `none` when
`ims_async_put_task` (imess-server-async.c:288) dereferences it. -/
def indexAttrs (asyncUpdate fk : Bool) (g : Gfid) (t : Tables) (es : List Extracted) :
    Option Tables :=
  es.foldlM (fun t e =>
    if asyncUpdate then
      some (workStep fk (.insertXattr { e.xattr with gfid := some g }) (.idle t)).committed
    else none) t

/-- The tasks are put if there is a worker or nothing to put. -/
lemma indexAttrs_eq (asyncUpdate fk : Bool) (g : Gfid) (t : Tables) (es : List Extracted) :
    indexAttrs asyncUpdate fk g t es = if asyncUpdate = true ∨ es = [] then
      some (es.foldl (fun t e =>
        (workStep fk (.insertXattr { e.xattr with gfid := some g }) (.idle t)).committed) t)
    else none := by
  unfold indexAttrs
  cases asyncUpdate with
  | true =>
    rw [if_pos (.inl rfl)]
    exact foldlM_pure
  | false => cases es <;> rfl

/-- The columns of a row have the value that bytes stand for. -/
def SameValue (lf : Text → Option Dbl) : Option Int × Option Dbl × Option Text → Text → Prop
  | (some i, none, none), bytes => bytes = ldText i
  | (none, some d, none), bytes => lf bytes = some d
  | (none, none, some s), bytes => bytes = s
  | _, _ => False

/-- An integer, or a real that is read back from its digits. -/
def KeepsValue (env : ExtractorEnv) (x : XAttr) : Prop :=
  x.type = typeInteger ∨
    x.type = typeReal ∧ bindDouble x.rval ≠ none ∧ env.lf (env.lfText x.rval) = some x.rval

/-- The last line that sets an attribute. -/
def lastSet (es : List Extracted) (name : Text) : Option Extracted :=
  es.reverse.find? (·.name = name)

variable {env : ExtractorEnv} {e : Extracted} {lines : List Text} {t : Tables} {g : Gfid}

/-- What is set on the file is what is stored in the index, for numbers that are kept only. -/
structure Extracted.Right (env : ExtractorEnv) (e : Extracted) : Prop where
  valid : ∀ g, ValidAttr { e.xattr with gfid := some g } g e.name
  same : SameValue env.lf (bindValue e.xattr) e.bytes ↔ KeepsValue env e.xattr

private lemma sameValue_iff {x : XAttr} {bytes : Text} (hset : imsSysSetxattr env x = some bytes)
    (htype : x.type = typeInteger ∨ x.type = typeReal ∨ x.type = typeString) :
    SameValue env.lf (bindValue x) bytes ↔ KeepsValue env x := by
  unfold imsSysSetxattr at hset
  unfold bindValue KeepsValue
  rcases htype with h | h | h
  · rw [h] at hset
    rw [h]
    exact iff_of_true (Option.some.inj hset).symm (.inl rfl)
  · have hne : typeReal ≠ typeInteger := by decide
    rw [h, if_neg hne] at hset
    rw [h, ← Option.some.inj hset, or_iff_right hne, and_iff_right rfl]
    by_cases hnan : bindDouble x.rval = none
    · rw [hnan]
      exact iff_of_false nofun fun h => h.1 rfl
    have hreal : bindDouble x.rval = some x.rval := by
      unfold bindDouble at hnan ⊢
      split at hnan
      · exact absurd rfl hnan
      · next hn => exact if_neg hn
    rw [hreal, and_iff_right (some_ne_none _)]
    rfl
  · have hint : typeString ≠ typeInteger := by decide
    have hreal : typeString ≠ typeReal := by decide
    rw [h, if_neg hint] at hset
    rw [h, if_neg hint]
    refine iff_of_false ?_ fun h => h.elim hint fun h => hreal h.1
    obtain ⟨s, hs, hbytes⟩ := bind_eq_some_iff.mp hset
    split at hbytes
    · cases hbytes
    next hs' =>
    -- the attribute lacks the last character
    rw [hs, ← Option.some.inj hbytes]
    intro hsame
    have hlen := congrArg List.length (show s.dropLast = s from hsame)
    have hpos := length_pos_of_ne_nil hs'
    rw [length_dropLast] at hlen
    omega

private lemma parse_type {lf : Text → Option Dbl} {line : Text} {x : XAttr}
    (h : parseLineToXattr lf line blankAttr = some (.ok x)) :
    x.type = typeInteger ∨ x.type = typeReal ∨ x.type = typeString := by
  unfold parseLineToXattr at h
  split at h
  · cases h
  · next val _ =>
    split at h
    · cases h
    · cases h
      cases sscanfLd val <;> cases lf val <;> by_cases hdot : '.' ∈ val <;> simp [hdot]

private lemma extractLine_right {line : Text} (h : extractLine env line = some e) :
    e.Right env := by
  unfold extractLine at h
  split at h
  · next x hparse =>
    obtain ⟨name, hname, h⟩ := bind_eq_some_iff.mp h
    obtain ⟨bytes, hbytes, h⟩ := bind_eq_some_iff.mp h
    split at h
    · cases h
      have htype := parse_type hparse
      exact ⟨fun g => ⟨rfl, hname, htype⟩, sameValue_iff hbytes htype⟩
    · cases h
  · cases h

private lemma extractLines_right : ∀ e ∈ extractLines env lines, e.Right env := by
  induction lines with
  | nil => exact forall_mem_nil _
  | cons line lines ih =>
    rw [extractLines]
    split
    · next e he => exact forall_mem_cons.mpr ⟨extractLine_right he, ih⟩
    · exact forall_mem_nil _

-- The index has the row of the last line for each name.
private lemma index_lastSet {es : List Extracted} {name : Text} (fk : Bool) (hw : t.WF)
    (hg : g ∈ t.xgfid.map XGfid.gfid) (hright : ∀ e ∈ es, e.Right env)
    (hlast : lastSet es name = some e) :
    attrValue (es.foldl (fun t e => (workStep fk
        (.insertXattr { e.xattr with gfid := some g }) (.idle t)).committed) t) g name =
      some (bindValue e.xattr) := by
  refine (look_foldl (attrValue · g) Extracted.name (fun e => bindValue e.xattr)
    (fun t => t.WF ∧ g ∈ t.xgfid.map XGfid.gfid) ⟨hw, hg⟩ ?_).trans ?_
  · intro t ht e he
    have hput : (workStep fk (.insertXattr { e.xattr with gfid := some g }) (.idle t)).committed =
        withAttr t g e.name (bindValue e.xattr) := committed_setxattr fk t ((hright e he).valid g)
    obtain ⟨hwf, hgfids, hvalue⟩ := attrValue_withAttr ht.1 ht.2 e.name (bindValue e.xattr)
    rw [hput, hgfids]
    exact ⟨⟨hwf, ht.2⟩, hvalue⟩
  · rw [← lastSet, hlast]
    rfl

/-- The index and the file have the same value for every attribute that a program sets. -/
def SameEverywhere (env : ExtractorEnv) (asyncUpdate fk : Bool) (t : Tables) (g : Gfid)
    (attrs : Text → Option Text) (lines : List Text) : Prop :=
  ∃ t', indexAttrs asyncUpdate fk g t (extractLines env lines) = some t' ∧
    ∀ name e, lastSet (extractLines env lines) name = some e → ∃ cols bytes,
      attrValue t' g name = some cols ∧
      setAttrs attrs (extractLines env lines) name = some bytes ∧ SameValue env.lf cols bytes

/-- The index and the file have the same value for every attribute that a program sets exactly if
the index is updated by a worker or the first line sets nothing, and the last line of each attribute
is an integer, or a real that is read back from its digits. -/
theorem extractor_same_iff (env : ExtractorEnv) (asyncUpdate fk : Bool) (hw : t.WF)
    (hg : g ∈ t.xgfid.map XGfid.gfid) (attrs : Text → Option Text) (lines : List Text) :
    SameEverywhere env asyncUpdate fk t g attrs lines ↔
      (asyncUpdate = true ∨ lines.head?.bind (extractLine env) = none) ∧
        ∀ name e, lastSet (extractLines env lines) name = some e → KeepsValue env e.xattr := by
  have hright : ∀ e ∈ extractLines env lines, e.Right env := extractLines_right
  have hnone : extractLines env lines = [] ↔ lines.head?.bind (extractLine env) = none := by
    cases lines with
    | nil => simp [extractLines]
    | cons line lines => cases h : extractLine env line <;> simp [extractLines, h]
  unfold SameEverywhere
  rw [← hnone, indexAttrs_eq]
  generalize extractLines env lines = es at hright ⊢
  split
  · next hput =>
    rw [and_iff_right hput]
    refine .trans ⟨fun ⟨t', h, hsame⟩ => Option.some.inj h ▸ hsame, fun h => ⟨_, rfl, h⟩⟩ ?_
    refine forall₃_congr fun name e hlast => ?_
    have hset : setAttrs attrs es name = some e.bytes := by
      refine (look_foldl id Extracted.name Extracted.bytes (fun _ => True) trivial
        (fun s _ e _ => ⟨trivial, fun k => update_apply ..⟩)).trans ?_
      rw [← lastSet, hlast]
      rfl
    rw [index_lastSet fk hw hg hright hlast, hset]
    have he : e ∈ es := mem_reverse.mp (mem_of_find?_eq_some hlast)
    rw [← (hright e he).same]
    constructor
    · rintro ⟨_, _, ⟨⟩, ⟨⟩, h⟩
      exact h
    · intro h
      exact ⟨_, _, rfl, rfl, h⟩
  · next hput =>
    refine iff_of_false ?_ fun h => hput h.1
    rintro ⟨_, h, -⟩
    cases h

/-- No reals, and a file system that takes every attribute. -/
def plainEnv : ExtractorEnv := ⟨fun _ => none, fun _ => [], fun _ _ => true⟩

/-- The newline stays in the index, and a last line without one loses a character of the
attribute. -/
theorem extractor_differs : ¬SameEverywhere plainEnv true true oneFile 7 (fun _ => none)
    ["user.k=abc\n".toList, "user.l=abc".toList] := by
  rintro ⟨t', ht, h⟩
  obtain ⟨e, he⟩ : ∃ e, lastSet (extractLines plainEnv ["user.k=abc\n".toList,
      "user.l=abc".toList]) "user.k".toList = some e := Option.isSome_iff_exists.mp (by decide)
  obtain ⟨cols, bytes, hcols, hbytes, hsame⟩ := h _ e he
  obtain rfl := Option.some.inj (ht.symm.trans (by rw [indexAttrs_eq]; rfl))
  have hindex : some (none, none, some "abc\n".toList) = some cols :=
    Eq.trans (by decide +kernel) hcols
  have hattr : some "abc".toList = some bytes := Eq.trans (by decide) hbytes
  cases hindex
  cases hattr
  exact absurd hsame (by decide : "abc".toList ≠ "abc\n".toList)

theorem extractor_same_iff_one :
    SameEverywhere plainEnv true true oneFile 7 (fun _ => none) ["user.k=5\n".toList] := by
  refine (extractor_same_iff plainEnv true true (by constructor <;> decide) (by decide) _ _).mpr
    ⟨.inl rfl, ?_⟩
  intro name e he
  have hone : ∀ e ∈ extractLines plainEnv ["user.k=5\n".toList], e.xattr.type = typeInteger := by
    decide
  exact .inl (hone e (mem_reverse.mp (mem_of_find?_eq_some he)))

end TagItGluster.Server
