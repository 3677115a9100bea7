import TagItGluster.Base.Text
import Mathlib.Data.BitVec
import Mathlib.Data.List.MinMax

/-!
# Tables of the index database

Rows of the four tables of `imess-server-xdb-schema.sql`, in insertion order, with the
declared primary-key, unique and reference constraints as the predicate `WF`. A gfid is
kept as the 128-bit value whose text the column holds, and a `real` as its bit pattern. Line
numbers: `xlators/features/imess-server/src/imess-server-xdb.c`.
-/

namespace TagItGluster.Xdb

open Base

/-- A file identity; the column holds its `uuid_utoa` text. -/
abbrev Gfid := BitVec 128

/-- The bit pattern of a C `double`. -/
abbrev Dbl := BitVec 64

/-- A path of an entry operation: `loc->path`, which names an entry below some directory
and so holds a slash. -/
structure Path where
  chars : Text
  slash : '/' ∈ chars
  deriving DecidableEq, Repr

/-- The path of an entry of the root with a one-letter name. -/
def Path.top (c : Char) : Path := ⟨['/', c], List.mem_cons_self⟩

/-- The attributes of `struct stat` that the index stores (`IMS_XDB_ST_*`), in the order of
their name ids. -/
inductive StatAttr where
  | dev | ino | mode | nlink | uid | gid | rdev | size | blksize | blocks | atime | mtime | ctime
  deriving DecidableEq, Repr

namespace StatAttr

/-- All stored attributes, by ascending name id. -/
def all : List StatAttr :=
  [dev, ino, mode, nlink, uid, gid, rdev, size, blksize, blocks, atime, mtime, ctime]

/-- The value of the `IMS_XDB_ST_*` constant. -/
def nid : StatAttr → Int
  | dev => 1 | ino => 2 | mode => 3 | nlink => 4 | uid => 5 | gid => 6 | rdev => 7
  | size => 8 | blksize => 9 | blocks => 10 | atime => 11 | mtime => 12 | ctime => 13

/-- The name the schema inserts for the attribute. -/
def text : StatAttr → Text
  | dev => "st_dev".toList | ino => "st_ino".toList | mode => "st_mode".toList
  | nlink => "st_nlink".toList | uid => "st_uid".toList | gid => "st_gid".toList
  | rdev => "st_rdev".toList | size => "st_size".toList | blksize => "st_blksize".toList
  | blocks => "st_blocks".toList | atime => "st_atime".toList | mtime => "st_mtime".toList
  | ctime => "st_ctime".toList

lemma mem_all (a : StatAttr) : a ∈ all := by
  cases a <;> decide

lemma nid_inj {a b : StatAttr} (h : a.nid = b.nid) : a = b := by
  cases a <;> cases b <;> first | rfl | (exact absurd h (by decide))

end StatAttr

/-- `struct stat`, as the 64-bit integers that are bound for its attributes. -/
abbrev Stat := StatAttr → Int

/-- A row of `xdb_xgfid`. -/
structure XGfid where
  gid : Int
  gfid : Gfid
  deriving DecidableEq, Repr

/-- A row of `xdb_xfile`. -/
structure XFile where
  fid : Int
  gid : Int
  path : Path
  name : Text
  deriving DecidableEq, Repr

/-- A row of `xdb_xname`. -/
structure XName where
  nid : Int
  name : Text
  deriving DecidableEq, Repr

/-- A row of `xdb_xdata`. -/
structure XData where
  xid : Int
  gid : Int
  nid : Int
  ival : Option Int
  rval : Option Dbl
  sval : Option Text
  deriving DecidableEq, Repr

/-- The four tables. -/
structure Tables where
  xgfid : List XGfid
  xfile : List XFile
  xname : List XName
  xdata : List XData
  deriving DecidableEq, Repr

namespace Tables

/-- The tables right after the schema has been executed. -/
def empty : Tables :=
  { xgfid := [], xfile := [], xdata := []
    xname := StatAttr.all.map (fun a => ⟨a.nid, a.text⟩) }

/-- The declared constraints: primary keys, unique columns, and the reference from a file
row to its gfid row. -/
structure WF (t : Tables) : Prop where
  gid : (t.xgfid.map XGfid.gid).Nodup
  gfid : (t.xgfid.map XGfid.gfid).Nodup
  fid : (t.xfile.map XFile.fid).Nodup
  path : (t.xfile.map XFile.path).Nodup
  nid : (t.xname.map XName.nid).Nodup
  name : (t.xname.map XName.name).Nodup
  xid : (t.xdata.map XData.xid).Nodup
  pair : (t.xdata.map (fun r => (r.gid, r.nid))).Nodup
  file : ∀ r ∈ t.xfile, r.gid ∈ t.xgfid.map XGfid.gid

lemma wf_empty : WF empty := by
  constructor <;> decide

end Tables

/-- The rowid SQLite gives to a new row: one above the largest, or 1 in an empty table. -/
def newRowid (ids : List Int) : Int :=
  match ids.max? with
  | none => 1
  | some m => m + 1

lemma lt_newRowid {ids : List Int} {i : Int} (h : i ∈ ids) : i < newRowid ids := by
  unfold newRowid
  cases hm : ids.max? with
  | none =>
    rw [List.max?_eq_none_iff.mp hm] at h
    cases h
  | some m =>
    have hle := (List.max?_eq_some_iff.mp hm).2 i h
    exact Int.lt_add_one_of_le hle

lemma newRowid_not_mem (ids : List Int) : newRowid ids ∉ ids := by
  intro h
  exact lt_irrefl _ (lt_newRowid h)

/-- `name_substr_pos` (200): the byte offset of the last slash, plus two. -/
def nameSubstrPos (path : Path) : Nat := byteLen (beforeLast '/' path.chars) + 2

/-- SQL `substr (t, pos)` with a positive start position, counted in characters. -/
def substr (t : Text) (pos : Nat) : Text := t.drop (pos - 1)

/-- The value `substr (path, name_substr_pos (path))` of the `name` column. -/
def nameOf (path : Path) : Text := substr path.chars (nameSubstrPos path)

end TagItGluster.Xdb
