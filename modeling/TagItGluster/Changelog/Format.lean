import TagItGluster.Base.Bytes
import TagItGluster.Base.Text

/-!
# Changelog files

The encoders of `changelog-encoders.c` and the decoders of `gf-changelog-journal-handler.c`,
in both formats. A record is a letter and a gfid, then optional fields, each behind a zero, and
a last zero. The encoder fills a buffer sized by the caller's estimate, the decoder a line of
`LINE_BUFSIZE` bytes; what goes past a buffer or reads outside of the file is `overrun`.
Writing the files succeeds. Line numbers: `xlators/features/changelog/src/changelog-encoders.c`.
-/

namespace TagItGluster.Changelog

open Base

/-- The contents of a file or a buffer. -/
abbrev Bytes := List UInt8

/-- The byte of an ASCII character. -/
def chr (c : Char) : UInt8 := UInt8.ofNat c.toNat

/-- The bytes of an ASCII text. -/
def asciiBytes (t : Text) : Bytes := t.map chr

/-- `uuid_t`. -/
structure Uuid where
  bytes : Bytes
  size : bytes.length = 16
  deriving DecidableEq, Repr

/-- The name of a directory entry: no zero, no slash. -/
structure Name where
  bytes : Bytes
  noNul : 0 ∉ bytes
  noSlash : chr '/' ∉ bytes
  deriving DecidableEq, Repr

/-- The path of a deleted entry (`cef_path`); empty when it was not captured. -/
structure DelPath where
  bytes : Bytes
  noNul : 0 ∉ bytes
  deriving DecidableEq, Repr

/-- A hexadecimal digit; letters from `a` on. -/
def hexDigit (a : Char) (n : Nat) : UInt8 :=
  if n < 10 then UInt8.ofNat (48 + n) else UInt8.ofNat (a.toNat + (n - 10))

/-- A byte as two hexadecimal digits. -/
def hexByte (a : Char) (b : UInt8) : Bytes := [hexDigit a (b.toNat / 16), hexDigit a (b.toNat % 16)]

/-- `uuid_utoa` (common-utils.c:2396). -/
def uuidUtoa (u : Uuid) : Bytes :=
  (u.bytes.take 4).flatMap (hexByte 'a') ++
  chr '-' :: ((u.bytes.drop 4).take 2).flatMap (hexByte 'a') ++
  chr '-' :: ((u.bytes.drop 6).take 2).flatMap (hexByte 'a') ++
  chr '-' :: ((u.bytes.drop 8).take 2).flatMap (hexByte 'a') ++
  chr '-' :: (u.bytes.drop 10).flatMap (hexByte 'a')

/-- The low 32 bits of a number as they lie in memory. -/
def le32 (n : Nat) : Bytes :=
  [UInt8.ofNat n, UInt8.ofNat (n / 256), UInt8.ofNat (n / 65536), UInt8.ofNat (n / 16777216)]

/-- `UUID_CANONICAL_FORM_LEN`. -/
def uuidCanonicalFormLen : Nat := 36

/-! ## Encoders -/

/-- `gf_fop_list`, by fop number. -/
def gfFopList : List Text :=
  ["NULL", "STAT", "READLINK", "MKNOD", "MKDIR", "UNLINK", "RMDIR", "SYMLINK", "RENAME", "LINK",
    "TRUNCATE", "OPEN", "READ", "WRITE", "STATFS", "FLUSH", "FSYNC", "SETXATTR", "GETXATTR",
    "REMOVEXATTR", "OPENDIR", "FSYNCDIR", "ACCESS", "CREATE", "FTRUNCATE", "FSTAT", "LK",
    "LOOKUP", "READDIR", "INODELK", "FINODELK", "ENTRYLK", "FENTRYLK", "XATTROP", "FXATTROP",
    "FGETXATTR", "FSETXATTR", "RCHECKSUM", "SETATTR", "FSETATTR", "READDIRP", "FORGET",
    "RELEASE", "RELEASEDIR", "GETSPEC", "FREMOVEXATTR", "FALLOCATE", "DISCARD", "ZEROFILL",
    "IPC"].map String.toList

/-- `GF_FOP_MAXVALUE`. -/
def gfFopMaxvalue : Nat := 50

/-- `glusterfs_fop_t`. -/
structure Fop where
  n : Nat
  lt : n < gfFopMaxvalue
  deriving DecidableEq, Repr

/-- `GF_FOP_MKNOD`. -/
def Fop.mknod : Fop := ⟨3, by decide⟩
/-- `GF_FOP_MKDIR`. -/
def Fop.mkdir : Fop := ⟨4, by decide⟩
/-- `GF_FOP_UNLINK`. -/
def Fop.unlink : Fop := ⟨5, by decide⟩
/-- `GF_FOP_RMDIR`. -/
def Fop.rmdir : Fop := ⟨6, by decide⟩
/-- `GF_FOP_SYMLINK`. -/
def Fop.symlink : Fop := ⟨7, by decide⟩
/-- `GF_FOP_RENAME`. -/
def Fop.rename : Fop := ⟨8, by decide⟩
/-- `GF_FOP_LINK`. -/
def Fop.link : Fop := ⟨9, by decide⟩
/-- `GF_FOP_CREATE`. -/
def Fop.create : Fop := ⟨23, by decide⟩

/-- `entry_fn` (19). -/
def entryFn (encode : Bool) (uuid : Uuid) (bname : Name) : Bytes :=
  (if encode then uuidUtoa uuid else uuid.bytes) ++ chr '/' :: bname.bytes

/-- `del_entry_fn` (42). -/
def delEntryFn (encode : Bool) (uuid : Uuid) (bname : Name) (path : DelPath) : Bytes :=
  (if encode then uuidUtoa uuid else uuid.bytes) ++ chr '/' :: bname.bytes ++
    0 :: (if path.bytes = [] then [0] else path.bytes)

/-- `fop_fn` (74). -/
def fopFn (encode : Bool) (fop : Fop) : Bytes :=
  if encode then asciiBytes (dec fop.n) else le32 fop.n

/-- `number_fn` (92). -/
def numberFn (encode : Bool) (nr : UInt32) : Bytes :=
  if encode then asciiBytes (dec nr.toNat) else le32 nr.toNat

/-- `changelog_opt_t`: an optional field with the function that converts it. -/
inductive Opt where
  | fop (number : Fop)
  | uint32 (nr : UInt32)
  | entry (uuid : Uuid) (bname : Name)
  | delEntry (uuid : Uuid) (bname : Name) (path : DelPath)

/-- `co_convert`. -/
def Opt.convert (encode : Bool) : Opt → Bytes
  | .fop number => fopFn encode number
  | .uint32 nr => numberFn encode nr
  | .entry uuid bname => entryFn encode uuid bname
  | .delEntry uuid bname path => delEntryFn encode uuid bname path

/-- What the macros that fill in a field add to `xtra_len`. -/
def Opt.xlen : Opt → Nat
  | .fop _ => 4
  | .uint32 _ => 4
  | .entry _ bname => uuidCanonicalFormLen + bname.bytes.length
  | .delEntry _ bname path =>
    uuidCanonicalFormLen + bname.bytes.length + (if path.bytes = [] then 1 else path.bytes.length)

/-- `changelog_log_type`. -/
inductive LogType where
  | data | metadata | entry
  deriving DecidableEq, Repr

/-- The first character of `priv->maps`. -/
def LogType.letter : LogType → UInt8
  | .data => chr 'D'
  | .metadata => chr 'M'
  | .entry => chr 'E'

/-- `changelog_log_data_t`. -/
structure Cld where
  type : LogType
  gfid : Uuid
  xtra : List Opt

/-- `cld_ptr_len`. -/
def Cld.ptrLen (cld : Cld) : Nat := (cld.xtra.map Opt.xlen).sum

/-- `changelog_encode_write_xtra` (137). -/
def changelogEncodeWriteXtra (encode : Bool) (xtra : List Opt) : Bytes :=
  xtra.flatMap (fun co => 0 :: co.convert encode)

/-- The bytes of a record behind its letter's gfid text. -/
def Cld.record (encode : Bool) (gfid : Bytes) (cld : Cld) : Bytes :=
  cld.type.letter :: gfid ++ changelogEncodeWriteXtra encode cld.xtra ++ [0]

/-- `changelog_encode_ascii` (176); `none` when the record does not fit into its buffer. -/
def changelogEncodeAscii (cld : Cld) : Option Bytes :=
  let gfid := uuidUtoa cld.gfid
  if (cld.record true gfid).length ≤ gfid.length + cld.ptrLen + 10 then
    some (cld.record true gfid)
  else none

/-- `changelog_encode_binary` (203); `none` when the record does not fit into its buffer. -/
def changelogEncodeBinary (cld : Cld) : Option Bytes :=
  if (cld.record false cld.gfid.bytes).length ≤ 16 + cld.ptrLen + 10 then
    some (cld.record false cld.gfid.bytes)
  else none

/-- A change, as the fops of `changelog.c` record it. -/
inductive Change where
  | data (gfid : Uuid)
  | metadata (gfid : Uuid) (fop : Fop)
  | mknod (gfid : Uuid) (mode uid gid : UInt32) (pargfid : Uuid) (bname : Name)
  | mkdir (gfid : Uuid) (mode uid gid : UInt32) (pargfid : Uuid) (bname : Name)
  | create (gfid : Uuid) (mode uid gid : UInt32) (pargfid : Uuid) (bname : Name)
  | symlink (gfid pargfid : Uuid) (bname : Name)
  | link (gfid pargfid : Uuid) (bname : Name)
  | rename (gfid oldPargfid : Uuid) (oldName : Name) (newPargfid : Uuid) (newName : Name)
  | unlink (gfid pargfid : Uuid) (bname : Name) (path : DelPath)
  | rmdir (gfid pargfid : Uuid) (bname : Name) (path : DelPath)

/-- The fields that a creation records. -/
def madeFields (fop : Fop) (mode uid gid : UInt32) (pargfid : Uuid) (bname : Name) : List Opt :=
  [.fop fop, .uint32 mode, .uint32 uid, .uint32 gid, .entry pargfid bname]

/-- The record of a change. -/
def Change.cld : Change → Cld
  | .data gfid => ⟨.data, gfid, []⟩
  | .metadata gfid fop => ⟨.metadata, gfid, [.fop fop]⟩
  | .mknod gfid mode uid gid par bname => ⟨.entry, gfid, madeFields .mknod mode uid gid par bname⟩
  | .mkdir gfid mode uid gid par bname => ⟨.entry, gfid, madeFields .mkdir mode uid gid par bname⟩
  | .create gfid mode uid gid par bname => ⟨.entry, gfid, madeFields .create mode uid gid par bname⟩
  | .symlink gfid par bname => ⟨.entry, gfid, [.fop .symlink, .entry par bname]⟩
  | .link gfid par bname => ⟨.entry, gfid, [.fop .link, .entry par bname]⟩
  | .rename gfid oldPar oldName newPar newName =>
    ⟨.entry, gfid, [.fop .rename, .entry oldPar oldName, .entry newPar newName]⟩
  | .unlink gfid par bname path => ⟨.entry, gfid, [.fop .unlink, .delEntry par bname path]⟩
  | .rmdir gfid par bname path => ⟨.entry, gfid, [.fop .rmdir, .delEntry par bname path]⟩

/-- The records of a changelog behind its header. -/
def encodeAll (encode : Cld → Option Bytes) : List Change → Option Bytes
  | [] => some []
  | c :: cs => (encode c.cld).bind (fun b => (encodeAll encode cs).map (b ++ ·))

/-! ## Decoders -/

/-- `PATH_MAX`. -/
def pathMax : Nat := 4096

/-- `LINE_BUFSIZE`. -/
def lineBufsize : Nat := 3 * pathMax

/-- A step of a decoder: it leaves a buffer or the file, it sets `parse_err`, or it goes on. -/
inductive Parse (α : Type) where
  | overrun
  | failed
  | done (a : α)
  deriving DecidableEq, Repr

/-- Go on with a result. -/
def Parse.bind {α β : Type} : Parse α → (α → Parse β) → Parse β
  | .overrun, _ => .overrun
  | .failed, _ => .failed
  | .done a, f => f a

instance : Monad Parse where
  pure := .done
  bind := Parse.bind

variable {α β : Type}

@[simp] lemma Parse.done_bind (a : α) (f : α → Parse β) : (Parse.done a >>= f) = f a := rfl

/-- `enum changelog_versions`. -/
inductive Version where
  | v11 | v12
  deriving DecidableEq, Repr

/-- `nr_gfids`: the number of gfid records after the fop number. -/
def nrGfids (v : Version) (fop : Nat) : Nat :=
  if fop = 8 then 2
  else if fop = 5 ∨ fop = 6 then (if v = .v11 then 1 else 2)
  else if fop = 3 ∨ fop = 4 ∨ fop = 7 ∨ fop = 9 ∨ fop = 23 then 1
  else 0

/-- `nr_extra_recs`, the same in both versions. -/
def nrExtraRecs (fop : Nat) : Nat :=
  if fop = 3 ∨ fop = 4 ∨ fop = 23 then 3 else 0

/-- `GF_CHANGELOG_FILL_BUFFER` (gf-changelog-helpers.h:38) on the line. -/
def fill (ascii : Bytes) (b : Bytes) : Parse Bytes :=
  if (ascii ++ b).length ≤ lineBufsize then .done (ascii ++ b) else .overrun

/-- The C string at `mover`. -/
def strAt (mover : Bytes) : Parse Bytes :=
  if 0 ∈ mover then .done (mover.takeWhile (· ≠ 0)) else .overrun

/-- `MOVER_MOVE` (gf-changelog-journal-handler.c:96). -/
def move (n : Nat) (mover : Bytes) : Parse Bytes :=
  if n ≤ mover.length then .done (mover.drop n) else .overrun

/-- `PARSE_GFID` (gf-changelog-journal-handler.c:102) with `conv_noop`
(gf-changelog-journal-handler.c:86), for a text of the canonical length. -/
def parseGfid (mover : Bytes) : Parse Bytes :=
  match mover[uuidCanonicalFormLen]? with
  | none => .overrun
  | some b => if b = 0 then strAt mover else .failed

/-- The table `rfc3986`: the characters that are not escaped. -/
def unreserved (b : UInt8) : Bool :=
  (48 ≤ b && b ≤ 57) || (65 ≤ b && b ≤ 90) || (97 ≤ b && b ≤ 122) ||
    b == chr '~' || b == chr '-' || b == chr '.' || b == chr '_'

/-- `gf_rfc3986_encode` (gf-changelog-helpers.c:38). -/
def gfRfc3986Encode (s : Bytes) : Bytes :=
  s.flatMap (fun b => if unreserved b then [b] else chr '%' :: hexByte 'A' b)

/-- The escaped text, written into `calloc (3, strlen (s))` with its final zero. -/
def escape (s : Bytes) : Parse Bytes :=
  if (gfRfc3986Encode s).length + 1 ≤ 3 * s.length then .done (gfRfc3986Encode s) else .overrun

/-- The fop at `mover`: its number, its name and the length of its text. -/
def parseFop (mover : Bytes) : Parse (Nat × Text × Nat) := do
  let s ← strAt mover
  let fop := atoi (s.map (fun b => Char.ofNat b.toNat))
  match if 0 ≤ fop then gfFopList[fop.toNat]? else none with
  | some fopname => .done (fop.toNat, fopname, s.length)
  | none => .overrun

/-- The loop over the numbers of a creation. -/
def extraRecs : (ng : Nat) → (ascii mover : Bytes) → Parse (Bytes × Bytes)
  | 0, ascii, mover => .done (ascii, mover)
  | ng + 1, ascii, mover => do
    let mover ← move 1 mover
    let s ← strAt mover
    let ascii ← fill ascii [chr ' ']
    let ascii ← fill ascii s
    let mover ← move s.length mover
    extraRecs ng ascii mover

/-- The loop over parent gfids with names, and the path of a deleted entry. -/
def gfidRecs : (ng : Nat) → (ascii mover : Bytes) → Parse (Bytes × Bytes)
  | 0, ascii, mover => .done (ascii, mover)
  | ng + 1, ascii, mover => do
    let mover ← move 1 mover
    let s ← strAt mover
    if s = [] then
      let mover ← move 1 mover
      gfidRecs ng ascii mover
    else
      let ascii ← fill ascii [chr ' ']
      let eptr ← escape s
      let ascii ← fill ascii eptr
      let mover ← move s.length mover
      gfidRecs ng ascii mover

/-- The gfid that every record starts with. -/
def parseTarget (ascii mover : Bytes) : Parse (Bytes × Bytes) := do
  let ptr ← parseGfid mover
  let ascii ← fill ascii ptr
  let mover ← move uuidCanonicalFormLen mover
  pure (ascii, mover)

/-- The gfid and the fop of a metadata or entry record. -/
def parseTargetFop (ascii mover : Bytes) : Parse (Nat × Bytes × Bytes) := do
  let (ascii, mover) ← parseTarget ascii mover
  let ascii ← fill ascii [chr ' ']
  let mover ← move 1 mover
  let (fop, fopname, len) ← parseFop mover
  let mover ← move len mover
  let ascii ← fill ascii (asciiBytes fopname)
  pure (fop, ascii, mover)

/-- The switch of `gf_changelog_parse_ascii` over the letter of a record. -/
def parseFields (v : Version) (letter : UInt8) (ascii mover : Bytes) : Parse (Bytes × Bytes) :=
  if letter = chr 'D' then parseTarget ascii mover
  else if letter = chr 'M' then do
    let (_, ascii, mover) ← parseTargetFop ascii mover
    pure (ascii, mover)
  else if letter = chr 'E' then do
    let (fop, ascii, mover) ← parseTargetFop ascii mover
    let (ascii, mover) ← extraRecs (nrExtraRecs fop) ascii mover
    gfidRecs (nrGfids v fop) ascii mover
  else .failed

/-- One turn of the loop of `gf_changelog_parse_ascii`, up to the line it writes. -/
def parseAsciiRecord (v : Version) (letter : UInt8) (mover : Bytes) : Parse (Bytes × Bytes) := do
  let ascii ← fill [] [letter]
  let ascii ← fill ascii [chr ' ']
  let (ascii, mover) ← parseFields v letter ascii mover
  let ascii ← fill ascii [chr '\n']
  pure (ascii, mover)

/-- `strchr (mover, '\n')`: the bytes before it, or `none` when the string ends first. -/
def beforeNewline : Bytes → Parse (Option Bytes)
  | [] => .overrun
  | b :: bs =>
    if b = chr '\n' then .done (some [])
    else if b = 0 then .done none
    else (beforeNewline bs).bind (fun r => .done (r.map (b :: ·)))

/-- `PARSE_GFID_MOVE` (gf-changelog-journal-handler.c:119). -/
def parseGfidMove (mover : Bytes) : Parse (Bytes × Bytes) :=
  if h : (mover.take 16).length = 16 then .done (uuidUtoa ⟨mover.take 16, h⟩, mover.drop 16)
  else .overrun

/-- One turn of the loop of `gf_changelog_parse_binary`, up to the line it writes. -/
def parseBinaryRecord (letter : UInt8) (mover : Bytes) : Parse (Bytes × Bytes) := do
  let (ptr, bname, mover) ← if letter = chr 'D' ∨ letter = chr 'M' then do
      let (ptr, mover) ← parseGfidMove mover
      pure (ptr, [], mover)
    else if letter = chr 'E' then do
      let (ptr, mover) ← parseGfidMove mover
      match ← beforeNewline mover with
      | none => .failed
      | some bname => pure (ptr, bname, mover.drop bname.length)
    else .failed
  let ascii ← fill [] [letter]
  let ascii ← fill ascii [chr ' ']
  let ascii ← fill ascii ptr
  let ascii ← fill ascii bname
  let ascii ← fill ascii [chr '\n']
  pure (ascii, mover)

/-- The loop of a decoder over the rest of the file: the return value and the lines written.
Every turn consumes a byte, so that `fuel` may be the number of bytes. -/
def parseLoop (turn : UInt8 → Bytes → Parse (Bytes × Bytes)) :
    (fuel : Nat) → (mover : Bytes) → (lines : List Bytes) → Parse (Int × List Bytes)
  | _, [], lines => .done (0, lines)
  | 0, _ :: _, _ => .overrun
  | fuel + 1, letter :: mover, lines =>
    match turn letter mover with
    | .overrun => .overrun
    | .failed => .done (-1, lines)
    | .done (line, []) => .done (-1, lines ++ [line])
    | .done (line, _ :: mover) => parseLoop turn fuel mover (lines ++ [line])

/-- `gf_changelog_parse_ascii` (gf-changelog-journal-handler.c:252), from the end of the header
on. -/
def gfChangelogParseAscii (v : Version) (file : Bytes) (startOffset : Nat) :
    Parse (Int × List Bytes) :=
  parseLoop (parseAsciiRecord v) file.length (file.drop startOffset) []

/-- `gf_changelog_parse_binary` (gf-changelog-journal-handler.c:145), from the end of the header
on. -/
def gfChangelogParseBinary (file : Bytes) (startOffset : Nat) : Parse (Int × List Bytes) :=
  parseLoop parseBinaryRecord file.length (file.drop startOffset) []

end TagItGluster.Changelog
