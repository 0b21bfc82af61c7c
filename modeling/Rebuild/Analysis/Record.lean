/-
  The record of an analysis: the byte string that is kept between builds.

      u32   magic
      u16   major version, u16 minor version
      u32   identity of the source roots
      text  fingerprint of the configuration
      u32   checksum of the body
      u64   length of the body
            body: the units, then the snapshots

  * `Record.encode` writes a record and `Record.decode` reads one back;
  * a record that cannot be used has a `Defect`, which says why;
  * `LoadOutcome` is what a build has of the one before it.
-/
import Rebuild.Analysis
import Rebuild.Checksum
import Rebuild.Encoding.Decoder

namespace Rebuild

/-- Why a prior analysis cannot be used. -/
inductive StaleReason
  /-- It can. -/
  | none
  /-- There is no record. -/
  | absent
  /-- The record could not be read. -/
  | unreadable
  /-- The bytes are no record. -/
  | badMagic
  /-- The record has another format version. -/
  | versionMismatch
  /-- The record belongs to other source roots. -/
  | rootsMismatch
  /-- The record was made under another configuration. -/
  | fingerprintMismatch
  /-- The record is damaged. -/
  | corrupt
deriving DecidableEq, Repr

namespace StaleReason

/-- The reasons in the order of their numbers. -/
def all : List StaleReason :=
  [none, absent, unreadable, badMagic, versionMismatch, rootsMismatch, fingerprintMismatch, corrupt]

/-- The displayed name of a reason. -/
def name : StaleReason → Text
  | none => "none"
  | absent => "absent"
  | unreadable => "unreadable"
  | badMagic => "bad magic"
  | versionMismatch => "version mismatch"
  | rootsMismatch => "source roots mismatch"
  | fingerprintMismatch => "configuration fingerprint mismatch"
  | corrupt => "corrupt"

end StaleReason

/-- What became of the prior analysis. -/
structure LoadOutcome where
  analysis : Option Analysis := none
  reason : StaleReason := .absent
  detail : Text := []
  /-- The file that a record was found in. -/
  location : Text := []

namespace LoadOutcome

/-- The analysis, if it can be used. -/
def usable? (o : LoadOutcome) : Option Analysis :=
  if o.reason = .none then o.analysis else none

/-- An analysis that can be used. -/
def ofAnalysis (a : Analysis) : LoadOutcome := { analysis := some a, reason := .none }

/-- No analysis, and why. -/
def stale (reason : StaleReason) (detail : Text) : LoadOutcome :=
  { reason := reason, detail := detail }

end LoadOutcome

namespace Record

/-- The first four bytes of a record, as a number. -/
def magic : UInt32 := 0x4B4C4E41

/-- The format version that is written, and that a record must have to be read. -/
def majorVersion : UInt16 := 1

/-- The minor version that is written; any is read. -/
def minorVersion : UInt16 := 0

/-- The largest number of units, and of snapshots, that is believed. -/
def maxEntries : Nat := 10000000

/-! ## Writing -/

/-- The bytes of a unit. -/
def encodeUnit (r : UnitRecord) : Text :=
  Encode.text r.name ++ Encode.text r.source ++ Encode.textSet r.dependencies ++
    Encode.textSet r.facts ++ Encode.texts r.artifacts

/-- The number of a kind of file. -/
def kindCode : FileKind → UInt8
  | .missing => 0
  | .file => 1
  | .directory => 2

/-- The bytes of a snapshot. -/
def encodeSnapshot (s : Text × Snapshot) : Text :=
  Encode.text s.1 ++ Encode.u8 (kindCode s.2.kind) ++ Encode.i64 s.2.modified ++
    Encode.i64 s.2.length

/-- The units by name, then the snapshots by path. -/
def encodeBody (a : Analysis) : Text :=
  Encode.list encodeUnit (a.units.toList.map (·.2)) ++ Encode.list encodeSnapshot a.snapshots.toList

/-- All that stands in front of the body. -/
def encodeHeader (identity : UInt32) (fingerprint body : Text) : Text :=
  Encode.u32 magic ++ Encode.u16 majorVersion ++ Encode.u16 minorVersion ++ Encode.u32 identity ++
    Encode.text fingerprint ++ Encode.u32 (Checksum.ofText body) ++
    Encode.u64 (UInt64.ofNat body.length)

/-- The record of an analysis for the roots of this identity. -/
def encode (a : Analysis) (identity : UInt32) : Text :=
  let body := encodeBody a
  encodeHeader identity a.fingerprint body ++ body

/-! ## Reading -/

/-- What is wrong with the bytes of a record. -/
inductive Defect
  | noRecord
  | truncatedHeader
  | version (major minor : UInt16)
  | roots (recorded current : UInt32)
  | configuration (recorded current : Text)
  | bodyLength
  | checksum
  | malformedBody
deriving DecidableEq, Repr

namespace Defect

/-- The reason that a defect comes under. -/
def reason : Defect → StaleReason
  | noRecord => .badMagic
  | version _ _ => .versionMismatch
  | roots _ _ => .rootsMismatch
  | configuration _ _ => .fingerprintMismatch
  | truncatedHeader | bodyLength | checksum | malformedBody => .corrupt

/-- The wording of a defect.  Of a fingerprint its first twelve digits are shown. -/
def detail : Defect → Text
  | noRecord => "not an analysis record"
  | truncatedHeader => "truncated header"
  | version major minor => "record version " ++ Text.ofNat major.toNat ++ "." ++
      Text.ofNat minor.toNat ++ ", expected " ++ Text.ofNat majorVersion.toNat ++ ".x"
  | roots recorded current => "recorded for roots " ++ Checksum.hex recorded ++ ", current " ++
      Checksum.hex current
  | configuration recorded current => "recorded '" ++ recorded.take 12 ++ "', current '" ++
      current.take 12 ++ "'"
  | bodyLength => "body length mismatch"
  | checksum => "checksum mismatch"
  | malformedBody => "malformed body"

end Defect

/-- Reads a unit. -/
def decodeUnit : Decoder UnitRecord := do
  let name ← Decoder.text
  let source ← Decoder.text
  let dependencies ← Decoder.textSet
  let facts ← Decoder.textSet
  let artifacts ← Decoder.texts
  return ⟨name, source, dependencies, facts, artifacts⟩

/-- The kind of file with a number. -/
def kindOf? : UInt8 → Option FileKind
  | 0 => some .missing
  | 1 => some .file
  | 2 => some .directory
  | _ => none

/-- Reads a path and its snapshot. -/
def decodeSnapshot : Decoder (Text × Snapshot) := do
  let path ← Decoder.text
  let code ← Decoder.u8
  let modified ← Decoder.i64
  let length ← Decoder.i64
  match kindOf? code with
  | some kind => return (path, ⟨kind, modified, length⟩)
  | none => Decoder.fail

/-- A count of at most `maxEntries` and as many entries. -/
def decodeEntries {α : Type} (entry : Decoder α) : Decoder (List α) := do
  let n := (← Decoder.u32).toNat
  Decoder.guard (n ≤ maxEntries)
  Decoder.times entry n

/-- Reads the units and the snapshots. -/
def decodeBody : Decoder (List UnitRecord × List (Text × Snapshot)) := do
  let units ← decodeEntries decodeUnit
  let snapshots ← decodeEntries decodeSnapshot
  return (units, snapshots)

/-- The analysis with these records, later ones in place of earlier ones. -/
def build (fingerprint : Text) (units : List UnitRecord) (snapshots : List (Text × Snapshot)) :
    Analysis :=
  snapshots.foldl (fun a s => a.recordSnapshot s.1 s.2)
    (units.foldl Analysis.putUnit (Analysis.empty fingerprint))

/-- The rest of the header behind the version. -/
structure Header where
  identity : UInt32
  fingerprint : Text
  checksum : UInt32
  length : UInt64

/-- Reads the major and the minor version. -/
def decodeVersion : Decoder (UInt16 × UInt16) := do return (← Decoder.u16, ← Decoder.u16)

/-- Reads the rest of the header. -/
def decodeHeader : Decoder Header := do
  return ⟨← Decoder.u32, ← Decoder.text, ← Decoder.u32, ← Decoder.u64⟩

/-- Reads a record.  What is checked, in this order: the magic number, the version, the
    completeness of the header, the roots, the fingerprint, the length of the body, its
    checksum, and that the body holds exactly the entries that it announces. -/
def decode (bytes : Text) (identity : UInt32) (expected : Text) : Except Defect Analysis :=
  match Decoder.u32 (Reader.start bytes) with
  | (none, _) => .error .noRecord
  | (some m, r₁) =>
  if m ≠ magic then .error .noRecord else
  match decodeVersion r₁ with
  | (none, _) => .error .truncatedHeader
  | (some (major, minor), r₂) =>
  if major ≠ majorVersion then .error (.version major minor) else
  match decodeHeader r₂ with
  | (none, _) => .error .truncatedHeader
  | (some h, r₃) =>
  if h.identity ≠ identity then .error (.roots h.identity identity)
  else if h.fingerprint ≠ expected then .error (.configuration h.fingerprint expected)
  else if h.length.toNat ≠ r₃.remaining then .error .bodyLength
  else if Checksum.ofText r₃.rest ≠ h.checksum then .error .checksum
  else match decodeBody.exactly r₃.rest with
    | none => .error .malformedBody
    | some (units, snapshots) => .ok (build h.fingerprint units snapshots)

/-- The outcome of reading a record. -/
def load (bytes : Text) (identity : UInt32) (expected : Text) : LoadOutcome :=
  match decode bytes identity expected with
  | .ok a => .ofAnalysis a
  | .error d => .stale d.reason d.detail

end Record

end Rebuild
