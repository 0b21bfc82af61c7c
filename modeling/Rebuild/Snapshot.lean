/-
  Snapshots: what the metadata of a path was at one point in time.

  * a snapshot is the kind of a path with, for a regular file, its time of
    modification and its length; contents are never read;
  * `Snapshot.same` compares two of them: missing paths and directories by kind only;
  * `Changes.between` is the difference of two sets of snapshots.
-/
import Rebuild.Text

namespace Rebuild

/-- What a path stands for. -/
inductive FileKind
  | missing | file | directory
deriving DecidableEq, Repr

/-- The kinds in the order of their numbers. -/
def FileKind.all : List FileKind := [.missing, .file, .directory]

/-- The displayed name of a kind. -/
def FileKind.name : FileKind → Text
  | missing => "missing"
  | file => "file"
  | directory => "directory"

/-- The metadata of a path. -/
structure Snapshot where
  kind : FileKind
  /-- Nanoseconds since the epoch; zero unless the path is a regular file. -/
  modified : Int64 := 0
  /-- Bytes; zero unless the path is a regular file. -/
  length : Int64 := 0
deriving DecidableEq, Repr

namespace Snapshot

/-- The path stands for something. -/
def present (s : Snapshot) : Bool := s.kind != .missing

/-- The time of modification in milliseconds, cut towards zero. -/
def modifiedMillis (s : Snapshot) : Int64 := s.modified / 1000000

/-- Nothing that a build looks at differs. -/
def same (a b : Snapshot) : Bool :=
  a.kind == b.kind && (a.kind != .file || (a.modified == b.modified && a.length == b.length))

end Snapshot

/-- Snapshots by path. -/
abbrev Snapshots := TextMap Snapshot

/-- Whether `path` is there according to `s`. -/
def Snapshots.has (s : Snapshots) (path : Text) : Bool := s[path]?.any Snapshot.present

/-- Both hold the same paths with the same metadata. -/
def Snapshots.same (a b : Snapshots) : Bool :=
  a.keys == b.keys && (a.toList.zip b.toList).all fun (x, y) => x.2.same y.2

/-- The paths that differ between two sets of snapshots. -/
structure Changes where
  /-- There now, and not before. -/
  added : TextSet
  /-- There before, and not now. -/
  removed : TextSet
  /-- There at both times, with different metadata. -/
  modified : TextSet

namespace Changes

/-- The changes from `recorded` to `current`. -/
def between (recorded current : Snapshots) : Changes where
  added := TextSet.ofTexts
    ((current.filter fun path now => now.present && !recorded.has path).keys)
  removed := TextSet.ofTexts
    ((recorded.filter fun path before => before.present && !current.has path).keys)
  modified := TextSet.ofTexts
    ((current.filter fun path now => now.present &&
      recorded[path]?.any fun before => before.present && !before.same now).keys)

/-- Nothing differs. -/
def isEmpty (c : Changes) : Bool := c.added.isEmpty && c.removed.isEmpty && c.modified.isEmpty

/-- The number of paths that differ. -/
def size (c : Changes) : Nat := c.added.size + c.removed.size + c.modified.size

end Changes

end Rebuild
