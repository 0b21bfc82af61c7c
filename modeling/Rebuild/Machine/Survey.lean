/-
  Surveys of a file tree: snapshots of paths, and the sources that are there.

  Links are followed, so the snapshot of a link is that of what it leads to.  What is
  neither a file nor a directory counts as missing.
-/
import Rebuild.Machine.FileTree
import Rebuild.Snapshot.Sweep
import Rebuild.Snapshot
import Rebuild.Roots

namespace Rebuild

/-- The metadata of a node. -/
def Node.snapshot : Node → Snapshot
  | directory _ => ⟨.directory, 0, 0⟩
  | file content modified => ⟨.file, modified, Int64.ofNat content.length⟩
  | program _ => ⟨.file, 0, 0⟩
  | _ => ⟨.missing, 0, 0⟩

namespace FileTree

/-- The snapshot of a path, and what is told about it. -/
def snapshot (t : FileTree) (path : Text) : Snapshot × List Log.Entry :=
  match t.find path with
  | .ok node =>
    let s := node.snapshot
    let told : Text := path ++ ": " ++ s.kind.name ++ ", " ++ Text.ofInt s.length.toInt ++ " bytes"
    (s, [⟨.trace, "snapshot", told⟩])
  | .error fault =>
    let told : Text := "stat " ++ path ++ " failed: " ++ fault.message
    (⟨.missing, 0, 0⟩, if fault.isAbsence then [] else [⟨.trace, "snapshot", told⟩])

/-- What comes of a sweep over paths by a number of threads: the snapshots, of which a path
    keeps the first, and what was told. -/
def surveyed (paths : List Text) (threads : Nat) (sweep : Sweep (Snapshot × List Log.Entry)) :
    Snapshots × List Log.Entry :=
  let taken := paths.zip (sweep.all.map (·.1))
  let snapshots : Snapshots := taken.foldl (fun m (path, s) => m.insertIfNew path s) ∅
  let told : Text := "Snapshotted " ++ Text.ofNat snapshots.size ++ " paths using " ++
    Text.ofNat threads ++ " thread(s)"
  (snapshots, sweep.seen.flatMap (·.2) ++ [⟨.debug, "snapshot", told⟩])

/-- The snapshots of paths, taken by a number of threads. -/
def survey (t : FileTree) (paths : List Text) (threads : Nat) : Snapshots × List Log.Entry :=
  let threads := sweepThreads threads paths.length
  let order := Sweep.firstTakesAll threads paths.length
  surveyed paths threads (.inOrder t.snapshot paths threads order)

/-- The sources under some roots, and what is told about them. -/
def sources (t : FileTree) (roots : Roots) : List Text × List Log.Entry :=
  let found := roots.discover t.filesBelow
  let told : Text := "Discovered " ++ Text.ofNat found.size ++ " sources under " ++
    Text.ofNat roots.roots.length ++ " root(s)"
  (found.toList, [⟨.debug, "resolve", told⟩])

end FileTree

end Rebuild
