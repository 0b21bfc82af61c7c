/-
  File trees: directories, files, symbolic links and what else a path can lead to.

  A tree is a map from places to nodes.  A place is written as the path from the root
  directory to it on which no link lies, so that every node has one place.

  * `FileTree.locate` follows a path, links included, to a place;
  * reading, writing, renaming and removing answer with a `FileFault` where they fail, and
    then leave the tree as it is;
  * `FileTree.below` lists what lies below a directory.
-/
import Rebuild.Path

namespace Rebuild

/-- Why an operation on a file fails. -/
inductive FileFault
  | noEntry
  | notDirectory
  | isDirectory
  | alreadyThere
  | notEmpty
  | tooManyLinks
  | nameTooLong
  | denied
  | invalid
deriving DecidableEq, Repr

/-- The wording of a fault. -/
def FileFault.message : FileFault → Text
  | noEntry => "No such file or directory"
  | notDirectory => "Not a directory"
  | isDirectory => "Is a directory"
  | alreadyThere => "File exists"
  | notEmpty => "Directory not empty"
  | tooManyLinks => "Too many levels of symbolic links"
  | nameTooLong => "File name too long"
  | denied => "Permission denied"
  | invalid => "Invalid argument"

/-- There is nothing at the path, rather than something that cannot be reached. -/
def FileFault.isAbsence (f : FileFault) : Bool := f == .noEntry || f == .notDirectory

/-- What is at a place. -/
inductive Node
  /-- A regular file with its time of modification. -/
  | file (content : Text) (modified : Int64)
  /-- An executable file, known by the name of its program. -/
  | program (name : Text)
  /-- A directory; in a closed one nothing can be made. -/
  | directory (closed : Bool)
  /-- A symbolic link. -/
  | link (target : Text)
  | fifo
  /-- The device that takes everything and has nothing. -/
  | null
  /-- The device that has zero bytes without end. -/
  | zeros
deriving DecidableEq, Repr

namespace Node

/-- A directory that is open to changes. -/
def folder : Node := directory false

/-- The node is a directory. -/
def isDirectory : Node → Bool
  | directory _ => true
  | _ => false

/-- The node is a regular file. -/
def isFile : Node → Bool
  | file _ _ | program _ => true
  | _ => false

end Node

/-- A file tree, with the time that the next change gets. -/
structure FileTree where
  /-- What is at the places. -/
  nodes : TextMap Node
  /-- Nanoseconds since the epoch. -/
  now : Int64
  /-- Where relative paths start. -/
  [current : CurrentDirectory]

/-- Where a path leads. -/
structure Place where
  /-- The names from the place up to the root directory. -/
  up : List Text
  /-- What is there; if nothing is, the directory around it is there. -/
  node : Option Node
  /-- The path has a slash behind its last name. -/
  trailing : Bool

namespace FileTree

/-- The path of a place. -/
def key (up : List Text) : Text := Path.ofNames up.reverse

/-- What is at a place. -/
def node? (t : FileTree) (up : List Text) : Option Node := t.nodes[key up]?

/-- The number of links that may lie on a path. -/
def linkLimit : Nat := 40

/-- The length of a name. -/
def nameLimit : Nat := 255

/-- The length of a path. -/
def pathLimit : Nat := 4095

/-- How far the parts of a path go without following a link. -/
inductive Stretch
  | ends (place : Place)
  /-- A link in the directory `up`, with the parts behind it. -/
  | link (up : List Text) (target : Text) (rest : List Text)

/-- Follows the parts of a path from a directory on up to a link.  The last name may be one
    that is not to be followed. -/
def stretch (t : FileTree) (follow : Bool) (up : List Text) :
    List Text → Except FileFault Stretch
  | [] => .ok (.ends ⟨up, t.node? up, false⟩)
  | part :: rest =>
    if !(t.node? up).any Node.isDirectory then .error .notDirectory
    else if part = [] ∨ part = "." then t.stretch follow up rest
    else if part = ".." then t.stretch follow up.tail rest
    else if nameLimit < part.length then .error .nameTooLong
    else match t.node? (part :: up) with
      | none =>
        if rest.all (· == []) then .ok (.ends ⟨part :: up, none, rest ≠ []⟩) else .error .noEntry
      | some (.link target) =>
        if rest = [] ∧ !follow then .ok (.ends ⟨part :: up, some (.link target), false⟩)
        else .ok (.link up target rest)
      | some _ => t.stretch follow (part :: up) rest

/-- Follows the parts of a path from a directory on.  The last name is followed if it is a
    link only on demand. -/
def walk (t : FileTree) (follow : Bool) (links : Nat) (up parts : List Text) :
    Except FileFault Place :=
  match t.stretch follow up parts with
  | .error fault => .error fault
  | .ok (.ends place) => .ok place
  | .ok (.link up target rest) =>
    match links with
    | 0 => .error .tooManyLinks
    | links + 1 =>
      t.walk follow links (if Path.isAbsolute target then [] else up)
        (target.split Path.slash ++ rest)
termination_by structural links

/-- Follows a path from the root directory, or from the current one if it is relative.  A path
    ends in front of its first zero byte. -/
def locate (t : FileTree) (follow : Bool) (path : Text) : Except FileFault Place :=
  let path : Text := path.takeWhile (· ≠ 0)
  if path = [] then .error .noEntry
  else if pathLimit < path.length then .error .nameTooLong
  else
    let up := if Path.isAbsolute path then [] else t.current.names.reverse
    t.walk follow linkLimit up (path.split Path.slash)

/-! ## Looking -/

/-- What a path leads to, links followed. -/
def find (t : FileTree) (path : Text) : Except FileFault Node := do
  match (← t.locate true path).node with
  | some node => return node
  | none => .error .noEntry

/-- The path leads to something. -/
def has (t : FileTree) (path : Text) : Bool := (t.find path).toOption.isSome

/-- The path leads to a regular file. -/
def isFile (t : FileTree) (path : Text) : Bool := (t.find path).toOption.any Node.isFile

/-- The path leads to a directory. -/
def isDirectory (t : FileTree) (path : Text) : Bool := (t.find path).toOption.any Node.isDirectory

/-- The content of a file. -/
def read (t : FileTree) (path : Text) : Except FileFault Text := do
  match ← t.find path with
  | .file content _ => return content
  | .directory _ => .error .isDirectory
  | _ => return []

/-- What lies below a place: the path from it and the node, in the byte order of paths.
    Links are listed and not followed. -/
def below (t : FileTree) (up : List Text) : List (Text × Node) :=
  let start : Text := if up = [] then [Path.slash] else key up ++ [Path.slash]
  t.nodes.toList.filterMap fun (path, node) =>
    match Text.after? start path with
    | none | some [] => none
    | some rest => some (rest, node)

/-- The regular files below a directory, as paths that begin with that of the directory.
    Links to files count, and links to directories are not followed. -/
def filesBelow (t : FileTree) (dir : Text) : List Text :=
  match t.locate true dir with
  | .ok ⟨up, some (.directory _), _⟩ =>
    ((t.below up).map fun (rest, _) => Path.join dir rest).filter t.isFile
  | _ => []

/-- The known part of a path, in which no link lies, and the names behind it, after one
    more name. -/
def advance (t : FileTree) (place : List Text × List Text) (name : Text) : List Text × List Text :=
  let (up, rest) := place
  if rest ≠ [] then (up, rest ++ [name])
  else match t.locate true (key (name :: up)) with
    | .ok ⟨up, some _, _⟩ => (up, [])
    | _ => (up, [name])

/-- The names of a path from the root directory on, with links followed as far as there
    is something. -/
def canonical (t : FileTree) (path : Text) : List Text :=
  let (up, rest) := (Path.namesOf t.current path).foldl t.advance ([], [])
  up.reverse ++ rest

/-- What lies below a directory, each as the path from the directory to where it leads,
    with a slash behind directories. -/
def listing (t : FileTree) (dir : Text) : List Text :=
  match t.locate true dir with
  | .ok ⟨up, some (.directory _), _⟩ =>
    let shown := (t.below up).map fun (rest, node) =>
      let path := Path.relative up.reverse (t.canonical (key up ++ Path.slash :: rest))
      if node.isDirectory then path ++ [Path.slash] else path
    shown.mergeSort
  | _ => []

end FileTree

end Rebuild
