/-
  Changes to file trees.

  * `FileTree.create`, `append` and `patch` change files, `rename` and `remove` what stands
    for them;
  * `FileTree.makeDirectories` makes a directory and the missing ones around it;
  * `FileTree.start` is the tree of a machine on which nothing was done yet.
-/
import Rebuild.Machine.FileTree

namespace Rebuild.FileTree

/-- Puts a node at a place. -/
def put (t : FileTree) (up : List Text) (node : Node) : FileTree :=
  { t with nodes := t.nodes.insert (key up) node }

/-- The time of a change, and the tree in which time has gone on. -/
def tick (t : FileTree) : Int64 × FileTree := (t.now, { t with now := t.now + 1000000 })

/-- Puts a file with this content at a place, changed now. -/
def putFile (t : FileTree) (up : List Text) (content : Text) : FileTree :=
  let (now, t) := t.tick
  t.put up (.file content now)

/-- A changed tree if the change worked, and the fault if it did not. -/
def attempt (t : FileTree) : Except FileFault FileTree → FileTree × Option FileFault
  | .ok t => (t, none)
  | .error fault => (t, some fault)

/-- Whether something can be made at a place where nothing is. -/
def canMake (t : FileTree) (up : List Text) : Bool :=
  match t.node? up.tail with
  | some (.directory closed) => !closed
  | _ => false

/-! ## Files -/

/-- Opens a file for writing, which makes it if there is none: its place and whether a file
    is there.  The place of a device has no content. -/
def openForWriting (t : FileTree) (path : Text) : Except FileFault (List Text × Option Text) := do
  let place ← t.locate true path
  match place.node with
  | some (.file content _) => return (place.up, some content)
  | some (.program _) => .error .denied
  | some (.directory _) => .error .isDirectory
  | some _ => return (place.up, none)
  | none =>
    if place.trailing then .error .isDirectory
    else if t.canMake place.up then return (place.up, some [])
    else .error .noEntry

/-- Writes a file anew. -/
def create (t : FileTree) (path content : Text) : Except FileFault FileTree := do
  match ← t.openForWriting path with
  | (up, some _) => return t.putFile up content
  | (_, none) => return t

/-- Writes behind what a file has. -/
def append (t : FileTree) (path content : Text) : Except FileFault FileTree := do
  match ← t.openForWriting path with
  | (up, some old) => return t.putFile up (old ++ content)
  | (_, none) => return t

/-- Opens a file for writing behind what it has, which makes it if there is none. -/
def openAtEnd (t : FileTree) (path : Text) : Except FileFault FileTree := do
  if (← t.locate true path).node.isSome then
    let _ ← t.openForWriting path
    return t
  else t.create path []

/-- Changes the content of a file that is there. -/
def patch (t : FileTree) (path : Text) (change : Text → Text) : Except FileFault FileTree := do
  t.create path (change (← t.read path))

/-- Sets the time of modification of a file. -/
def touch (t : FileTree) (path : Text) (modified : Int64) : Except FileFault FileTree := do
  let place ← t.locate true path
  match place.node with
  | some (.file content _) => return t.put place.up (.file content modified)
  | some _ => return t
  | none => .error .noEntry

/-- Puts a node where nothing is. -/
def make (t : FileTree) (path : Text) (node : Node) : Except FileFault FileTree := do
  let place ← t.locate false path
  if place.node.isSome then .error .alreadyThere
  else if t.canMake place.up then return t.put place.up node
  else .error .noEntry

/-! ## Names -/

/-- Takes away what a path stands for; a directory only if it is empty.  Nothing to take
    away is no fault.  Also tells whether there was something. -/
def remove (t : FileTree) (path : Text) : Except FileFault (Bool × FileTree) :=
  match t.locate false path with
  | .error .noEntry => .ok (false, t)
  | .error fault => .error fault
  | .ok place =>
    match place.node with
    | none => .ok (false, t)
    | some (.directory _) =>
      if (t.below place.up).isEmpty then .ok (true, { t with nodes := t.nodes.erase (key place.up) })
      else .error .notEmpty
    | some _ => .ok (true, { t with nodes := t.nodes.erase (key place.up) })

/-- Takes away what a path stands for and all below it. -/
def removeAll (t : FileTree) (path : Text) : FileTree :=
  match t.locate false path with
  | .ok ⟨up, some _, _⟩ =>
    let erase (nodes : TextMap Node) (rest : Text × Node) : TextMap Node :=
      nodes.erase (key up ++ Path.slash :: rest.1)
    { t with nodes := (t.below up).foldl erase (t.nodes.erase (key up)) }
  | _ => t

/-- Lets a file go by another path, where it takes the place of what is there unless that
    is a directory. -/
def rename (t : FileTree) (source target : Text) : Except FileFault FileTree := do
  let old ← t.locate false source
  let new ← t.locate false target
  match old.node, new.node with
  | none, _ => .error .noEntry
  | some (.directory _), _ => .error .invalid
  | some _, some (.directory _) => .error .isDirectory
  | some node, there =>
    if there.isNone ∧ !t.canMake new.up then .error .noEntry
    else return FileTree.put { t with nodes := t.nodes.erase (key old.up) } new.up node

/-! ## Directories -/

/-- Makes a directory; one that is there already is as good. -/
def makeDirectory (t : FileTree) (path : Text) : Except FileFault FileTree :=
  match t.make path .folder with
  | .error .alreadyThere => if t.isDirectory path then .ok t else .error .alreadyThere
  | r => r

/-- The directories that are missing on the way to a path, the outermost first.  `limit`
    bounds the number of names on the way. -/
def missing (t : FileTree) (limit : Nat) (path : Text) (inner : List Text) :
    Except FileFault (List Text) :=
  match limit with
  | 0 => .error .nameTooLong
  | limit + 1 =>
    let name := Path.fileName path
    let inner := if name = "." ∨ name = ".." then inner else path :: inner
    let around := Path.directory path
    if around = [] then .ok inner
    else match t.find around with
      | .ok node => if node.isDirectory then .ok inner else .error .notDirectory
      | .error fault => if fault.isAbsence then t.missing limit around inner else .error fault

/-- Makes a directory and the missing ones around it. -/
def makeDirectories (t : FileTree) (path : Text) : Except FileFault FileTree :=
  if path = [] then .error .invalid
  else match t.find path with
    | .ok node => if node.isDirectory then .ok t else .error .notDirectory
    | .error fault =>
      if !fault.isAbsence then .error fault
      else do
        let bare := if Path.fileName path = [] then Path.directory path else path
        (← t.missing pathLimit bare []).foldlM (fun t dir => t.makeDirectory dir) t

/-! ## The first tree -/

/-- The names of the programs that are there. -/
def programs : List Text :=
  ["sh", "cat", "echo", "printf", "true", "false", "sleep", "head", "tr", "test", "[", "pwd",
   "touch", "mkdir", "rm", "cp", "mv", "seq", "basename", "dirname", "sort", "env",
   "tail", "wc", "grep", "ls", "tee", "rmdir", "ln"]

/-- A tree with the directories and programs that commands count on. -/
def start : FileTree :=
  let folders : List Text := ["/", "/bin", "/dev", "/etc", "/tmp", "/usr", "/usr/bin"]
  let nodes : TextMap Node := folders.foldl (fun m dir => m.insert dir .folder) ∅
  let nodes := nodes.insert "/proc" (.directory true)
  let nodes := nodes.insert "/dev/null" .null
  let nodes := nodes.insert "/dev/zero" .zeros
  let nodes := nodes.insert "/etc/passwd" (.file "root:x:0:0:root:/root:/bin/sh\n" 0)
  let nodes := programs.foldl (fun m name =>
    (m.insert ("/bin/" ++ name) (.program name)).insert ("/usr/bin/" ++ name) (.program name)) nodes
  ⟨nodes, 1700000000000000000⟩

end Rebuild.FileTree
