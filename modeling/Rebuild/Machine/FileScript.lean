/-
  Scripts of file operations: what is asked of the files, and what follows from each
  answer.

  A script does nothing by itself.  `FileScript.run` carries it out on a file tree; whatever
  else answers the operations, with failures where it likes, can carry it out as well.
-/
import Rebuild.Machine.FileTree.Change

namespace Rebuild

/-- What reading a whole file comes to. -/
inductive FileReading
  /-- Nothing is there. -/
  | absent
  /-- The file cannot be opened. -/
  | closed
  /-- The file is open and nothing can be read from it. -/
  | broken
  | content (t : Text)
deriving DecidableEq, Repr

/-- The bytes that come of an open file.  A read that fails ends them as the end of the file does,
    and nothing else tells of it; there are libraries that throw instead. -/
def FileReading.bytes? : FileReading → Option Text
  | absent | closed => none
  | broken => some []
  | content t => some t

/-- A script that ends with a value. -/
inductive FileScript (α : Type) where
  | done (a : α)
  /-- Makes a directory and those around it. -/
  | makeDirectories (path : Text) (next : Option FileFault → FileScript α)
  /-- Opens an empty file for writing; whether that worked. -/
  | openEmpty (path : Text) (next : Bool → FileScript α)
  /-- Writes the content of a file that was opened empty; whether all of it was written. -/
  | write (path content : Text) (next : Bool → FileScript α)
  /-- Lets a file take the place of another. -/
  | rename (source target : Text) (next : Option FileFault → FileScript α)
  /-- Removes a file if it is there. -/
  | remove (path : Text) (next : FileScript α)
  | read (path : Text) (next : FileReading → FileScript α)

namespace FileScript

variable {α β : Type}

/-- One script after the other. -/
def bind (s : FileScript α) (f : α → FileScript β) : FileScript β :=
  match s with
  | done a => f a
  | makeDirectories path next => makeDirectories path fun r => (next r).bind f
  | openEmpty path next => openEmpty path fun r => (next r).bind f
  | write path content next => write path content fun r => (next r).bind f
  | rename source target next => rename source target fun r => (next r).bind f
  | remove path next => remove path (next.bind f)
  | read path next => read path fun r => (next r).bind f

instance : Monad FileScript where
  pure := done
  bind := bind

end FileScript

namespace FileTree

variable {α : Type}

/-- Reads a whole file. -/
def reading (t : FileTree) (path : Text) : FileReading :=
  if t.has path then
    match t.read path with
    | .ok content => .content content
    | .error _ => .broken
  else .absent

/-- Carries out a script. -/
def run (t : FileTree) : FileScript α → α × FileTree
  | .done a => (a, t)
  | .makeDirectories path next =>
    let (t, r) := t.attempt (t.makeDirectories path)
    t.run (next r)
  | .openEmpty path next =>
    let (t, r) := t.attempt (t.create path [])
    t.run (next r.isNone)
  | .write path content next =>
    let (t, r) := t.attempt (t.create path content)
    t.run (next r.isNone)
  | .rename source target next =>
    let (t, r) := t.attempt (t.rename source target)
    t.run (next r)
  | .remove path next =>
    let (t, _) := t.attempt ((t.remove path).map (·.2))
    t.run next
  | .read path next => t.run (next (t.reading path))
termination_by structural s => s

end FileTree

end Rebuild
